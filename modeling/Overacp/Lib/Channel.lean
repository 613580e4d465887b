import Mathlib.Logic.Function.Basic

/-!
# Unbounded channels

A channel is what its receiver has not taken yet, and whether the receiver is still alive. Senders
are names: any number of holders may send under one name, and none of them can tell whether another
has let go.
-/

/-- The receiving side of an unbounded channel. -/
structure Channel (φ : Type*) where
  queue : List φ
  isOpen : Bool
  deriving DecidableEq, Repr

/-- What a live receiver has not taken yet; nothing where there is none. -/
def Channel.waiting {φ : Type*} (channel : Channel φ) : List φ := if channel.isOpen then channel.queue else []

/-- What a name of a sender stands for. -/
abbrev Sender := Nat

/-- Every channel there is, by the name of its senders. -/
abbrev Channels (φ : Type*) := Sender → Channel φ

namespace Channels

variable {φ : Type*}

/-- No channel has been made: nothing is queued and nobody receives. -/
def none : Channels φ := fun _ => ⟨[], false⟩

/-- Make the channel of a name, with a live receiver. -/
def create (cs : Channels φ) (tx : Sender) : Channels φ := Function.update cs tx ⟨[], true⟩

/-- Append to the channel, or give the value back when the receiver is gone. -/
def send (cs : Channels φ) (tx : Sender) (x : φ) : Except φ (Channels φ) :=
  if (cs tx).isOpen then .ok (Function.update cs tx ⟨(cs tx).queue ++ [x], true⟩) else .error x

/-- Drop the receiver: what was queued is lost. -/
def close (cs : Channels φ) (tx : Sender) : Channels φ := Function.update cs tx ⟨[], false⟩

/-- Take the oldest value. -/
def recv (cs : Channels φ) (tx : Sender) : Option (φ × Channels φ) :=
  match (cs tx).queue with
  | [] => Option.none
  | x :: xs => some (x, Function.update cs tx ⟨xs, (cs tx).isOpen⟩)

/-- The channels after an attempt to send, whatever came of it. -/
def sent (cs : Channels φ) (tx : Sender) (x : φ) : Channels φ :=
  match cs.send tx x with
  | .ok cs' => cs'
  | .error _ => cs

@[simp] theorem create_self (cs : Channels φ) (tx : Sender) : cs.create tx tx = ⟨[], true⟩ :=
  Function.update_self ..

theorem create_ne (cs : Channels φ) {tx tx' : Sender} (h : tx' ≠ tx) : cs.create tx tx' = cs tx' :=
  Function.update_of_ne h ..

@[simp] theorem close_self (cs : Channels φ) (tx : Sender) : cs.close tx tx = ⟨[], false⟩ :=
  Function.update_self ..

theorem close_ne (cs : Channels φ) {tx tx' : Sender} (h : tx' ≠ tx) : cs.close tx tx' = cs tx' :=
  Function.update_of_ne h ..

theorem send_eq_ok {cs cs' : Channels φ} {tx : Sender} {x : φ} :
    cs.send tx x = .ok cs' ↔
      (cs tx).isOpen = true ∧ cs' = Function.update cs tx ⟨(cs tx).queue ++ [x], true⟩ := by
  unfold send
  split
  · rename_i hopen
    simp only [Except.ok.injEq, hopen, true_and, eq_comm]
  · rename_i hclosed
    simp only [reduceCtorEq, hclosed, Bool.false_eq_true, false_and]

theorem send_eq_error {cs : Channels φ} {tx : Sender} {x y : φ} :
    cs.send tx x = .error y ↔ (cs tx).isOpen = false ∧ x = y := by
  unfold send
  split
  · rename_i hopen
    simp only [reduceCtorEq, hopen, Bool.true_eq_false, false_and]
  · rename_i hclosed
    simp only [Except.error.injEq, Bool.not_eq_true] at hclosed ⊢
    simp only [hclosed, true_and]

/-- Sending neither opens nor closes a channel. -/
@[simp] theorem isOpen_sent (cs : Channels φ) (tx tx' : Sender) (x : φ) :
    (cs.sent tx x tx').isOpen = (cs tx').isOpen := by
  unfold sent
  cases hsend : cs.send tx x with
  | error y => rfl
  | ok cs' =>
      obtain ⟨hopen, rfl⟩ := send_eq_ok.mp hsend
      by_cases htx : tx' = tx
      · subst htx
        simp only [Function.update_self, hopen]
      · simp only [Function.update_of_ne htx]

/-! ### What waits in a channel -/

@[simp] theorem waiting_create (cs : Channels φ) (tx : Sender) : (cs.create tx tx).waiting = [] := by
  rw [create_self]
  rfl

@[simp] theorem waiting_close (cs : Channels φ) (tx : Sender) : (cs.close tx tx).waiting = [] := by
  rw [close_self]
  rfl

/-- A value is sent to a live receiver, and to nobody otherwise. -/
theorem waiting_sent (cs : Channels φ) (tx : Sender) (x : φ) :
    (cs.sent tx x tx).waiting = if (cs tx).isOpen then (cs tx).waiting ++ [x] else [] := by
  unfold sent send Channel.waiting
  by_cases hopen : (cs tx).isOpen = true
  · simp only [if_pos hopen, Function.update_self, ↓reduceIte]
  · simp only [if_neg hopen]

theorem sent_ne (cs : Channels φ) {tx tx' : Sender} (x : φ) (h : tx' ≠ tx) : cs.sent tx x tx' = cs tx' := by
  unfold sent send
  by_cases hopen : (cs tx).isOpen = true
  · simp only [if_pos hopen, Function.update_of_ne h]
  · simp only [if_neg hopen]

theorem recv_eq_some {cs cs' : Channels φ} {tx : Sender} {x : φ} (h : cs.recv tx = some (x, cs')) :
    (cs tx).queue = x :: (cs' tx).queue ∧ (cs' tx).isOpen = (cs tx).isOpen ∧
      ∀ tx', tx' ≠ tx → cs' tx' = cs tx' := by
  unfold recv at h
  split at h
  · cases h
  · rename_i y ys hqueue
    cases h
    refine ⟨?_, ?_, fun tx' htx => Function.update_of_ne htx ..⟩
    · rw [Function.update_self, hqueue]
    · rw [Function.update_self]

/-! ### Closed channels -/

/-- A channel without a receiver holds nothing. -/
def Clean (cs : Channels φ) : Prop := ∀ tx, (cs tx).isOpen = false → (cs tx).queue = []

theorem clean_none : Clean (none : Channels φ) := fun _ _ => rfl

theorem Clean.create {cs : Channels φ} (h : Clean cs) (tx : Sender) : Clean (cs.create tx) := by
  intro tx' hclosed
  by_cases htx : tx' = tx
  · rw [htx, create_self]
  · rw [create_ne cs htx] at hclosed ⊢
    exact h tx' hclosed

theorem Clean.close {cs : Channels φ} (h : Clean cs) (tx : Sender) : Clean (cs.close tx) := by
  intro tx' hclosed
  by_cases htx : tx' = tx
  · rw [htx, close_self]
  · rw [close_ne cs htx] at hclosed ⊢
    exact h tx' hclosed

theorem Clean.sent {cs : Channels φ} (h : Clean cs) (tx : Sender) (x : φ) : Clean (cs.sent tx x) := by
  intro tx' hclosed
  rw [isOpen_sent] at hclosed
  by_cases htx : tx' = tx
  · subst htx
    unfold Channels.sent send
    rw [if_neg (by simp [hclosed])]
    exact h tx' hclosed
  · rw [sent_ne cs x htx]
    exact h tx' hclosed

theorem Clean.recv {cs cs' : Channels φ} {tx : Sender} {x : φ} (h : Clean cs)
    (hrecv : cs.recv tx = some (x, cs')) : Clean cs' := by
  obtain ⟨hqueue, hopen, hothers⟩ := recv_eq_some hrecv
  intro tx' hclosed
  by_cases htx : tx' = tx
  · subst htx
    rw [hopen] at hclosed
    rw [h tx' hclosed] at hqueue
    cases hqueue
  · rw [hothers tx' htx] at hclosed ⊢
    exact h tx' hclosed

/-- What can be received is received from an open channel. -/
theorem Clean.isOpen_of_recv {cs cs' : Channels φ} {tx : Sender} {x : φ} (h : Clean cs)
    (hrecv : cs.recv tx = some (x, cs')) : (cs tx).isOpen = true := by
  by_contra hclosed
  have hempty := h tx ((Bool.not_eq_true _).mp hclosed)
  rw [(recv_eq_some hrecv).1] at hempty
  cases hempty

/-! ### Changing the values -/

section Map

variable {ψ : Type*} (g : φ → ψ) (cs : Channels φ) (tx : Sender)

def map : Channels ψ := fun tx => ⟨(cs tx).queue.map g, (cs tx).isOpen⟩

theorem map_update (channel : Channel φ) :
    map g (Function.update cs tx channel) =
      Function.update (map g cs) tx ⟨channel.queue.map g, channel.isOpen⟩ := by
  funext other
  by_cases hother : other = tx
  · rw [hother, map, Function.update_self, Function.update_self]
  · rw [map, Function.update_of_ne hother, Function.update_of_ne hother, map]

theorem map_create : map g (cs.create tx) = (map g cs).create tx := map_update g cs tx _

theorem map_close : map g (cs.close tx) = (map g cs).close tx := map_update g cs tx _

theorem send_map (x : φ) : (map g cs).send tx (g x) = ((cs.send tx x).map (map g)).mapError g := by
  unfold send
  rw [show (map g cs tx).isOpen = (cs tx).isOpen from rfl]
  by_cases hopen : (cs tx).isOpen = true
  · rw [if_pos hopen, if_pos hopen]
    refine congrArg Except.ok ?_
    rw [map_update, List.map_append]
    rfl
  · rw [if_neg hopen, if_neg hopen]
    rfl

theorem map_sent (x : φ) : map g (cs.sent tx x) = (map g cs).sent tx (g x) := by
  rw [sent, sent, send_map]
  cases cs.send tx x with
  | ok cs' => rfl
  | error x => rfl

theorem recv_map : (map g cs).recv tx = (cs.recv tx).map fun taken => (g taken.1, map g taken.2) := by
  unfold recv
  rw [show (map g cs tx).queue = (cs tx).queue.map g from rfl]
  cases (cs tx).queue with
  | nil => rfl
  | cons x xs =>
      simp only [List.map_cons, Option.map_some, map_update]
      rfl

end Map

end Channels
