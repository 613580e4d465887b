import Mathlib.Data.List.Infix

/-!
# Programs that may stop early

A program reads and changes a state. It goes on with a value, leaves the loop it is in, fails with an
error, or panics; whichever it is, it leaves a state behind. `Relates` is a rule for what a program
may do to the state on every one of these ways: a reflexive and transitive relation that each part
respects is respected by the whole.
-/

/-- How a program ended, with the state it left. -/
inductive Outcome (σ ε α : Type) where
  | next (value : α) (state : σ)
  | stop (state : σ)
  | fail (error : ε) (state : σ)
  | panic (state : σ)

namespace Outcome

variable {σ ε α β : Type}

@[simp]
def state : Outcome σ ε α → σ
  | next _ s => s
  | stop s => s
  | fail _ s => s
  | panic s => s

/-- Go on from a value; every other end is passed on. -/
@[simp]
def andThen (outcome : Outcome σ ε α) (f : α → σ → Outcome σ ε β) : Outcome σ ε β :=
  match outcome with
  | next a s => f a s
  | stop s => stop s
  | fail e s => fail e s
  | panic s => panic s

/-- The worth of the value there is to go on with. -/
def worth (price : α → Nat) : Outcome σ ε α → Nat
  | next a _ => price a
  | _ => 0

end Outcome

/-- A program over a state. -/
def Prog (σ ε α : Type) := σ → Outcome σ ε α

namespace Prog

variable {σ ε α β : Type}

instance : Monad (Prog σ ε) where
  pure a s := .next a s
  bind m f s := (m s).andThen f

def get : Prog σ ε σ := fun s => .next s s

def modify (f : σ → σ) : Prog σ ε Unit := fun s => .next () (f s)

def stop : Prog σ ε α := fun s => .stop s

def fail (e : ε) : Prog σ ε α := fun s => .fail e s

def panic : Prog σ ε α := fun s => .panic s

/-- Run the body for every element in turn. -/
def forEach (xs : List β) (body : β → Prog σ ε Unit) : Prog σ ε Unit :=
  match xs with
  | [] => pure ()
  | x :: xs => do
      body x
      forEach xs body

/-! ### Running -/

@[simp] theorem run_pure (a : α) (s : σ) : (Pure.pure a : Prog σ ε α) s = .next a s := rfl

@[simp] theorem run_bind (m : Prog σ ε α) (f : α → Prog σ ε β) (s : σ) :
    (m >>= f) s = (m s).andThen f := rfl

@[simp] theorem run_get (s : σ) : (get : Prog σ ε σ) s = .next s s := rfl

@[simp] theorem run_modify (f : σ → σ) (s : σ) : (modify f : Prog σ ε Unit) s = .next () (f s) := rfl

@[simp] theorem run_stop (s : σ) : (stop : Prog σ ε α) s = .stop s := rfl

@[simp] theorem run_fail (e : ε) (s : σ) : (fail e : Prog σ ε α) s = .fail e s := rfl

@[simp] theorem run_panic (s : σ) : (panic : Prog σ ε α) s = .panic s := rfl

theorem bind_assoc {γ : Type} (m : Prog σ ε α) (f : α → Prog σ ε β) (g : β → Prog σ ε γ) :
    (m >>= f) >>= g = m >>= fun a => f a >>= g := by
  funext s
  show ((m s).andThen f).andThen g = (m s).andThen fun a => f a >>= g
  cases m s <;> rfl

/-! ### What a program may do to the state -/

/-- Whatever way the program ends, the state it leaves is related to the one it found. -/
def Relates (R : σ → σ → Prop) (m : Prog σ ε α) : Prop := ∀ s, R s (m s).state

/-- What several changes in a row may do, when each of them may do it. -/
structure Frame (R : σ → σ → Prop) : Prop where
  refl : ∀ s, R s s
  trans : ∀ s t u, R s t → R t u → R s u

variable {R : σ → σ → Prop}

theorem Frame.pure (h : Frame R) (a : α) : Relates R (Pure.pure a : Prog σ ε α) := h.refl

theorem Frame.get (h : Frame R) : Relates R (Prog.get : Prog σ ε σ) := h.refl

theorem Frame.stop (h : Frame R) : Relates R (Prog.stop : Prog σ ε α) := h.refl

theorem Frame.fail (h : Frame R) (e : ε) : Relates R (Prog.fail e : Prog σ ε α) := h.refl

theorem Frame.panic (h : Frame R) : Relates R (Prog.panic : Prog σ ε α) := h.refl

theorem relates_modify {f : σ → σ} (hf : ∀ s, R s (f s)) : Relates R (modify f : Prog σ ε Unit) := hf

theorem Frame.bind (h : Frame R) {m : Prog σ ε α} {f : α → Prog σ ε β} (hm : Relates R m)
    (hf : ∀ a, Relates R (f a)) : Relates R (m >>= f) := by
  intro s
  have hstate : R s (m s).state := hm s
  show R s ((m s).andThen f).state
  cases houtcome : m s with
  | next a s' =>
      rw [houtcome] at hstate
      exact h.trans s s' _ hstate (hf a s')
  | stop s' | fail e s' | panic s' =>
      rw [houtcome] at hstate
      exact hstate

theorem Frame.forEach (h : Frame R) (xs : List β) {body : β → Prog σ ε Unit}
    (hbody : ∀ x, Relates R (body x)) : Relates R (Prog.forEach xs body) := by
  induction xs with
  | nil => exact h.pure ()
  | cons x xs ih => exact h.bind (hbody x) fun _ => ih

/-- A debt for the value the program goes on with, or none. -/
def Owes (R : Nat → σ → σ → Prop) (price : α → Nat) (m : Prog σ ε α) : Prop :=
  ∀ s, R ((m s).worth price) s (m s).state

theorem Owes.relates {R : Nat → σ → σ → Prop} {price : α → Nat} {m : Prog σ ε α} {f : α → Prog σ ε β}
    (hm : Owes R price m) (hf : ∀ a s t, R (price a) s t → R 0 s (f a t).state) : Relates (R 0) (m >>= f) := by
  intro s
  have howes := hm s
  rw [run_bind]
  cases houtcome : m s with
  | next a t =>
      rw [houtcome] at howes
      exact hf a s t howes
  | stop t | fail _ t | panic t =>
      rw [houtcome] at howes
      exact howes

theorem relates_mono {R' : σ → σ → Prop} {m : Prog σ ε α} (hmono : ∀ s t, R s t → R' s t)
    (hm : Relates R m) : Relates R' m := fun s => hmono s _ (hm s)

/-! ### Programs without errors -/

/-- From no state does the program end in an error. -/
def Unfailing (m : Prog σ ε α) : Prop := ∀ s e t, m s ≠ .fail e t

theorem Unfailing.bind {m : Prog σ ε α} {f : α → Prog σ ε β} (hm : Unfailing m)
    (hf : ∀ a, Unfailing (f a)) : Unfailing (m >>= f) := by
  intro s e t
  show (m s).andThen f ≠ .fail e t
  cases houtcome : m s with
  | next a s' => exact hf a s' e t
  | stop s' | panic s' => exact nofun
  | fail e' s' => exact absurd houtcome (hm s e' s')

theorem unfailing_modify (f : σ → σ) : Unfailing (modify f : Prog σ ε Unit) := fun _ _ _ => nofun

/-! ### Properties of programs put together -/

/-- A property that programs have when their parts have it. -/
structure Closed (Q : ∀ α : Type, Prog σ ε α → Prop) : Prop where
  pure : ∀ {α : Type} (a : α), Q α (Pure.pure a)
  get : Q σ Prog.get
  stop : ∀ {α : Type}, Q α Prog.stop
  panic : ∀ {α : Type}, Q α Prog.panic
  bind : ∀ {α β : Type} {m : Prog σ ε α} {f : α → Prog σ ε β}, Q α m → (∀ a, Q β (f a)) → Q β (m >>= f)

theorem Closed.forEach {Q : ∀ α : Type, Prog σ ε α → Prop} (h : Closed Q) (xs : List β)
    {body : β → Prog σ ε Unit} (hbody : ∀ x, Q Unit (body x)) : Q Unit (Prog.forEach xs body) := by
  induction xs with
  | nil => exact h.pure ()
  | cons x xs ih => exact h.bind (hbody x) fun _ => ih

theorem Frame.closed (h : Frame R) : Closed fun α (m : Prog σ ε α) => Relates R m where
  pure := h.pure
  get := h.get
  stop := h.stop
  panic := h.panic
  bind := h.bind

theorem unfailing_closed : Closed fun α (m : Prog σ ε α) => Unfailing m where
  pure _ := fun _ _ _ => nofun
  get := fun _ _ _ => nofun
  stop := fun _ _ _ => nofun
  panic := fun _ _ _ => nofun
  bind := Unfailing.bind

end Prog
