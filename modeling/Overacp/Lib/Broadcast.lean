import Mathlib.Data.List.AList
import Mathlib.Data.List.DropRight

/-!
# Broadcast channels

One buffer of the most recent values, shared by all receivers; each receiver only remembers how many values
come before the next one it gets. A receiver that falls behind the buffer is told how many values it missed and
goes on with the oldest one there is. Seen by itself, a receiver has a mailbox of its own that the oldest value
is dropped from when it overflows; the shared buffer cannot be told from such mailboxes.
-/

namespace Broadcast

variable {ρ α : Type*}

/-! ### Mailboxes -/

/-- What one receiver has not been given yet, and how many values before that it missed. -/
structure Mailbox (α : Type*) where
  missed : Nat
  kept : List α
  deriving DecidableEq, Repr

/-- What a receiver is given when it asks. -/
inductive Received (α : Type*) where
  | value (x : α)
  | lagged (missed : Nat)
  | empty
  deriving DecidableEq, Repr

namespace Received

def value? : Received α → Option α
  | value x => some x
  | lagged _ | empty => none

def missed : Received α → Nat
  | lagged n => n
  | value _ | empty => 0

end Received

namespace Mailbox

def new : Mailbox α := ⟨0, []⟩

/-- A value comes in, and the oldest one makes room. -/
def post (capacity : Nat) (mailbox : Mailbox α) (x : α) : Mailbox α :=
  ⟨mailbox.missed + ((mailbox.kept.length + 1) - capacity), (mailbox.kept ++ [x]).rtake capacity⟩

/-- Values that were missed are reported before the next value is given. -/
def take (mailbox : Mailbox α) : Received α × Mailbox α :=
  if 0 < mailbox.missed then (.lagged mailbox.missed, ⟨0, mailbox.kept⟩)
  else match mailbox.kept with
    | [] => (.empty, mailbox)
    | x :: kept => (.value x, ⟨0, kept⟩)

/-- What happens to a mailbox. -/
inductive Event (α : Type*) where
  | post (x : α)
  | take
  deriving DecidableEq, Repr

/-- What is given out, and what is left. -/
def run (capacity : Nat) : Mailbox α → List (Event α) → List (Received α) × Mailbox α
  | mailbox, [] => ([], mailbox)
  | mailbox, .post x :: events => run capacity (mailbox.post capacity x) events
  | mailbox, .take :: events =>
      (mailbox.take.1 :: (run capacity mailbox.take.2 events).1, (run capacity mailbox.take.2 events).2)

def Event.posted? : Event α → Option α
  | post x => some x
  | take => none

/-! ### What becomes of a value -/

theorem length_rtake (xs : List α) (n : Nat) : (xs.rtake n).length = min n xs.length := by
  rw [List.rtake, List.length_drop]
  omega

def values (given : List (Received α)) : List α := given.filterMap Received.value?

def missedIn : List (Received α) → Nat
  | [] => 0
  | received :: given => received.missed + missedIn given

theorem values_concat (given : List (Received α)) (received : Received α) :
    values (given ++ [received]) = values given ++ received.value?.toList := by
  rw [values, List.filterMap_append, ← values]
  cases received <;> rfl

theorem missedIn_concat (given : List (Received α)) (received : Received α) :
    missedIn (given ++ [received]) = missedIn given + received.missed := by
  induction given with
  | nil => exact Nat.add_comm _ _
  | cons first given ih =>
      rw [List.cons_append, missedIn, ih, missedIn]
      omega

/-- Of what was posted some was given and some is kept, in order; the rest was missed, and is reported or will
be; and what is kept is the last that was posted. -/
structure Account (capacity : Nat) (posted : List α) (given : List (Received α)) (mailbox : Mailbox α) : Prop where
  order : (values given ++ mailbox.kept).Sublist posted
  count : posted.length = (values given).length + missedIn given + mailbox.missed + mailbox.kept.length
  recent : mailbox.kept <:+ posted
  bounded : mailbox.kept.length ≤ capacity

variable {capacity : Nat} {posted : List α} {given : List (Received α)} {mailbox : Mailbox α}

theorem Account.start (capacity : Nat) : Account capacity ([] : List α) [] .new where
  order := List.Sublist.refl _
  count := rfl
  recent := List.suffix_refl _
  bounded := Nat.zero_le _

theorem Account.post (h : Account capacity posted given mailbox) (x : α) :
    Account capacity (posted ++ [x]) given (mailbox.post capacity x) := by
  have hkept : (mailbox.kept ++ [x]).rtake capacity <:+ mailbox.kept ++ [x] := List.drop_suffix _ _
  refine ⟨?_, ?_, ?_, ?_⟩
  · have horder := h.order.append (List.Sublist.refl [x])
    rw [List.append_assoc] at horder
    exact (hkept.sublist.append_left _).trans horder
  · have hcount := h.count
    simp only [Mailbox.post, length_rtake, List.length_append, List.length_singleton]
    omega
  · obtain ⟨before, hbefore⟩ := h.recent
    refine hkept.trans ⟨before, ?_⟩
    rw [← List.append_assoc, hbefore]
  · rw [Mailbox.post, length_rtake]
    exact Nat.min_le_left _ _

theorem take_cases (mailbox : Mailbox α) :
    (0 < mailbox.missed ∧ mailbox.take = (.lagged mailbox.missed, ⟨0, mailbox.kept⟩)) ∨
      (mailbox.missed = 0 ∧ mailbox.kept = [] ∧ mailbox.take = (.empty, mailbox)) ∨
      ∃ x kept, mailbox.missed = 0 ∧ mailbox.kept = x :: kept ∧ mailbox.take = (.value x, ⟨0, kept⟩) := by
  unfold take
  by_cases hmissed : 0 < mailbox.missed
  · exact .inl ⟨hmissed, if_pos hmissed⟩
  · right
    have hzero : mailbox.missed = 0 := by omega
    rw [if_neg hmissed]
    cases mailbox.kept with
    | nil => exact .inl ⟨hzero, rfl, rfl⟩
    | cons x kept => exact .inr ⟨x, kept, hzero, rfl, rfl⟩

theorem Account.take (h : Account capacity posted given mailbox) :
    Account capacity posted (given ++ [mailbox.take.1]) mailbox.take.2 := by
  obtain ⟨horder, hcount, hrecent, hbounded⟩ := h
  rcases mailbox.take_cases with ⟨hmissed, htake⟩ | ⟨hmissed, hkept, htake⟩ | ⟨x, kept, hmissed, hkept, htake⟩
  · rw [htake]
    refine ⟨?_, ?_, hrecent, hbounded⟩
    · rw [values_concat]
      exact (List.append_nil (values given)).symm ▸ horder
    · rw [values_concat, missedIn_concat]
      simp only [Received.value?, Received.missed, Option.toList_none, List.append_nil]
      omega
  · rw [htake]
    refine ⟨?_, ?_, hrecent, hbounded⟩
    · rw [values_concat]
      exact (List.append_nil (values given)).symm ▸ horder
    · rw [values_concat, missedIn_concat]
      simp only [Received.value?, Received.missed, Option.toList_none, List.append_nil]
      omega
  · rw [htake]
    rw [hkept] at horder hcount hrecent hbounded
    refine ⟨?_, ?_, (List.suffix_cons x kept).trans hrecent, ?_⟩
    · rw [values_concat, List.append_assoc]
      exact horder
    · rw [values_concat, missedIn_concat]
      simp only [Received.value?, Received.missed, Option.toList_some, List.length_append, List.length_cons,
        List.length_nil] at hcount ⊢
      omega
    · exact Nat.le_of_succ_le hbounded

theorem Account.run (h : Account capacity posted given mailbox) (events : List (Event α)) :
    Account capacity (posted ++ events.filterMap Event.posted?)
      (given ++ (mailbox.run capacity events).1) (mailbox.run capacity events).2 := by
  induction events generalizing posted given mailbox with
  | nil => rwa [List.filterMap_nil, Mailbox.run, List.append_nil, List.append_nil]
  | cons event events ih =>
      cases event with
      | post x =>
          have hrest := ih (h.post x)
          rwa [List.append_assoc] at hrest
      | take =>
          have hrest := ih h.take
          rwa [List.append_assoc] at hrest

/-! ### A receiver that keeps up -/

/-- With so many values waiting, the receiver asks before there are more than fit. -/
def KeepsUp (capacity : Nat) : Nat → List (Event α) → Prop
  | _, [] => True
  | waiting, .post _ :: events => waiting < capacity ∧ KeepsUp capacity (waiting + 1) events
  | waiting, .take :: events => KeepsUp capacity (waiting - 1) events

def decideKeepsUp (capacity : Nat) : ∀ (waiting : Nat) (events : List (Event α)),
    Decidable (KeepsUp capacity waiting events)
  | _, [] => .isTrue trivial
  | waiting, .post _ :: events =>
      have _ := decideKeepsUp capacity (waiting + 1) events
      inferInstanceAs (Decidable (_ ∧ _))
  | waiting, .take :: events => decideKeepsUp capacity (waiting - 1) events

instance (capacity waiting : Nat) (events : List (Event α)) : Decidable (KeepsUp capacity waiting events) :=
  decideKeepsUp capacity waiting events

theorem post_of_room {x : α} (hroom : mailbox.kept.length < capacity) :
    mailbox.post capacity x = ⟨mailbox.missed, mailbox.kept ++ [x]⟩ := by
  rw [post, Nat.sub_eq_zero_of_le hroom, Nat.add_zero, List.rtake, List.length_append, List.length_singleton,
    Nat.sub_eq_zero_of_le hroom, List.drop_zero]

/-- It is told of no value missed, and has everything that was posted, given or still kept. -/
theorem run_of_keepsUp {events : List (Event α)} (hmissed : mailbox.missed = 0)
    (h : KeepsUp capacity mailbox.kept.length events) :
    (mailbox.run capacity events).2.missed = 0 ∧
      values (mailbox.run capacity events).1 ++ (mailbox.run capacity events).2.kept =
        mailbox.kept ++ events.filterMap Event.posted? := by
  induction events generalizing mailbox with
  | nil => exact ⟨hmissed, (List.append_nil mailbox.kept).symm⟩
  | cons event events ih =>
      cases event with
      | post x =>
          have hpost := post_of_room (x := x) h.1
          have hrest := @ih (mailbox.post capacity x) (by rw [hpost]; exact hmissed)
            (by rw [hpost, List.length_append]; exact h.2)
          refine ⟨hrest.1, hrest.2.trans ?_⟩
          rw [hpost, List.append_assoc]
          rfl
      | take =>
          rcases mailbox.take_cases with ⟨hpos, -⟩ | ⟨-, hkept, htake⟩ | ⟨x, kept, -, hkept, htake⟩
          · omega
          · have hrest := @ih mailbox hmissed (by rw [KeepsUp, hkept] at h; rw [hkept]; exact h)
            rw [run, htake]
            exact hrest
          · have hrest := @ih ⟨0, kept⟩ rfl (by rw [KeepsUp, hkept] at h; exact h)
            rw [run, htake, hkept]
            exact ⟨hrest.1, congrArg (x :: ·) hrest.2⟩

end Mailbox

/-! ### The shared buffer -/

/-- The most recent values, how many were sent in all, and for each receiver how many of them come before its
next one. -/
structure Channel (ρ α : Type*) where
  buffer : List α
  tail : Nat
  receivers : AList fun _ : ρ => Nat

namespace Channel

variable [DecidableEq ρ]

def new : Channel ρ α := ⟨[], 0, ∅⟩

/-- Nothing is sent when nobody receives. -/
def send (capacity : Nat) (ch : Channel ρ α) (x : α) : Except α (Channel ρ α) :=
  if ch.receivers.entries = [] then .error x
  else .ok { ch with buffer := (ch.buffer ++ [x]).rtake capacity, tail := ch.tail + 1 }

/-- The channel after an attempt to send, whatever came of it. -/
def sent (capacity : Nat) (ch : Channel ρ α) (x : α) : Channel ρ α :=
  match ch.send capacity x with
  | .ok ch' => ch'
  | .error _ => ch

/-- A new receiver gets what is sent from now on. -/
def subscribe (ch : Channel ρ α) (r : ρ) : Channel ρ α := { ch with receivers := ch.receivers.insert r ch.tail }

def drop (ch : Channel ρ α) (r : ρ) : Channel ρ α := { ch with receivers := ch.receivers.erase r }

/-- What a receiver gets whose next value is the one after so many. -/
def recvAt (ch : Channel ρ α) (next : Nat) : Received α × Nat :=
  if next + ch.buffer.length < ch.tail then
    (.lagged (ch.tail - ch.buffer.length - next), ch.tail - ch.buffer.length)
  else match ch.buffer[next + ch.buffer.length - ch.tail]? with
    | some x => (.value x, next + 1)
    | none => (.empty, next)

/-- `none` for a receiver that there is not. -/
def recv (ch : Channel ρ α) (r : ρ) : Option (Received α × Channel ρ α) :=
  (ch.receivers.lookup r).map fun next =>
    ((ch.recvAt next).1, { ch with receivers := ch.receivers.insert r (ch.recvAt next).2 })

/-! ### A receiver by itself -/

/-- The mailbox of a receiver whose next value is the one after so many. -/
def mailboxAt (ch : Channel ρ α) (next : Nat) : Mailbox α :=
  ⟨ch.tail - ch.buffer.length - next, ch.buffer.rtake (ch.tail - next)⟩

omit [DecidableEq ρ] in
@[simp] theorem missed_mailboxAt (ch : Channel ρ α) (next : Nat) :
    (ch.mailboxAt next).missed = ch.tail - ch.buffer.length - next := rfl

def mailbox? (ch : Channel ρ α) (r : ρ) : Option (Mailbox α) := (ch.receivers.lookup r).map ch.mailboxAt

/-- The buffer is full unless it holds everything, and no receiver is ahead of what was sent. -/
structure Filled (capacity : Nat) (ch : Channel ρ α) : Prop where
  length : ch.buffer.length = min capacity ch.tail
  next_le : ∀ r next, ch.receivers.lookup r = some next → next ≤ ch.tail

variable {capacity : Nat} {ch : Channel ρ α}

theorem rtake_rtake (xs : List α) (m n : Nat) : (xs.rtake m).rtake n = xs.rtake (min m n) := by
  rw [List.rtake, List.rtake, List.rtake, List.drop_drop, List.length_drop]
  congr 1
  omega

theorem filled_new : Filled capacity (new : Channel ρ α) where
  length := (Nat.min_zero capacity).symm
  next_le _ _ h := by cases h

theorem sent_of_receiver {r : ρ} {next : Nat} (h : ch.receivers.lookup r = some next) (x : α) :
    ch.sent capacity x = { ch with buffer := (ch.buffer ++ [x]).rtake capacity, tail := ch.tail + 1 } := by
  have hsome : ch.receivers.entries ≠ [] := by
    intro hnil
    have hmem : r ∈ ch.receivers := by
      rw [← AList.lookup_isSome, h]
      rfl
    rw [AList.mem_keys, AList.keys, hnil] at hmem
    cases hmem
  rw [sent, send, if_neg hsome]

omit [DecidableEq ρ] in
theorem receivers_sent (x : α) : (ch.sent capacity x).receivers = ch.receivers := by
  rw [sent, send]
  split_ifs <;> rfl

theorem Filled.sent (h : Filled capacity ch) (x : α) : Filled capacity (ch.sent capacity x) := by
  rw [Channel.sent, send]
  split_ifs with hnone
  · exact h
  · refine ⟨?_, fun r next hnext => Nat.le_succ_of_le (h.next_le r next hnext)⟩
    show ((ch.buffer ++ [x]).rtake capacity).length = min capacity (ch.tail + 1)
    rw [Mailbox.length_rtake, List.length_append, List.length_singleton, h.length]
    omega

theorem Filled.subscribe (h : Filled capacity ch) (r : ρ) : Filled capacity (ch.subscribe r) where
  length := h.length
  next_le r' next hnext := by
    by_cases hr : r' = r
    · rw [hr] at hnext
      rw [Channel.subscribe, AList.lookup_insert, Option.some_inj] at hnext
      exact hnext.ge
    · rw [Channel.subscribe, AList.lookup_insert_ne hr] at hnext
      exact h.next_le r' next hnext

theorem Filled.drop (h : Filled capacity ch) (r : ρ) : Filled capacity (ch.drop r) where
  length := h.length
  next_le r' next hnext := by
    by_cases hr : r' = r
    · rw [hr, Channel.drop, AList.lookup_erase] at hnext
      cases hnext
    · rw [Channel.drop, AList.lookup_erase_ne hr] at hnext
      exact h.next_le r' next hnext

/-- A receiver is given what its mailbox gives. -/
theorem recvAt_eq (h : Filled capacity ch) {next : Nat} (hnext : next ≤ ch.tail) :
    ((ch.recvAt next).1, ch.mailboxAt (ch.recvAt next).2) = (ch.mailboxAt next).take ∧
      (ch.recvAt next).2 ≤ ch.tail := by
  have hlength := h.length
  by_cases hlag : next + ch.buffer.length < ch.tail
  · have hmissed : 0 < (ch.mailboxAt next).missed := by
      rw [missed_mailboxAt]
      omega
    have hall (n : Nat) (hn : ch.buffer.length ≤ n) : ch.buffer.rtake n = ch.buffer := by
      rw [List.rtake, Nat.sub_eq_zero_of_le hn, List.drop_zero]
    rw [recvAt, if_pos hlag, Mailbox.take, if_pos hmissed]
    refine ⟨?_, Nat.sub_le _ _⟩
    simp only [mailboxAt, Prod.mk.injEq, Mailbox.mk.injEq, true_and]
    refine ⟨Nat.sub_self _, ?_⟩
    rw [hall _ (by omega), hall _ (by omega)]
  · have hmissed : (ch.mailboxAt next).missed = 0 := by
      rw [missed_mailboxAt]
      omega
    have hindex : ch.buffer.length - (ch.tail - next) = next + ch.buffer.length - ch.tail := by omega
    rw [recvAt, if_neg hlag, Mailbox.take, if_neg (by omega)]
    have hkept : (ch.mailboxAt next).kept = ch.buffer.drop (next + ch.buffer.length - ch.tail) := by
      rw [mailboxAt, List.rtake, hindex]
    cases hget : ch.buffer[next + ch.buffer.length - ch.tail]? with
    | none =>
        rw [List.getElem?_eq_none_iff] at hget
        rw [hkept, List.drop_eq_nil_of_le hget]
        exact ⟨rfl, hnext⟩
    | some x =>
        obtain ⟨hlt, hx⟩ := List.getElem?_eq_some_iff.mp hget
        rw [hkept, List.drop_eq_getElem_cons hlt, hx]
        refine ⟨?_, by dsimp only; omega⟩
        simp only [mailboxAt, Prod.mk.injEq, Mailbox.mk.injEq, true_and]
        refine ⟨by omega, ?_⟩
        rw [List.rtake]
        congr 1
        omega

theorem mailboxAt_sent (h : Filled capacity ch) {next : Nat} (hnext : next ≤ ch.tail) (x : α) :
    mailboxAt { ch with buffer := (ch.buffer ++ [x]).rtake capacity, tail := ch.tail + 1 } next =
      (ch.mailboxAt next).post capacity x := by
  have hlength := h.length
  have hsucc : ch.tail + 1 - next = ch.tail - next + 1 := by omega
  simp only [mailboxAt, Mailbox.post, Mailbox.mk.injEq, Mailbox.length_rtake, List.length_append, List.length_singleton]
  refine ⟨by omega, ?_⟩
  rw [rtake_rtake, hsucc, ← List.rtake_concat_succ, rtake_rtake, Nat.min_comm]

/-- Every receiver's mailbox takes in what is sent. -/
theorem mailbox?_sent (h : Filled capacity ch) (x : α) (r : ρ) :
    (ch.sent capacity x).mailbox? r = (ch.mailbox? r).map fun mailbox => mailbox.post capacity x := by
  rw [mailbox?, mailbox?, receivers_sent, Option.map_map]
  cases hnext : ch.receivers.lookup r with
  | none => rfl
  | some next =>
      rw [sent_of_receiver hnext, Option.map_some, Option.map_some]
      exact congrArg some (mailboxAt_sent h (h.next_le r next hnext) x)

theorem mailbox?_subscribe_self (r : ρ) : (ch.subscribe r).mailbox? r = some .new := by
  rw [mailbox?, subscribe, AList.lookup_insert, Option.map_some, mailboxAt]
  simp only [Nat.sub_self, List.rtake_zero]
  rw [Nat.sub_eq_zero_of_le (Nat.sub_le _ _)]
  rfl

theorem mailbox?_subscribe_ne {r r' : ρ} (h : r' ≠ r) : (ch.subscribe r).mailbox? r' = ch.mailbox? r' := by
  rw [mailbox?, subscribe, AList.lookup_insert_ne h]
  rfl

theorem mailbox?_drop_ne {r r' : ρ} (h : r' ≠ r) : (ch.drop r).mailbox? r' = ch.mailbox? r' := by
  rw [mailbox?, drop, AList.lookup_erase_ne h]
  rfl

/-- To ask is to take out of one's own mailbox, and out of no other. -/
theorem recv_spec (h : Filled capacity ch) {r : ρ} {mailbox : Mailbox α} (hr : ch.mailbox? r = some mailbox) :
    ∃ ch', ch.recv r = some (mailbox.take.1, ch') ∧ Filled capacity ch' ∧
      ch'.mailbox? r = some mailbox.take.2 ∧ ∀ r', r' ≠ r → ch'.mailbox? r' = ch.mailbox? r' := by
  obtain ⟨next, hnext, rfl⟩ := Option.map_eq_some_iff.mp hr
  obtain ⟨hgiven, hle⟩ := recvAt_eq h (h.next_le r next hnext)
  refine ⟨{ ch with receivers := ch.receivers.insert r (ch.recvAt next).2 }, ?_,
    ⟨h.length, fun r' next' hnext' => ?_⟩, ?_, fun r' hne => ?_⟩
  · rw [recv, hnext, Option.map_some, ← hgiven]
  · by_cases hr' : r' = r
    · rw [hr', AList.lookup_insert, Option.some_inj] at hnext'
      rw [← hnext']
      exact hle
    · rw [AList.lookup_insert_ne hr'] at hnext'
      exact h.next_le r' next' hnext'
  · rw [mailbox?, AList.lookup_insert, Option.map_some, ← hgiven]
    rfl
  · rw [mailbox?, AList.lookup_insert_ne hne]
    rfl

theorem recv_eq_none (r : ρ) : ch.recv r = none ↔ ch.mailbox? r = none := by
  rw [recv, mailbox?, Option.map_eq_none_iff, Option.map_eq_none_iff]

end Channel

end Broadcast
