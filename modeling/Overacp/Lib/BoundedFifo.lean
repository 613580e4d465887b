import Mathlib.Data.List.Basic
import Mathlib.Logic.Function.Basic

/-!
# Bounded queues, one for each key

Calls on a map of first-in first-out queues, each of which holds at most `capacity` values, and what their
answers say of one another: what a call is answered is determined by what was accepted before it and not taken
out since.
-/

namespace Fifo

/-! ### Machines that answer -/

section Machine

variable {σ τ ι κ ο : Type*}

/-- What a machine answers to one input after another. -/
def answers (step : σ → ι → ο × σ) : σ → List ι → List ο
  | _, [] => []
  | s, i :: is => (step s i).1 :: answers step (step s i).2 is

/-- Machines that start related, answer alike and stay related give the same answers. -/
theorem answers_eq {step : σ → ι → ο × σ} {step' : τ → κ → ο × τ} {input : ι → κ} {R : σ → τ → Prop}
    (hstep : ∀ s t i, R s t → (step s i).1 = (step' t (input i)).1 ∧ R (step s i).2 (step' t (input i)).2)
    {s : σ} {t : τ} (h : R s t) (is : List ι) : answers step s is = answers step' t (is.map input) := by
  induction is generalizing s t with
  | nil => rfl
  | cons i is ih =>
      obtain ⟨hanswer, hrelated⟩ := hstep s t i h
      rw [answers, List.map_cons, answers, hanswer, ih hrelated]

end Machine

/-! ### Calls and answers -/

inductive Call (κ α : Type*) where
  | push (key : κ) (x : α)
  | drain (key : κ)
  | len (key : κ)
  | isEmpty (key : κ)
  deriving DecidableEq, Repr

/-- A push that is refused is answered with an error. -/
inductive Answer (ε α : Type*) where
  | pushed (result : Except ε Unit)
  | drained (xs : List α)
  | len (n : Nat)
  | isEmpty (b : Bool)
  deriving Repr

variable {κ α ε : Type*} [DecidableEq κ]

/-- What an answered call leaves in the queues: an accepted value comes last, and a drained queue is empty. -/
def after (queues : κ → List α) : Call κ α × Answer ε α → κ → List α
  | (.push key x, .pushed (.ok ())) => Function.update queues key (queues key ++ [x])
  | (.drain key, _) => Function.update queues key []
  | _ => queues

/-- For each key, the values accepted since its last drain, in the order of their pushes. -/
def accepted (history : List (Call κ α × Answer ε α)) : κ → List α := history.foldl after fun _ => []

/-- What a call is answered when the queues hold this. -/
def answer (capacity : Nat) (full : κ → ε) (queues : κ → List α) : Call κ α → Answer ε α
  | .push key _ => .pushed (if (queues key).length = capacity then .error (full key) else .ok ())
  | .drain key => .drained (queues key)
  | .len key => .len (queues key).length
  | .isEmpty key => .isEmpty (queues key).isEmpty

/-- A map of bounded queues, as a machine. -/
def step (capacity : Nat) (full : κ → ε) (queues : κ → List α) (call : Call κ α) : Answer ε α × (κ → List α) :=
  (answer capacity full queues call, after queues (call, answer capacity full queues call))

theorem step_push_full {capacity : Nat} (full : κ → ε) {queues : κ → List α} {key : κ} (x : α)
    (h : (queues key).length = capacity) :
    step capacity full queues (.push key x) = (.pushed (.error (full key)), queues) := by
  simp only [step, answer, if_pos h]
  rfl

theorem step_push_room {capacity : Nat} (full : κ → ε) {queues : κ → List α} {key : κ} (x : α)
    (h : (queues key).length ≠ capacity) :
    step capacity full queues (.push key x) =
      (.pushed (.ok ()), Function.update queues key (queues key ++ [x])) := by
  simp only [step, answer, if_neg h]
  rfl

/-- Every call is answered by what was accepted before it, and never more than `capacity` values were
accepted and not yet drained. -/
def Lawful (capacity : Nat) (full : κ → ε) (history : List (Call κ α × Answer ε α)) : Prop :=
  ∀ before called later, history = before ++ called :: later →
    called.2 = answer capacity full (accepted before) called.1 ∧ ∀ key, (accepted before key).length ≤ capacity

theorem length_update_le {capacity : Nat} {queues : κ → List α} (h : ∀ key, (queues key).length ≤ capacity)
    {other : κ} {xs : List α} (hxs : xs.length ≤ capacity) (key : κ) :
    (Function.update queues other xs key).length ≤ capacity := by
  by_cases hkey : key = other
  · rw [hkey, Function.update_self]
    exact hxs
  · rw [Function.update_of_ne hkey]
    exact h key

/-- No call takes a queue over the capacity. -/
theorem length_step_le {capacity : Nat} (full : κ → ε) {queues : κ → List α}
    (h : ∀ key, (queues key).length ≤ capacity) (call : Call κ α) (key : κ) :
    ((step capacity full queues call).2 key).length ≤ capacity := by
  cases call with
  | push other x =>
      have hother := h other
      by_cases hfull : (queues other).length = capacity
      · rw [step_push_full full x hfull]
        exact h key
      · rw [step_push_room full x hfull]
        refine length_update_le h ?_ key
        rw [List.length_append, List.length_singleton]
        omega
  | drain other => exact length_update_le h (Nat.zero_le _) key
  | len | isEmpty => exact h key

/-- What the queues hold is what the history says was accepted, at every call of a run. -/
theorem lawful_from {capacity : Nat} {full : κ → ε} (past : List (Call κ α × Answer ε α))
    (h : ∀ key, (accepted past key).length ≤ capacity) (calls : List (Call κ α)) :
    ∀ before called later, calls.zip (answers (step capacity full) (accepted past) calls) = before ++ called :: later →
      called.2 = answer capacity full (accepted (past ++ before)) called.1 ∧
        ∀ key, (accepted (past ++ before) key).length ≤ capacity := by
  induction calls generalizing past with
  | nil =>
      intro before called later hsplit
      cases before <;> cases hsplit
  | cons call calls ih =>
      intro before called later hsplit
      rw [answers, List.zip_cons_cons] at hsplit
      cases before with
      | nil =>
          obtain ⟨rfl, -⟩ := List.cons.inj hsplit
          rw [List.append_nil]
          exact ⟨rfl, h⟩
      | cons first before =>
          obtain ⟨hfirst, hrest⟩ := List.cons.inj hsplit
          have hnext : accepted (past ++ [first]) = (step capacity full (accepted past) call).2 := by
            rw [← hfirst, accepted, List.foldl_append]
            rfl
          rw [← hnext] at hrest
          have hbound : ∀ key, (accepted (past ++ [first]) key).length ≤ capacity := by
            rw [hnext]
            exact length_step_le full h call
          have hlater := ih (past ++ [first]) hbound before called later hrest
          rwa [List.append_assoc, List.singleton_append] at hlater

/-- The answers of a map of bounded queues are lawful. -/
theorem lawful_answers (capacity : Nat) (full : κ → ε) (calls : List (Call κ α)) :
    Lawful capacity full (calls.zip (answers (step capacity full) (fun _ => []) calls)) :=
  lawful_from [] (fun _ => Nat.zero_le _) calls

end Fifo
