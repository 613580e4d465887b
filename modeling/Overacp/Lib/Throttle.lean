import Mathlib.Data.List.Induction
import Overacp.Lib.Along

/-!
# One acceptance in a window

Calls come with a key and a reading of the clock. The limiter of this file forgets nothing: a call is rejected if and
only if one with its key was accepted less than the window before. Acceptances of one key are then a window apart, and
what becomes of the calls of one key is what would become of them alone.
-/

namespace Throttle

structure Call (κ : Type) where
  key : κ
  now : Nat
  deriving DecidableEq, Repr

structure Verdict (κ : Type) where
  call : Call κ
  accepted : Bool
  deriving DecidableEq, Repr

variable {κ : Type} [DecidableEq κ]

def Verdict.accepts (v : Verdict κ) (key : κ) : Bool := v.accepted && decide (v.call.key = key)

/-- The time of the last call with a key that was accepted. -/
def lastAccepted (verdicts : List (Verdict κ)) (key : κ) : Option Nat :=
  ((verdicts.filter fun v => v.accepts key).getLast?).map fun v => v.call.now

def allows (window : Nat) (verdicts : List (Verdict κ)) (call : Call κ) : Bool :=
  match lastAccepted verdicts call.key with
  | some last => !decide (call.now - last < window)
  | none => true

def judge (window : Nat) (verdicts : List (Verdict κ)) (call : Call κ) : List (Verdict κ) :=
  verdicts ++ [⟨call, allows window verdicts call⟩]

def verdicts (window : Nat) (calls : List (Call κ)) : List (Verdict κ) := calls.foldl (judge window) []

theorem verdicts_concat (window : Nat) (calls : List (Call κ)) (call : Call κ) :
    verdicts window (calls ++ [call]) = judge window (verdicts window calls) call := by
  rw [verdicts, List.foldl_append]
  rfl

theorem verdicts_calls (window : Nat) (calls : List (Call κ)) :
    (verdicts window calls).map Verdict.call = calls := by
  induction calls using List.reverseRecOn with
  | nil => rfl
  | append_singleton calls call ih => rw [verdicts_concat, judge, List.map_append, ih, List.map_singleton]

/-! ### The last acceptance -/

theorem accepts_iff {v : Verdict κ} {key : κ} : v.accepts key = true ↔ v.accepted = true ∧ v.call.key = key := by
  rw [Verdict.accepts, Bool.and_eq_true, decide_eq_true_eq]

@[simp] theorem lastAccepted_nil (key : κ) : lastAccepted [] key = none := rfl

theorem lastAccepted_concat (verdicts : List (Verdict κ)) (v : Verdict κ) (key : κ) :
    lastAccepted (verdicts ++ [v]) key = if v.accepts key then some v.call.now else lastAccepted verdicts key := by
  rw [lastAccepted, List.filter_append]
  by_cases haccepts : v.accepts key = true
  · rw [if_pos haccepts, List.filter_singleton, haccepts, cond_true, List.getLast?_concat, Option.map_some]
  · rw [if_neg haccepts, List.filter_singleton, Bool.of_not_eq_true haccepts, cond_false, List.append_nil,
      lastAccepted]

theorem exists_of_lastAccepted {verdicts : List (Verdict κ)} {key : κ} {last : Nat}
    (h : lastAccepted verdicts key = some last) :
    ∃ v ∈ verdicts, v.accepted = true ∧ v.call.key = key ∧ v.call.now = last := by
  obtain ⟨v, hv, rfl⟩ := Option.map_eq_some_iff.mp h
  obtain ⟨hmem, haccepts⟩ := List.mem_filter.mp (List.mem_of_getLast? hv)
  obtain ⟨haccepted, hkey⟩ := accepts_iff.mp haccepts
  exact ⟨v, hmem, haccepted, hkey, rfl⟩

/-- Where the clock does not go back, no acceptance is later than the last. -/
theorem le_lastAccepted {verdicts : List (Verdict κ)}
    (hclock : verdicts.Pairwise fun earlier later => earlier.call.now ≤ later.call.now) {v : Verdict κ}
    (hv : v ∈ verdicts) (haccepted : v.accepted = true) :
    ∃ last, lastAccepted verdicts v.call.key = some last ∧ v.call.now ≤ last := by
  induction verdicts using List.reverseRecOn with
  | nil => exact absurd hv List.not_mem_nil
  | append_singleton verdicts w ih =>
      obtain ⟨hbefore, -, hw⟩ := List.pairwise_append.mp hclock
      rw [lastAccepted_concat]
      by_cases haccepts : w.accepts v.call.key = true
      · rw [if_pos haccepts]
        refine ⟨w.call.now, rfl, ?_⟩
        rcases List.mem_append.mp hv with hv | hv
        · exact hw v hv w List.mem_cons_self
        · rw [List.mem_singleton.mp hv]
      · rw [if_neg haccepts]
        rcases List.mem_append.mp hv with hv | hv
        · exact ih hbefore hv
        · rw [List.mem_singleton.mp hv] at haccepted haccepts
          exact absurd (accepts_iff.mpr ⟨haccepted, rfl⟩) haccepts

theorem lastAccepted_filter (verdicts : List (Verdict κ)) (key : κ) :
    lastAccepted (verdicts.filter fun v => decide (v.call.key = key)) key = lastAccepted verdicts key := by
  rw [lastAccepted, lastAccepted, List.filter_filter]
  refine congrArg (fun found : List (Verdict κ) => found.getLast?.map fun v => v.call.now) (List.filter_congr ?_)
  intro v _
  rw [Verdict.accepts, Bool.and_assoc, Bool.and_self]

/-! ### What the limiter does -/

/-- A rejection has its reason, and an acceptance leaves a window. -/
structure Spaced (window : Nat) (verdicts : List (Verdict κ)) : Prop where
  apart : verdicts.Pairwise fun earlier later => earlier.accepted = true → later.accepted = true →
    earlier.call.key = later.call.key → earlier.call.now + window ≤ later.call.now
  rejected : Along (fun before (v : Verdict κ) => v.accepted = false → ∃ earlier ∈ before, earlier.accepted = true ∧
    earlier.call.key = v.call.key ∧ v.call.now < earlier.call.now + window) verdicts

theorem verdicts_clock {calls : List (Call κ)}
    (hclock : calls.Pairwise fun earlier later => earlier.now ≤ later.now) (window : Nat) :
    (verdicts window calls).Pairwise fun earlier later => earlier.call.now ≤ later.call.now := by
  rw [← verdicts_calls window calls] at hclock
  exact (List.pairwise_map (R := fun earlier later : Call κ => earlier.now ≤ later.now)).mp hclock

theorem judge_spaced {window : Nat} {verdicts : List (Verdict κ)} {call : Call κ} (h : Spaced window verdicts)
    (hclock : verdicts.Pairwise fun earlier later => earlier.call.now ≤ later.call.now)
    (hnow : ∀ v ∈ verdicts, v.call.now ≤ call.now) : Spaced window (judge window verdicts call) := by
  constructor
  · refine List.pairwise_append.mpr ⟨h.apart, List.pairwise_singleton _ _, ?_⟩
    intro earlier hearlier later hlater hfirst hsecond hkey
    obtain rfl := List.mem_singleton.mp hlater
    obtain ⟨last, hlast, hle⟩ := le_lastAccepted hclock hearlier hfirst
    obtain ⟨v, hv, -, -, rfl⟩ := exists_of_lastAccepted hlast
    have hnow := hnow v hv
    rw [hkey] at hlast
    simp only [allows, hlast, Bool.not_eq_true', decide_eq_false_iff_not] at hsecond
    show earlier.call.now + window ≤ call.now
    omega
  · refine Along.concat_iff.mpr ⟨h.rejected, ?_⟩
    intro hrejected
    cases hlast : lastAccepted verdicts call.key with
    | none =>
        simp only [allows, hlast] at hrejected
        cases hrejected
    | some last =>
        obtain ⟨v, hv, haccepted, hkey, rfl⟩ := exists_of_lastAccepted hlast
        simp only [allows, hlast, Bool.not_eq_false', decide_eq_true_eq] at hrejected
        refine ⟨v, hv, haccepted, hkey, ?_⟩
        show call.now < v.call.now + window
        omega

theorem verdicts_spaced {calls : List (Call κ)}
    (hclock : calls.Pairwise fun earlier later => earlier.now ≤ later.now) (window : Nat) :
    Spaced window (verdicts window calls) := by
  induction calls using List.reverseRecOn with
  | nil => exact ⟨.nil, Along.nil⟩
  | append_singleton calls call ih =>
      obtain ⟨hbefore, -, hcall⟩ := List.pairwise_append.mp hclock
      rw [verdicts_concat]
      refine judge_spaced (ih hbefore) (verdicts_clock hbefore window) ?_
      intro v hv
      have hmem : v.call ∈ calls := by
        rw [← verdicts_calls window calls]
        exact List.mem_map_of_mem hv
      exact hcall v.call hmem call List.mem_cons_self

/-- The calls of one key fare as they would alone. -/
theorem verdicts_filter (window : Nat) (calls : List (Call κ)) (key : κ) :
    (verdicts window calls).filter (fun v => decide (v.call.key = key)) =
      verdicts window (calls.filter fun call => decide (call.key = key)) := by
  induction calls using List.reverseRecOn with
  | nil => rfl
  | append_singleton calls call ih =>
      rw [verdicts_concat, judge, List.filter_append, List.filter_append, List.filter_singleton,
        List.filter_singleton]
      by_cases hkey : call.key = key
      · have hallows : allows window (verdicts window calls) call =
            allows window (verdicts window (calls.filter fun call => decide (call.key = key))) call := by
          rw [allows, allows, ← ih, hkey, lastAccepted_filter]
        rw [decide_eq_true hkey, cond_true, cond_true, verdicts_concat, judge, ih, hallows]
      · rw [decide_eq_false hkey, cond_false, cond_false, List.append_nil, List.append_nil, ih]

end Throttle
