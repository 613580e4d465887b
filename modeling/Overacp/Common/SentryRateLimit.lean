import Mathlib.Data.List.AList
import Overacp.Lib.Throttle

/-!
# The rate limit on events for Sentry

The map from keys to the times they were last let through, which every call first prunes. It is compared with the
limiter that forgets nothing: what is pruned is too old to stand in the way of a call, so long as the window is not
longer than what is kept.
-/

namespace Overacp

namespace SentryRateLimit

open Throttle

variable {κ : Type} [DecidableEq κ]

/-- The times are readings of the monotonic clock, in nanoseconds. -/
abbrev LastSeen (κ : Type) := AList fun _ : κ => Nat

def retain (map : LastSeen κ) (keep : Nat → Bool) : LastSeen κ where
  entries := map.entries.filter fun entry => keep entry.2
  nodupKeys := map.nodupKeys.sublist List.filter_sublist

/-- The subtractions saturate. -/
def shouldSendInner (map : LastSeen κ) (key : κ) (now window pruneAfter : Nat) : Bool × LastSeen κ :=
  let kept := retain map fun last => decide (now - last < pruneAfter)
  match kept.lookup key with
  | some last => if now - last < window then (false, kept) else (true, kept.insert key now)
  | none => (true, kept.insert key now)

/-- The map, with the calls there have been and their answers. -/
structure State (κ : Type) where
  map : LastSeen κ
  verdicts : List (Verdict κ)

def step (window pruneAfter : Nat) (s : State κ) (call : Call κ) : State κ :=
  let answer := shouldSendInner s.map call.key call.now window pruneAfter
  ⟨answer.2, s.verdicts ++ [⟨call, answer.1⟩]⟩

def run (window pruneAfter : Nat) (calls : List (Call κ)) : State κ := calls.foldl (step window pruneAfter) ⟨∅, []⟩

theorem run_concat (window pruneAfter : Nat) (calls : List (Call κ)) (call : Call κ) :
    run window pruneAfter (calls ++ [call]) = step window pruneAfter (run window pruneAfter calls) call := by
  rw [run, List.foldl_append]
  rfl

/-! ### One call -/

theorem lookup_retain {map : LastSeen κ} {keep : Nat → Bool} {key : κ} {last : Nat} :
    (retain map keep).lookup key = some last ↔ map.lookup key = some last ∧ keep last = true := by
  rw [← Option.mem_def, ← Option.mem_def, AList.mem_lookup_iff, AList.mem_lookup_iff]
  exact List.mem_filter

/-- The map has the keys that were accepted last less than a time ago, each with when that was. -/
def Holds (map : LastSeen κ) (verdicts : List (Verdict κ)) (pruneAfter now : Nat) : Prop :=
  ∀ key last, map.lookup key = some last ↔ lastAccepted verdicts key = some last ∧ now - last < pruneAfter

/-- What is left of such a map later on. -/
theorem Holds.retain {map : LastSeen κ} {verdicts : List (Verdict κ)} {pruneAfter before now : Nat}
    (h : Holds map verdicts pruneAfter before) (hle : before ≤ now) :
    Holds (retain map fun last => decide (now - last < pruneAfter)) verdicts pruneAfter now := by
  intro key last
  rw [lookup_retain, h key last, decide_eq_true_eq, and_assoc]
  refine and_congr_right fun _ => and_iff_right_of_imp ?_
  intro hlater
  omega

theorem Holds.reject {map : LastSeen κ} {verdicts : List (Verdict κ)} {pruneAfter now : Nat} {call : Call κ}
    (h : Holds map verdicts pruneAfter now) : Holds map (verdicts ++ [⟨call, false⟩]) pruneAfter now := by
  intro key last
  rw [lastAccepted_concat, Verdict.accepts, Bool.false_and, if_neg Bool.false_ne_true]
  exact h key last

theorem Holds.accept {map : LastSeen κ} {verdicts : List (Verdict κ)} {pruneAfter : Nat} {call : Call κ}
    (h : Holds map verdicts pruneAfter call.now) (hprune : 0 < pruneAfter) :
    Holds (map.insert call.key call.now) (verdicts ++ [⟨call, true⟩]) pruneAfter call.now := by
  intro key last
  rw [lastAccepted_concat]
  by_cases hkey : call.key = key
  · subst hkey
    rw [AList.lookup_insert, if_pos (accepts_iff.mpr ⟨rfl, rfl⟩), Option.some.injEq]
    refine (and_iff_left_of_imp ?_).symm
    intro hlast
    omega
  · rw [AList.lookup_insert_ne (Ne.symm hkey), if_neg fun haccepts => hkey (accepts_iff.mp haccepts).2]
    exact h key last

/-- A call whose prune leaves what is recent enough is answered as by the whole history. -/
theorem shouldSendInner_spec {map : LastSeen κ} {verdicts : List (Verdict κ)} {window pruneAfter : Nat}
    {call : Call κ}
    (hkept : Holds (retain map fun last => decide (call.now - last < pruneAfter)) verdicts pruneAfter call.now)
    (hwindow : window ≤ pruneAfter) (hprune : 0 < pruneAfter) :
    (shouldSendInner map call.key call.now window pruneAfter).1 = allows window verdicts call ∧
      Holds (shouldSendInner map call.key call.now window pruneAfter).2 (judge window verdicts call) pruneAfter
        call.now := by
  rw [shouldSendInner, judge]
  cases hlookup : (retain map fun last => decide (call.now - last < pruneAfter)).lookup call.key with
  | some last =>
      have hlast := ((hkept call.key last).mp hlookup).1
      by_cases hrecent : call.now - last < window
      · have hallows : allows window verdicts call = false := by
          simp only [allows, hlast, hrecent, decide_true, Bool.not_true]
        simp only [if_pos hrecent, hallows, true_and]
        exact hkept.reject
      · have hallows : allows window verdicts call = true := by
          simp only [allows, hlast, hrecent, decide_false, Bool.not_false]
        simp only [if_neg hrecent, hallows, true_and]
        exact hkept.accept hprune
  | none =>
      -- The key was never accepted, or so long ago that the window has passed.
      have hallows : allows window verdicts call = true := by
        cases hlast : lastAccepted verdicts call.key with
        | none => simp only [allows, hlast]
        | some last =>
            have hold : ¬call.now - last < pruneAfter := by
              intro hrecent
              rw [(hkept call.key last).mpr ⟨hlast, hrecent⟩] at hlookup
              cases hlookup
            simp only [allows, hlast, Bool.not_eq_true', decide_eq_false_iff_not]
            omega
      simp only [hallows, true_and]
      exact hkept.accept hprune

/-! ### Every sequence of calls -/

/-- The limiter with the map decides as the one that forgets nothing, and whenever it next prunes, its map has what
the other still goes by. -/
theorem run_refines {window pruneAfter : Nat} (hwindow : window ≤ pruneAfter) (hprune : 0 < pruneAfter)
    {calls : List (Call κ)} (hclock : calls.Pairwise fun earlier later => earlier.now ≤ later.now) :
    (run window pruneAfter calls).verdicts = verdicts window calls ∧
      ∀ now, (∀ call ∈ calls, call.now ≤ now) →
        Holds (retain (run window pruneAfter calls).map fun last => decide (now - last < pruneAfter))
          (verdicts window calls) pruneAfter now := by
  induction calls using List.reverseRecOn with
  | nil =>
      refine ⟨rfl, fun now _ key last => ?_⟩
      show (retain ∅ _).lookup key = some last ↔ lastAccepted [] key = some last ∧ now - last < pruneAfter
      rw [lookup_retain, AList.lookup_empty, lastAccepted_nil]
      simp only [reduceCtorEq, false_and]
  | append_singleton calls call ih =>
      obtain ⟨hbefore, -, hcall⟩ := List.pairwise_append.mp hclock
      obtain ⟨hverdicts, hkept⟩ := ih hbefore
      obtain ⟨hanswer, hmap⟩ := shouldSendInner_spec
        (hkept call.now fun earlier hearlier => hcall earlier hearlier call List.mem_cons_self) hwindow hprune
      rw [run_concat, verdicts_concat]
      constructor
      · rw [step, hanswer, hverdicts, judge]
      · intro now hnow
        exact hmap.retain (hnow call (List.mem_append_right _ List.mem_cons_self))

/-- After every call the map has exactly the keys that were accepted last less than the given time before it. -/
theorem run_map {window pruneAfter : Nat} (hwindow : window ≤ pruneAfter) (hprune : 0 < pruneAfter)
    {calls : List (Call κ)} {call : Call κ}
    (hclock : (calls ++ [call]).Pairwise fun earlier later => earlier.now ≤ later.now) :
    Holds (run window pruneAfter (calls ++ [call])).map (run window pruneAfter (calls ++ [call])).verdicts pruneAfter
      call.now := by
  obtain ⟨hbefore, -, hcall⟩ := List.pairwise_append.mp hclock
  have hkept := (run_refines hwindow hprune hbefore).2 call.now
    fun earlier hearlier => hcall earlier hearlier call List.mem_cons_self
  rw [(run_refines hwindow hprune hclock).1, run_concat, verdicts_concat]
  exact (shouldSendInner_spec hkept hwindow hprune).2

/-- What is to hold of the calls and of the map. -/
structure Limited (window pruneAfter : Nat) (calls : List (Call κ)) : Prop where
  answered : (run window pruneAfter calls).verdicts.map Verdict.call = calls
  apart : (run window pruneAfter calls).verdicts.Pairwise fun earlier later =>
    earlier.accepted = true → later.accepted = true → earlier.call.key = later.call.key →
      earlier.call.now + window ≤ later.call.now
  rejected : Along (fun before (v : Verdict κ) => v.accepted = false → ∃ earlier ∈ before, earlier.accepted = true ∧
    earlier.call.key = v.call.key ∧ v.call.now < earlier.call.now + window) (run window pruneAfter calls).verdicts
  alone : ∀ key, (run window pruneAfter calls).verdicts.filter (fun v => decide (v.call.key = key)) =
    (run window pruneAfter (calls.filter fun call => decide (call.key = key))).verdicts
  map : Along (fun before call => ∀ key, key ∈ (run window pruneAfter (before ++ [call])).map ↔
    ∃ last, lastAccepted (run window pruneAfter (before ++ [call])).verdicts key = some last ∧
      call.now - last < pruneAfter) calls

theorem run_limited {window pruneAfter : Nat} (hwindow : window ≤ pruneAfter) (hprune : 0 < pruneAfter)
    {calls : List (Call κ)} (hclock : calls.Pairwise fun earlier later => earlier.now ≤ later.now) :
    Limited window pruneAfter calls := by
  have hverdicts := (run_refines hwindow hprune hclock).1
  have hspaced := verdicts_spaced hclock window
  refine ⟨?_, ?_, ?_, ?_, ?_⟩
  · rw [hverdicts]
    exact verdicts_calls window calls
  · rw [hverdicts]
    exact hspaced.apart
  · rw [hverdicts]
    exact hspaced.rejected
  · intro key
    rw [hverdicts, (run_refines hwindow hprune (hclock.filter _)).1]
    exact verdicts_filter window calls key
  · intro n call hcall key
    have hsplit : calls.take (n + 1) = calls.take n ++ [call] := by
      rw [List.take_add_one, hcall, Option.toList_some]
    have hprefix : (calls.take n ++ [call]).Pairwise fun earlier later => earlier.now ≤ later.now := by
      rw [← hsplit]
      exact hclock.sublist (List.take_sublist _ _)
    rw [← AList.lookup_isSome, Option.isSome_iff_exists]
    exact exists_congr fun last => run_map hwindow hprune hprefix key last

theorem run_limited_minute : ∃ calls : List (Call String),
    calls = [⟨"k", 0⟩, ⟨"k", 59⟩, ⟨"l", 59⟩, ⟨"k", 60⟩, ⟨"l", 700⟩] ∧ Limited 60 600 calls ∧
      (run 60 600 calls).verdicts.map Verdict.accepted = [true, false, true, true, true] :=
  ⟨_, rfl, run_limited (by decide) (by decide) (by decide), by decide +kernel⟩

end SentryRateLimit

end Overacp
