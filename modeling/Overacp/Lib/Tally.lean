import Mathlib.Data.List.Basic

/-!
# Sums along a sequence of events

What an event adds to a sum may depend on everything that came before it, so the sum over a part of a
sequence is taken after what precedes that part.
-/

variable {ε : Type}

/-- The sum over the events that follow those before. -/
def tally (worth : List ε → ε → Nat) : List ε → List ε → Nat
  | _, [] => 0
  | before, e :: es => worth before e + tally worth (before ++ [e]) es

namespace Tally

variable {worth worth' : List ε → ε → Nat} {before events : List ε}

@[simp] theorem tally_nil : tally worth before [] = 0 := rfl

@[simp] theorem tally_singleton (e : ε) : tally worth before [e] = worth before e := rfl

theorem tally_append (before es es' : List ε) :
    tally worth before (es ++ es') = tally worth before es + tally worth (before ++ es) es' := by
  induction es generalizing before with
  | nil => simp
  | cons e es ih =>
      rw [List.cons_append, tally, tally, ih, List.append_assoc, Nat.add_assoc]
      rfl

/-- One event's worth is part of the sum. -/
theorem le_tally (before es : List ε) (e : ε) (es' : List ε) :
    worth (before ++ es) e ≤ tally worth before (es ++ e :: es') := by
  rw [tally_append, tally]
  omega

theorem tally_eq_zero (h : ∀ e ∈ events, ∀ before, worth before e = 0) :
    tally worth before events = 0 := by
  induction events generalizing before with
  | nil => rfl
  | cons e es ih =>
      rw [tally, h e (List.mem_cons_self ..), ih fun e' he' => h e' (List.mem_cons_of_mem _ he')]

theorem tally_add :
    tally (fun before e => worth before e + worth' before e) before events =
      tally worth before events + tally worth' before events := by
  induction events generalizing before with
  | nil => rfl
  | cons e es ih =>
      rw [tally, tally, tally, ih]
      omega

end Tally
