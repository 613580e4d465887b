import Mathlib.Order.Basic

/-!
# Trying again

An attempt is made again and again, with a pause after each that fails, until one succeeds. If the attempts that
begin late enough succeed, and neither an attempt nor a pause takes too long, one of them does before long.
-/

namespace Retry

variable {σ ε α : Type}

/-- What an attempt comes to, and how long it takes. -/
abbrev Attempt (ε α : Type) := Nat → Except ε α × Nat

/-- The result, and when the attempt that had it was begun; `none` if the fuel is used up. -/
def run (attempt : Attempt ε α) (pause : σ → Nat) (next : σ → σ) : Nat → σ → Nat → Option (α × Nat)
  | 0, _, _ => none
  | fuel + 1, count, now =>
      match attempt now with
      | (.ok a, _) => some (a, now)
      | (.error _, took) => run attempt pause next fuel (next count) (now + took + pause count)

variable {attempt : Attempt ε α} {pause : σ → Nat} {next : σ → σ}

/-- What is returned is what an attempt has come to. -/
theorem run_returns {fuel begun now : Nat} {count : σ} {a : α}
    (h : run attempt pause next fuel count now = some (a, begun)) :
    now ≤ begun ∧ ∃ took, attempt begun = (.ok a, took) := by
  induction fuel generalizing count now with
  | zero => cases h
  | succ fuel ih =>
      rw [run] at h
      split at h
      · rename_i hattempt
        cases h
        exact ⟨Nat.le_refl _, _, hattempt⟩
      · rename_i took hattempt
        obtain ⟨hle, hresult⟩ := ih h
        exact ⟨by omega, hresult⟩

/-- Attempts that begin between two times succeed, and no time passes without one for long. -/
theorem run_succeeds {start limit longest most fuel now : Nat} {count : σ}
    (hpause : ∀ count, 0 < pause count ∧ pause count ≤ most) (htook : ∀ now, (attempt now).2 ≤ longest)
    (hok : ∀ now, start ≤ now → now ≤ limit → ∃ a, (attempt now).1 = .ok a)
    (hlimit : max now (start + longest + most) ≤ limit) (hfuel : start - now < fuel) :
    ∃ a begun, run attempt pause next fuel count now = some (a, begun) ∧
      begun ≤ max now (start + longest + most) := by
  induction fuel generalizing count now with
  | zero => omega
  | succ fuel ih =>
      rw [run]
      split
      · rename_i a took hattempt
        exact ⟨a, now, rfl, Nat.le_max_left _ _⟩
      · rename_i e took hattempt
        have hbefore : now < start := by
          by_contra hlate
          obtain ⟨a, ha⟩ := hok now (by omega) (by omega)
          rw [hattempt] at ha
          cases ha
        have hlong : took ≤ longest := by
          have hlong := htook now
          rwa [hattempt] at hlong
        obtain ⟨hpos, hle⟩ := hpause count
        obtain ⟨a, begun, hrun, hbegun⟩ := @ih (now + took + pause count) (next count) (by omega) (by omega)
        exact ⟨a, begun, hrun, by omega⟩

end Retry
