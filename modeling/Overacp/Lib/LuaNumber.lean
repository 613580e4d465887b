import Mathlib.Data.Nat.Log
import Mathlib.Tactic.Ring

/-!
# Lua numbers

A Lua number is a double, so a natural number is rounded to 53 significant bits when it becomes one.
-/

namespace Lua

/-- The multiple of `2 ^ k` nearest to a number, the even one of two that are as near. -/
def roundTo (k n : Nat) : Nat :=
  let quotient := n / 2 ^ k
  let rest := n % 2 ^ k
  let up := 2 ^ k < 2 * rest ∨ 2 * rest = 2 ^ k ∧ quotient % 2 = 1
  (if up then quotient + 1 else quotient) * 2 ^ k

/-- The number a natural number becomes. -/
def tonumber (n : Nat) : Nat := roundTo (Nat.log2 n - 52) n

/-- Below `2 ^ 53` nothing is rounded. -/
theorem tonumber_of_lt {n : Nat} (hn : n < 2 ^ 53) : tonumber n = n := by
  have hlog : Nat.log2 n - 52 = 0 := by
    by_cases hzero : n = 0
    · subst hzero
      rfl
    · have hlt := (Nat.log2_lt hzero).mpr hn
      omega
  have hrest : n % 1 = 0 := Nat.mod_one n
  simp [tonumber, hlog, roundTo, hrest]

end Lua
