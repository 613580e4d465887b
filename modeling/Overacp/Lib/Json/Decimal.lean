import Mathlib.Tactic.Ring
import Overacp.Lib.Json.Integer
import Overacp.Lib.Json.Read

/-!
# Integers written and read back

An integer that was written in decimal is read back where the width allows it.
-/

namespace Json

namespace Number

theorem natOfDigits_toDigits (n : Nat) : natOfDigits (Nat.toDigits 10 n) = n :=
  Nat.ofDigitChars_ten_toDigits

theorem all_isDigit_toDigits (n : Nat) : (Nat.toDigits 10 n).all Char.isDigit = true :=
  List.all_eq_true.mpr fun _ hc => isDigit_of_mem_toDigits hc

theorem toUnsigned_ofInt {width n : Nat} (h : n < 2 ^ width) : (ofInt n).toUnsigned width = some n := by
  show (if (Nat.toDigits 10 n).all Char.isDigit ∧ natOfDigits (Nat.toDigits 10 n) < 2 ^ width then
    some (natOfDigits (Nat.toDigits 10 n)) else none) = some n
  rw [natOfDigits_toDigits, if_pos ⟨all_isDigit_toDigits n, h⟩]

theorem toSigned_ofInt {width : Nat} {i : Int} (hlow : -2 ^ (width - 1) ≤ i) (hhigh : i < 2 ^ (width - 1)) :
    (ofInt i).toSigned width = some i := by
  cases i with
  | ofNat n =>
      have hn : n < 2 ^ (width - 1) := by
        rw [Int.ofNat_eq_natCast] at hhigh
        exact_mod_cast hhigh
      have hhead : ∀ cs, Nat.toDigits 10 n ≠ '-' :: cs := by
        intro cs hcs
        have hdigit := @isDigit_of_mem_toDigits n '-' (hcs ▸ List.mem_cons_self)
        exact absurd hdigit (by decide)
      rw [Int.ofNat_eq_natCast, toSigned]
      split
      · rename_i cs hcs
        exact absurd hcs (hhead cs)
      · rw [toUnsigned_ofInt hn]
        rfl
  | negSucc n =>
      have hn : n + 1 ≤ 2 ^ (width - 1) := by
        rw [Int.negSucc_eq] at hlow
        have hneg := Int.neg_le_neg hlow
        rw [Int.neg_neg, Int.neg_neg] at hneg
        exact_mod_cast hneg
      show (if (Nat.toDigits 10 (n + 1)).all Char.isDigit ∧ 0 < natOfDigits (Nat.toDigits 10 (n + 1)) ∧
        natOfDigits (Nat.toDigits 10 (n + 1)) ≤ 2 ^ (width - 1) then
          some (-(natOfDigits (Nat.toDigits 10 (n + 1)) : Int)) else none) = some (Int.negSucc n)
      rw [natOfDigits_toDigits, if_pos ⟨all_isDigit_toDigits _, Nat.succ_pos n, hn⟩]
      rfl

end Number

end Json
