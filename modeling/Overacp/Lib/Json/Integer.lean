import Mathlib.Data.List.TakeWhile
import Overacp.Lib.Json.Value

/-!
# Integers as numbers

An integer is written in decimal, without leading zeros, and that is a number of JSON.
-/

namespace Json

namespace Number

theorem digits_of_all {cs : List Char} (hne : cs ≠ []) (hall : ∀ c ∈ cs, c.isDigit = true) :
    digits cs = true := by
  induction cs with
  | nil => exact absurd rfl hne
  | cons c cs ih =>
      cases cs with
      | nil => exact hall c List.mem_cons_self
      | cons c' cs =>
          rw [digits, hall c List.mem_cons_self, ih (by simp) fun x hx => hall x (List.mem_cons_of_mem _ hx)]
          · rfl
          · simp

theorem isDigit_of_mem_toDigits {n : Nat} {c : Char} (hc : c ∈ Nat.toDigits 10 n) : c.isDigit = true :=
  Nat.isDigit_of_mem_toDigits (by decide) (by decide) hc

/-- A positive number does not begin with a zero. -/
theorem head_toDigits {n : Nat} (hpos : 0 < n) : ∃ c cs, Nat.toDigits 10 n = c :: cs ∧ c ≠ '0' := by
  induction n using Nat.strongRecOn with
  | ind n ih =>
      by_cases hsmall : n < 10
      · have hdigits : ∀ d < 10, 0 < d → Nat.digitChar d ≠ '0' := by decide
        exact ⟨n.digitChar, [], Nat.toDigits_of_lt_base hsmall, hdigits n hsmall hpos⟩
      · obtain ⟨c, cs, hcs, hc⟩ := ih (n / 10) (by omega) (by omega)
        refine ⟨c, cs ++ [(n % 10).digitChar], ?_, hc⟩
        rw [Nat.toDigits_of_base_le (by decide) (by omega), hcs, List.cons_append]

theorem isUnsigned_toDigits (n : Nat) : isUnsigned (Nat.toDigits 10 n) = true := by
  by_cases hzero : n = 0
  · subst hzero
    decide
  · obtain ⟨c, cs, hcs, hc⟩ := head_toDigits (Nat.pos_of_ne_zero hzero)
    have hall : ∀ x ∈ c :: cs, x.isDigit = true := fun x hx => isDigit_of_mem_toDigits (hcs ▸ hx)
    rw [hcs, isUnsigned, List.takeWhile_eq_self_iff.mpr hall, List.dropWhile_eq_nil_iff.mpr hall,
      digits_of_all (List.cons_ne_nil c cs) hall]
    · rfl
    · rintro cs' h
      exact hc (List.cons.inj h).1

theorem isNumber_toDigits (n : Nat) :
    isNumber (Nat.toDigits 10 n) = true ∧ isNumber ('-' :: Nat.toDigits 10 n) = true := by
  have hchars : (Nat.toDigits 10 n).all isNumberChar = true := by
    rw [List.all_eq_true]
    intro c hc
    simp [isNumberChar, isDigit_of_mem_toDigits hc]
  constructor
  · rw [isNumber, hchars, Bool.true_and]
    · exact isUnsigned_toDigits n
    · intro cs hcs
      have hdigit : '-'.isDigit = true := @isDigit_of_mem_toDigits n '-' (hcs ▸ List.mem_cons_self)
      cases hdigit
  · rw [isNumber, List.all_cons, hchars]
    exact isUnsigned_toDigits n

/-- An integer in decimal. -/
def ofInt : Int → Number
  | .ofNat n => ⟨Nat.toDigits 10 n, (isNumber_toDigits n).1⟩
  | .negSucc n => ⟨'-' :: Nat.toDigits 10 (n + 1), (isNumber_toDigits (n + 1)).2⟩

end Number

end Json
