import Mathlib.Data.List.Basic
import Mathlib.Tactic.Ring

/-!
# Numbers as hexadecimal digits

A fixed number of digits of a number, most significant first, and the number a list of digits is read as.
-/

namespace Hex

/-- The last `n` digits of a number, in lower case. -/
def digits (n v : Nat) : List Char :=
  (List.range n).map fun i => Nat.digitChar ((v >>> (4 * (n - 1 - i))) % 16)

/-- The value of a digit, in lower or upper case. -/
def digitValue (c : Char) : Option Nat :=
  if '0' ≤ c ∧ c ≤ '9' then some (c.toNat - '0'.toNat)
  else if 'a' ≤ c ∧ c ≤ 'f' then some (c.toNat - 'a'.toNat + 10)
  else if 'A' ≤ c ∧ c ≤ 'F' then some (c.toNat - 'A'.toNat + 10)
  else none

/-- The number that digits read on from `acc` make. -/
def valueFrom (acc : Nat) : List Char → Option Nat
  | [] => some acc
  | c :: cs => (digitValue c).bind fun d => valueFrom (16 * acc + d) cs

def value (cs : List Char) : Option Nat := valueFrom 0 cs

theorem digitValue_of_valueFrom {cs : List Char} {acc v : Nat} (h : valueFrom acc cs = some v) :
    ∀ c ∈ cs, (digitValue c).isSome = true := by
  induction cs generalizing acc with
  | nil => exact fun c hc => absurd hc List.not_mem_nil
  | cons first cs ih =>
      obtain ⟨d, hd, hrest⟩ := Option.bind_eq_some_iff.mp h
      intro c hc
      rcases List.mem_cons.mp hc with rfl | hmem
      · rw [hd, Option.isSome_some]
      · exact ih hrest c hmem

theorem digitValue_digitChar {d : Nat} (hd : d < 16) : digitValue d.digitChar = some d := by
  have hall : ∀ d < 16, digitValue d.digitChar = some d := by decide
  exact hall d hd

@[simp] theorem length_digits (n v : Nat) : (digits n v).length = n := by
  rw [digits, List.length_map, List.length_range]

theorem digits_succ (n v : Nat) : digits (n + 1) v = Nat.digitChar ((v / 16 ^ n) % 16) :: digits n v := by
  rw [digits, List.range_succ_eq_map, List.map_cons, List.map_map]
  congr 1
  · rw [Nat.add_sub_cancel, Nat.sub_zero, Nat.shiftRight_eq_div_pow, Nat.pow_mul]
  · refine List.map_congr_left fun i hi => ?_
    have hlt := List.mem_range.mp hi
    have hsub : n + 1 - 1 - (i + 1) = n - 1 - i := by omega
    rw [Function.comp_apply, hsub]

/-- The digits of a number are read as the number, up to what they leave out of it. -/
theorem valueFrom_digits (n v acc : Nat) : valueFrom acc (digits n v) = some (acc * 16 ^ n + v % 16 ^ n) := by
  induction n generalizing acc with
  | zero =>
      rw [Nat.pow_zero, Nat.mod_one, Nat.mul_one, Nat.add_zero]
      rfl
  | succ n ih =>
      have hdigit := digitValue_digitChar (Nat.mod_lt (v / 16 ^ n) (by decide : 0 < 16))
      rw [digits_succ, valueFrom, hdigit, Option.bind_some, ih, Nat.mod_pow_succ, Nat.pow_succ]
      refine congrArg some ?_
      ring

theorem value_digits {n v : Nat} (hv : v < 16 ^ n) : value (digits n v) = some v := by
  rw [value, valueFrom_digits, Nat.mod_eq_of_lt hv, Nat.zero_mul, Nat.zero_add]

/-- No digit is any other character. -/
theorem notMem_digits {c : Char} (hc : digitValue c = none) (n v : Nat) : c ∉ digits n v := by
  intro hmem
  obtain ⟨i, -, rfl⟩ := List.mem_map.mp hmem
  rw [digitValue_digitChar (Nat.mod_lt _ (by decide))] at hc
  cases hc

end Hex
