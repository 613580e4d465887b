import Mathlib.Data.List.Basic

/-!
# Slots of a list

Elements are told apart by where they stand in a list that only grows. What stands in a slot after one was set, or
after one was added, is new or was there before.
-/

namespace Slots

variable {α : Type*} {xs : List α} {x y : α} {n t : Nat}

theorem of_getElem?_set (h : (xs.set t x)[n]? = some y) : n = t ∧ y = x ∨ n ≠ t ∧ xs[n]? = some y := by
  by_cases hn : n = t
  · left
    have hlt : n < xs.length := by
      have hlt' := (List.getElem?_eq_some_iff.mp h).1
      rwa [List.length_set] at hlt'
    rw [hn, List.getElem?_set_self (hn ▸ hlt)] at h
    exact ⟨hn, (Option.some.inj h).symm⟩
  · right
    rw [List.getElem?_set_ne (Ne.symm hn)] at h
    exact ⟨hn, h⟩

theorem of_getElem?_concat (h : (xs ++ [x])[n]? = some y) :
    n = xs.length ∧ y = x ∨ n < xs.length ∧ xs[n]? = some y := by
  by_cases hn : n < xs.length
  · right
    rw [List.getElem?_append_left hn] at h
    exact ⟨hn, h⟩
  · left
    have hlt := (List.getElem?_eq_some_iff.mp h).1
    rw [List.length_append, List.length_singleton] at hlt
    obtain rfl : n = xs.length := by omega
    rw [List.getElem?_concat_length] at h
    exact ⟨rfl, (Option.some.inj h).symm⟩

/-- What stands in a slot stands there still when one is added. -/
theorem getElem?_concat_of_some (h : xs[n]? = some y) : (xs ++ [x])[n]? = some y := by
  rw [List.getElem?_append_left (List.getElem?_eq_some_iff.mp h).1]
  exact h

end Slots
