import Mathlib.Data.List.Perm.Basic
import Mathlib.Data.List.Count

/-!
# What the parties of a list hold

Each of a list of parties holds some things, and one party at a time changes what it holds. How often a thing is
held changes by what the party held before and holds then.
-/

namespace Holdings

variable {α β : Type*} [DecidableEq β] (f : α → List β) {xs : List α} {i : Nat} {x : α}

theorem count_set (h : xs[i]? = some x) (y : α) (b : β) :
    ((xs.set i y).flatMap f).count b + (f x).count b = (xs.flatMap f).count b + (f y).count b := by
  obtain ⟨hlt, rfl⟩ := List.getElem?_eq_some_iff.mp h
  have hafter : ((xs.set i y).flatMap f).Perm (f y ++ (xs.eraseIdx i).flatMap f) :=
    (List.set_perm_cons_eraseIdx hlt y).flatMap_right f
  have hbefore : (f xs[i] ++ (xs.eraseIdx i).flatMap f).Perm (xs.flatMap f) :=
    (List.getElem_cons_eraseIdx_perm hlt).flatMap_right f
  rw [hafter.count_eq, ← hbefore.count_eq, List.count_append, List.count_append]
  omega

theorem count_concat (y : α) (b : β) :
    ((xs ++ [y]).flatMap f).count b = (xs.flatMap f).count b + (f y).count b := by
  rw [List.flatMap_append, List.flatMap_singleton, List.count_append]

/-- Who holds a thing alone is the only one of whom it is found. -/
theorem eq_of_count_le_one {b : β} (hone : (xs.flatMap f).count b ≤ 1) {j : Nat} {y : α} (hx : xs[i]? = some x)
    (hb : b ∈ f x) (hy : xs[j]? = some y) (hb' : b ∈ f y) : i = j := by
  by_contra hne
  obtain ⟨hlt, rfl⟩ := List.getElem?_eq_some_iff.mp hx
  have hothers : y ∈ xs.eraseIdx i := List.mem_eraseIdx_iff_getElem?.mpr ⟨j, fun heq => hne heq.symm, hy⟩
  have hperm : (f xs[i] ++ (xs.eraseIdx i).flatMap f).Perm (xs.flatMap f) :=
    (List.getElem_cons_eraseIdx_perm hlt).flatMap_right f
  rw [← hperm.count_eq, List.count_append] at hone
  have hhere : 0 < (f xs[i]).count b := List.count_pos_iff.mpr hb
  have hthere : 0 < ((xs.eraseIdx i).flatMap f).count b :=
    List.count_pos_iff.mpr (List.mem_flatMap.mpr ⟨y, hothers, hb'⟩)
  omega

/-- What is there once is taken out with all of its occurrences. -/
theorem count_filter_ne {bs : List β} {b : β} (hone : bs.count b = 1) (b' : β) :
    (bs.filter fun c => c ≠ b).count b' + [b].count b' = bs.count b' := by
  by_cases heq : b' = b
  · have hgone : b ∉ bs.filter fun c => c ≠ b := fun hmem => absurd rfl (of_decide_eq_true (List.mem_filter.mp hmem).2)
    rw [heq, List.count_eq_zero.mpr hgone, List.count_singleton_self, hone]
  · have hother : [b].count b' = 0 := List.count_eq_zero.mpr fun hmem => heq (List.mem_singleton.mp hmem)
    rw [List.count_filter (by simpa using heq), hother, Nat.add_zero]

end Holdings
