import Mathlib.Data.List.Perm.Basic
import Mathlib.Order.Lattice

/-!
# Maps in the order of their keys

A map as the list of its entries, smallest key first. Where the keys are in order no key has two entries, so an
entry that is removed is the only one that goes.
-/

namespace SortedMap

variable {κ ν : Type*} [LinearOrder κ]

def lookup (k : κ) (m : List (κ × ν)) : Option ν := (m.find? fun e => e.1 = k).map Prod.snd

/-- The entry takes its place, or the place of the one with its key. -/
def insert (k : κ) (v : ν) : List (κ × ν) → List (κ × ν)
  | [] => [(k, v)]
  | e :: m => if k < e.1 then (k, v) :: e :: m else if k = e.1 then (k, v) :: m else e :: insert k v m

def remove (k : κ) (m : List (κ × ν)) : List (κ × ν) := m.filter fun e => e.1 ≠ k

def Sorted (m : List (κ × ν)) : Prop := m.Pairwise fun e e' => e.1 < e'.1

variable {k : κ} {v : ν} {m : List (κ × ν)}

theorem mem_of_lookup (h : lookup k m = some v) : (k, v) ∈ m := by
  obtain ⟨e, hfound, rfl⟩ := Option.map_eq_some_iff.mp h
  have hkey : e.1 = k := by simpa using List.find?_some hfound
  rw [← hkey]
  exact List.mem_of_find?_eq_some hfound

theorem lookup_eq_none_iff : lookup k m = none ↔ ∀ e ∈ m, e.1 ≠ k := by
  simp [lookup]

theorem mem_insert {e : κ × ν} (h : e ∈ insert k v m) : e = (k, v) ∨ e ∈ m := by
  induction m with
  | nil => exact Or.inl (List.mem_singleton.mp h)
  | cons e' m ih =>
      rw [insert] at h
      split_ifs at h
      · exact List.mem_cons.mp h
      · exact (List.mem_cons.mp h).imp_right (List.mem_cons_of_mem e')
      · rcases List.mem_cons.mp h with rfl | h
        · exact Or.inr List.mem_cons_self
        · exact (ih h).imp_right (List.mem_cons_of_mem e')

/-- A new key replaces nothing. -/
theorem insert_perm (h : lookup k m = none) : (insert k v m).Perm ((k, v) :: m) := by
  rw [lookup_eq_none_iff] at h
  induction m with
  | nil => exact .refl _
  | cons e m ih =>
      rw [insert]
      split_ifs with hlt heq
      · exact .refl _
      · exact absurd heq.symm (h e List.mem_cons_self)
      · have hrest := ih fun e' he' => h e' (List.mem_cons_of_mem e he')
        exact (hrest.cons e).trans (.swap (k, v) e m)

namespace Sorted

theorem insert (h : Sorted m) : Sorted (insert k v m) := by
  induction m with
  | nil => exact List.pairwise_singleton _ _
  | cons e m ih =>
      obtain ⟨hhead, htail⟩ := List.pairwise_cons.mp h
      rw [SortedMap.insert]
      split_ifs with hlt heq
      · refine List.pairwise_cons.mpr ⟨fun e' he' => ?_, h⟩
        rcases List.mem_cons.mp he' with rfl | hmem
        · exact hlt
        · exact hlt.trans (hhead e' hmem)
      · refine List.pairwise_cons.mpr ⟨fun e' he' => ?_, htail⟩
        rw [heq]
        exact hhead e' he'
      · refine List.pairwise_cons.mpr ⟨fun e' he' => ?_, ih htail⟩
        rcases mem_insert he' with rfl | hmem
        · exact lt_of_le_of_ne (not_lt.mp hlt) (Ne.symm heq)
        · exact hhead e' hmem

theorem remove (h : Sorted m) : Sorted (remove k m) := List.Pairwise.filter _ h

/-- An entry that is removed is the only one that goes. -/
theorem perm_remove (h : Sorted m) (hmem : (k, v) ∈ m) : m.Perm ((k, v) :: SortedMap.remove k m) := by
  induction m with
  | nil => exact absurd hmem List.not_mem_nil
  | cons e m ih =>
      obtain ⟨hhead, htail⟩ := List.pairwise_cons.mp h
      rcases List.mem_cons.mp hmem with rfl | hmem
      · have hothers : SortedMap.remove k m = m :=
          List.filter_eq_self.mpr fun e' he' => decide_eq_true (hhead e' he').ne'
        rw [SortedMap.remove, List.filter_cons_of_neg (by simp)]
        exact .of_eq (congrArg _ hothers.symm)
      · have hne : e.1 ≠ k := (hhead (k, v) hmem).ne
        rw [SortedMap.remove, List.filter_cons_of_pos (by simpa using hne)]
        exact ((ih htail hmem).cons e).trans (.swap (k, v) e _)

end Sorted

end SortedMap
