import Mathlib.Data.List.Infix
import Mathlib.Data.List.TakeWhile

/-!
# Replacing in a text

Every occurrence of one text is replaced by another, from the left. What no occurrence begins in stays as it is.
-/

namespace Replace

variable {α : Type} [DecidableEq α]

/-- What is left of an occurrence is skipped. -/
def replaceFrom (old new : List α) : Nat → List α → List α
  | _, [] => []
  | skip + 1, _ :: xs => replaceFrom old new skip xs
  | 0, x :: xs =>
      if old <+: x :: xs then new ++ replaceFrom old new (old.length - 1) xs else x :: replaceFrom old new 0 xs

/-- The text that is replaced must not be empty. -/
def replace (old new xs : List α) : List α := replaceFrom old new 0 xs

variable {old new : List α}

theorem replaceFrom_eq (skip : Nat) (xs : List α) : replaceFrom old new skip xs = replace old new (xs.drop skip) := by
  induction xs generalizing skip with
  | nil =>
      rw [List.drop_nil]
      cases skip with
      | zero => rfl
      | succ skip => rfl
  | cons x xs ih =>
      cases skip with
      | zero => rfl
      | succ skip => exact ih skip

theorem replace_cons_of_not {x : α} {xs : List α} (h : ¬ old <+: x :: xs) :
    replace old new (x :: xs) = x :: replace old new xs := if_neg h

theorem replace_append_self (hold : old ≠ []) (xs : List α) :
    replace old new (old ++ xs) = new ++ replace old new xs := by
  obtain ⟨x, old', rfl⟩ := List.exists_cons_of_ne_nil hold
  have hprefix : x :: old' <+: x :: (old' ++ xs) := List.prefix_append (x :: old') xs
  rw [List.cons_append, replace, replaceFrom, if_pos hprefix, replaceFrom_eq, List.length_cons, Nat.add_sub_cancel,
    List.drop_left]

/-- No occurrence begins in what stands in front. -/
theorem replace_append {xs ys : List α}
    (h : ∀ before after, xs = before ++ after → after ≠ [] → ¬ old <+: after ++ ys) :
    replace old new (xs ++ ys) = xs ++ replace old new ys := by
  induction xs with
  | nil => rfl
  | cons x xs ih =>
      have hhere : ¬ old <+: x :: (xs ++ ys) := h [] (x :: xs) rfl (List.cons_ne_nil x xs)
      rw [List.cons_append, replace_cons_of_not hhere, List.cons_append]
      congr 1
      exact ih fun before after heq => h (x :: before) after (by rw [heq, List.cons_append])

/-- What is replaced begins with an element that does not stand in front. -/
theorem replace_append_of_notMem {x : α} {xs ys : List α} (hold : old.head? = some x) (hxs : x ∉ xs) :
    replace old new (xs ++ ys) = xs ++ replace old new ys := by
  refine replace_append fun before after heq hne hprefix => hxs ?_
  obtain ⟨y, after', rfl⟩ := List.exists_cons_of_ne_nil hne
  obtain ⟨old', rfl⟩ := List.head?_eq_some_iff.mp hold
  obtain ⟨rfl, -⟩ := List.cons_prefix_cons.mp hprefix
  rw [heq]
  exact List.mem_append_right before List.mem_cons_self

/-- What stands in front has no separator, the rest begins with one, and in front of it in what is replaced there is
another element. -/
theorem replace_append_of_apart {sep : α} {xs ys : List α} (hold : sep ∈ old) (hxs : sep ∉ xs)
    (hys : ∀ y ∈ ys.head?, y = sep) (hlast : xs.getLast? ≠ (old.takeWhile (· ≠ sep)).getLast?) :
    replace old new (xs ++ ys) = xs ++ replace old new ys := by
  refine replace_append fun before after heq hne hprefix => hlast ?_
  obtain ⟨rest, hrest⟩ := hprefix
  have hafter : ∀ x ∈ after, decide (x ≠ sep) = true := by
    intro x hx
    refine decide_eq_true ?_
    rintro rfl
    exact hxs (heq ▸ List.mem_append_right before hx)
  rcases List.append_eq_append_iff.mp hrest with ⟨more, rfl, -⟩ | ⟨more, rfl, hmore⟩
  · exact absurd (hafter sep (List.mem_append_left more hold)) (by simp)
  · rcases List.mem_append.mp hold with hmem | hmem
    · exact absurd (hafter sep hmem) (by simp)
    · obtain ⟨y, more', rfl⟩ := List.exists_cons_of_ne_nil (List.ne_nil_of_mem hmem)
      obtain rfl : y = sep := hys y (by rw [hmore]; rfl)
      rw [List.takeWhile_append_of_pos hafter, List.takeWhile_cons_of_neg (by simp), List.append_nil, heq,
        List.getLast?_append_of_ne_nil before hne]

theorem mem_of_mem_replaceFrom {x : α} {skip : Nat} {xs : List α} (h : x ∈ replaceFrom old new skip xs) :
    x ∈ new ∨ x ∈ xs := by
  induction xs generalizing skip with
  | nil =>
      cases skip with
      | zero => cases h
      | succ skip => cases h
  | cons y xs ih =>
      cases skip with
      | succ skip => exact (ih h).imp_right (List.mem_cons_of_mem y)
      | zero =>
          rw [replaceFrom] at h
          split at h
          · rcases List.mem_append.mp h with hnew | hrest
            · exact .inl hnew
            · exact (ih hrest).imp_right (List.mem_cons_of_mem y)
          · rcases List.mem_cons.mp h with rfl | hrest
            · exact .inr List.mem_cons_self
            · exact (ih hrest).imp_right (List.mem_cons_of_mem y)

end Replace
