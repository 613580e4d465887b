import Mathlib.Data.List.Basic

/-!
# Pieces of a list

What a list is made of that is cut at a separator, freed of what it begins with, or stripped of both ends, and what
texts make that are joined without some of them.
-/

namespace Pieces

variable {α : Type}

/-- An element is the first, the last or one between them. -/
theorem mem_between {first last x : α} {xs : List α} (hfirst : xs.head? = some first)
    (hlast : xs.getLast? = some last) (h : x ∈ xs) : x = first ∨ x = last ∨ x ∈ (xs.drop 1).dropLast := by
  obtain ⟨begun, rfl⟩ := List.getLast?_eq_some_iff.mp hlast
  cases begun with
  | nil => exact .inr (.inl (List.mem_singleton.mp h))
  | cons y inner =>
      rw [List.cons_append, List.head?_cons] at hfirst
      obtain rfl := Option.some.inj hfirst
      rw [List.cons_append, List.drop_one, List.tail_cons, List.dropLast_concat]
      rcases List.mem_cons.mp h with heq | hrest
      · exact .inl heq
      · rcases List.mem_append.mp hrest with hinner | heq
        · exact .inr (.inr hinner)
        · exact .inr (.inl (List.mem_singleton.mp heq))

/-- Pieces that are all there make up at least as much as their number, and no more only if each is one. -/
theorem length_eq_one_of_flatMap {β : Type} {f : α → List β} {xs : List α} (hne : ∀ x ∈ xs, f x ≠ [])
    (h : (xs.flatMap f).length = xs.length) : ∀ x ∈ xs, (f x).length = 1 := by
  have hle : ∀ ys : List α, (∀ y ∈ ys, f y ≠ []) → ys.length ≤ (ys.flatMap f).length := by
    intro ys hys
    induction ys with
    | nil => exact Nat.le_refl _
    | cons y ys ih =>
        have hone := List.length_pos_iff.mpr (hys y List.mem_cons_self)
        have hrest := ih fun z hz => hys z (List.mem_cons_of_mem _ hz)
        rw [List.flatMap_cons, List.length_append, List.length_cons]
        omega
  induction xs with
  | nil => exact nofun
  | cons x xs ih =>
      have hone := List.length_pos_iff.mpr (hne x List.mem_cons_self)
      have hrest := hle xs fun z hz => hne z (List.mem_cons_of_mem _ hz)
      rw [List.flatMap_cons, List.length_append, List.length_cons] at h
      intro y hy
      rcases List.mem_cons.mp hy with rfl | hy
      · omega
      · exact ih (fun z hz => hne z (List.mem_cons_of_mem _ hz)) (by omega) y hy

/-! ### Joined texts -/

theorem join_kept_length_le (keep : α → Bool) (f : α → String) (xs : List α) :
    (String.join (xs.map fun x => if keep x then f x else "")).length ≤ (String.join (xs.map f)).length := by
  induction xs with
  | nil => exact Nat.le_refl _
  | cons x xs ih =>
      rw [List.map_cons, List.map_cons, String.join_cons, String.join_cons, String.length_append,
        String.length_append]
      cases keep x with
      | true => exact Nat.add_le_add_left ih _
      | false => exact Nat.le_trans (Nat.le_of_eq (Nat.zero_add _)) (Nat.le_trans ih (Nat.le_add_left _ _))

/-- Texts that are joined without some of them are the same only if those were empty. -/
theorem join_kept_iff (keep : α → Bool) (f : α → String) (xs : List α) :
    String.join (xs.map fun x => if keep x then f x else "") = String.join (xs.map f) ↔
      ∀ x ∈ xs, f x ≠ "" → keep x = true := by
  induction xs with
  | nil => exact ⟨fun _ x hx => absurd hx List.not_mem_nil, fun _ => rfl⟩
  | cons x xs ih =>
      rw [List.map_cons, List.map_cons, String.join_cons, String.join_cons, List.forall_mem_cons, ← ih]
      cases hkeep : keep x with
      | true =>
          rw [if_pos rfl, String.append_right_inj]
          exact ⟨fun h => ⟨fun _ => rfl, h⟩, fun h => h.2⟩
      | false =>
          rw [if_neg Bool.false_ne_true, String.empty_append]
          constructor
          · intro h
            have hle := join_kept_length_le keep f xs
            have hlength := congrArg String.length h
            rw [String.length_append] at hlength
            have hempty : f x = "" := String.length_eq_zero_iff.mp (by omega)
            rw [hempty, String.empty_append] at h
            exact ⟨fun hne => absurd hempty hne, h⟩
          · rintro ⟨hempty, h⟩
            have hempty : f x = "" := by
              by_contra hne
              exact absurd (hempty hne) Bool.false_ne_true
            rw [hempty, String.empty_append, h]

theorem eq_empty_of_join {xs : List String} (h : String.join xs = "") : ∀ x ∈ xs, x = "" := by
  induction xs with
  | nil => exact fun x hx => absurd hx List.not_mem_nil
  | cons x xs ih =>
      rw [String.join_cons, String.append_eq_empty_iff] at h
      exact List.forall_mem_cons.mpr ⟨h.1, ih h.2⟩

/-! ### Prefixes and separators -/

variable [DecidableEq α]

theorem isPrefixOf?_append (xs ys : List α) : xs.isPrefixOf? (xs ++ ys) = some ys := by
  induction xs with
  | nil => rfl
  | cons x xs ih =>
      rw [List.cons_append, List.isPrefixOf?, if_pos (beq_self_eq_true x), ih]

/-- An element is the separator or in a piece. -/
theorem eq_or_mem_of_mem {sep x : α} {xs : List α} (h : x ∈ xs) :
    x = sep ∨ x ∈ (xs.splitOn sep).flatten := by
  induction xs with
  | nil => cases h
  | cons first xs ih =>
      rw [List.splitOn_cons_eq_if_modifyHead]
      split
      · rename_i heq
        rcases List.mem_cons.mp h with rfl | hmem
        · exact .inl (beq_iff_eq.mp heq)
        · exact ih hmem
      · cases hsplit : xs.splitOn sep with
        | nil => exact absurd hsplit (List.splitOn_ne_nil sep xs)
        | cons piece pieces =>
            rw [List.modifyHead_cons, List.flatten_cons, List.cons_append]
            rw [hsplit, List.flatten_cons] at ih
            rcases List.mem_cons.mp h with rfl | hmem
            · exact .inr List.mem_cons_self
            · exact (ih hmem).imp_right (List.mem_cons_of_mem first)

/-- What is before the first separator and what is behind it. -/
theorem splitOn_eq_cons {sep : α} {xs piece : List α} {pieces : List (List α)}
    (h : xs.splitOn sep = piece :: pieces) (hmore : pieces ≠ []) :
    ∃ rest, xs = piece ++ sep :: rest ∧ rest.splitOn sep = pieces := by
  induction xs generalizing piece with
  | nil =>
      cases h
      exact absurd rfl hmore
  | cons x xs ih =>
      rw [List.splitOn_cons_eq_if_modifyHead] at h
      split at h
      · rename_i heq
        obtain ⟨rfl, rfl⟩ := List.cons_eq_cons.mp h
        exact ⟨xs, by rw [beq_iff_eq.mp heq, List.nil_append], rfl⟩
      · cases hrest : xs.splitOn sep with
        | nil => exact absurd hrest (List.splitOn_ne_nil sep xs)
        | cons first others =>
            rw [hrest, List.modifyHead_cons] at h
            obtain ⟨rfl, rfl⟩ := List.cons_eq_cons.mp h
            obtain ⟨rest, rfl, hothers⟩ := ih hrest
            exact ⟨rest, rfl, hothers⟩

end Pieces
