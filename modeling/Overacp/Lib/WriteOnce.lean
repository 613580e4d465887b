import Mathlib.Data.List.Basic

/-!
# Stores that are written once

A store keeps what was read for a key the first time that succeeded. What it has for a key it has for good, so
whoever asked before and whoever asks later are told the same.
-/

namespace WriteOnce

variable {κ ν ε : Type*} [BEq κ]

/-- What the store has for the key, and else what is read now, which the store keeps. -/
def load (store : List (κ × ν)) (k : κ) (read : Except ε ν) : Except ε ν × List (κ × ν) :=
  match store.lookup k with
  | some v => (.ok v, store)
  | none =>
      match read with
      | .error e => (.error e, store)
      | .ok v => (.ok v, store ++ [(k, v)])

/-- The other store has all that this one has. -/
def Extends (store store' : List (κ × ν)) : Prop := ∀ k v, store.lookup k = some v → store'.lookup k = some v

variable {store store' store'' : List (κ × ν)} {k : κ} {v : ν} {read : Except ε ν}

theorem Extends.refl (store : List (κ × ν)) : Extends store store := fun _ _ h => h

theorem Extends.trans (h : Extends store store') (h' : Extends store' store'') : Extends store store'' :=
  fun k v hk => h' k v (h k v hk)

theorem lookup_concat_of_some (h : store.lookup k = some v) (e : κ × ν) : (store ++ [e]).lookup k = some v := by
  rw [List.lookup_append, h]
  rfl

theorem lookup_concat_self [LawfulBEq κ] (h : store.lookup k = none) : (store ++ [(k, v)]).lookup k = some v := by
  rw [List.lookup_append, h, Option.none_or]
  exact List.lookup_cons_self

theorem load_of_some (h : store.lookup k = some v) : load store k read = (.ok v, store) := by
  unfold load
  rw [h]

theorem load_of_none (h : store.lookup k = none) (hread : read = .ok v) :
    load store k read = (.ok v, store ++ [(k, v)]) := by
  unfold load
  rw [h, hread]

theorem load_error_iff {e : ε} : (load store k read).1 = .error e ↔ store.lookup k = none ∧ read = .error e := by
  unfold load
  cases store.lookup k <;> cases read <;> simp

theorem load_extends (store : List (κ × ν)) (k : κ) (read : Except ε ν) : Extends store (load store k read).2 := by
  intro k' v' h
  unfold load
  split
  · exact h
  · split
    · exact h
    · exact lookup_concat_of_some h _

/-- What was answered is what the store has from then on. -/
theorem lookup_of_load [LawfulBEq κ] (h : (load store k read).1 = .ok v) : (load store k read).2.lookup k = some v := by
  unfold load at h ⊢
  cases hstore : store.lookup k with
  | some v' =>
      rw [hstore] at h
      exact hstore.trans (congrArg some (Except.ok.inj h))
  | none =>
      rw [hstore] at h
      cases read with
      | error e => cases h
      | ok v' =>
          obtain rfl := Except.ok.inj h
          exact lookup_concat_self hstore

/-- A new entry is of the key that was asked for, and what was read. -/
theorem lookup_load [LawfulBEq κ] {k' : κ} (h : (load store k read).2.lookup k' = some v) :
    store.lookup k' = some v ∨ store.lookup k = none ∧ k' = k ∧ read = .ok v := by
  unfold load at h
  split at h
  · exact Or.inl h
  · rename_i hnone
    split at h
    · exact Or.inl h
    · rw [List.lookup_append] at h
      cases hold : store.lookup k' with
      | some v' =>
          rw [hold] at h
          exact Or.inl h
      | none =>
          rw [hold, Option.none_or, List.lookup_cons, List.lookup_nil] at h
          split at h
          · rename_i hkey
            exact Or.inr ⟨hnone, eq_of_beq hkey, congrArg Except.ok (Option.some.inj h)⟩
          · cases h

end WriteOnce
