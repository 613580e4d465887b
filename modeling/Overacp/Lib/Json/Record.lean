import Mathlib.Data.List.Forall2
import Overacp.Lib.Json.Read

/-!
# Records with optional fields

A record is written as an object without the fields that are absent, and read back field by field.
What each field reads is what was written, as long as no key is used twice.
-/

namespace Json

/-- The members of a record, those without a value left out. -/
def present (fs : List (String × Option Json)) : List (String × Json) :=
  fs.filterMap fun f => f.2.map fun value => (f.1, value)

def record (fs : List (String × Option Json)) : Json := object (present fs)

theorem present_cons (f : String × Option Json) (fs : List (String × Option Json)) :
    present (f :: fs) = (f.2.map fun value => (f.1, value)).toList ++ present fs := by
  unfold present
  cases hvalue : f.2 with
  | none => rw [List.filterMap_cons_none (by rw [hvalue]; rfl)]; rfl
  | some value => rw [List.filterMap_cons_some (by rw [hvalue]; rfl)]; rfl

theorem filter_present_of_notMem {fs : List (String × Option Json)} {key : String}
    (hkey : key ∉ fs.map Prod.fst) : (present fs).filter (fun m => m.1 = key) = [] := by
  rw [List.filter_eq_nil_iff]
  intro m hm heq
  obtain ⟨f, hf, hmap⟩ := List.mem_filterMap.mp hm
  obtain ⟨value, -, rfl⟩ := Option.map_eq_some_iff.mp hmap
  obtain rfl := of_decide_eq_true heq
  exact hkey (List.mem_map_of_mem hf)

theorem filter_present {fs : List (String × Option Json)} (hnodup : (fs.map Prod.fst).Nodup) {key : String}
    {value : Option Json} (hmem : (key, value) ∈ fs) :
    (present fs).filter (fun m => m.1 = key) = (value.map fun v => (key, v)).toList := by
  induction fs with
  | nil => cases hmem
  | cons f fs ih =>
      rw [List.map_cons, List.nodup_cons] at hnodup
      rw [present_cons, List.filter_append]
      rcases List.mem_cons.mp hmem with rfl | hrest
      · rw [filter_present_of_notMem hnodup.1, List.append_nil]
        cases value with
        | none => rfl
        | some v => simp
      · have hne : f.1 ≠ key := by
          intro heq
          exact hnodup.1 (heq ▸ List.mem_map_of_mem hrest)
        rw [ih hnodup.2 hrest]
        cases f.2 with
        | none => rfl
        | some v => simp [hne]

/-- A key of a record reads what it was written with. -/
theorem unique_present {fs : List (String × Option Json)} (hnodup : (fs.map Prod.fst).Nodup) {key : String}
    {value : Option Json} (hmem : (key, value) ∈ fs) : unique (present fs) key = some value := by
  unfold unique
  rw [filter_present hnodup hmem]
  cases value <;> rfl

theorem fields_record {fs : List (String × Option Json)} (hnodup : (fs.map Prod.fst).Nodup)
    {spec : List Field} {values : List (Option Json)}
    (hspec : List.Forall₂ (fun f value => (f.key, value) ∈ fs) spec values) :
    fields spec (record fs) = some values := by
  show spec.mapM (fun f => unique (present fs) f.key) = some values
  induction hspec with
  | nil => rfl
  | cons hfield _ ih =>
      rw [List.mapM_cons, unique_present hnodup hfield, ih]
      rfl

/-! ### Lists and optional values -/

theorem listOf_map {α β : Type} {encode : α → Json} {decode : Json → Option β} {f : α → β} {xs : List α}
    (h : ∀ x ∈ xs, decode (encode x) = some (f x)) :
    listOf decode (array (xs.map encode)) = some (xs.map f) := by
  show (xs.map encode).mapM decode = some (xs.map f)
  induction xs with
  | nil => rfl
  | cons x xs ih =>
      have hrest := ih fun y hy => h y (List.mem_cons_of_mem _ hy)
      rw [List.map_cons, List.mapM_cons, h x List.mem_cons_self, hrest]
      rfl

theorem string_ne_null (s : String) : string s ≠ null := fun h => Json.noConfusion h

theorem array_ne_null (elems : List Json) : array elems ≠ null := fun h => Json.noConfusion h

theorem optional_map {α β : Type} {encode : α → Json} {decode : Json → Option β} {f : α → β} {x : Option α}
    (h : ∀ a ∈ x, encode a ≠ null ∧ decode (encode a) = some (f a)) :
    optional decode (x.map encode) = some (x.map f) := by
  cases x with
  | none => rfl
  | some a =>
      obtain ⟨hnull, hdecode⟩ := h a rfl
      rw [Option.map_some, optional, hdecode]
      · rfl
      · exact hnull

/-! ### What a record was read from -/

theorem forall₂_of_mapM {α β : Type} {f : α → Option β} {xs : List α} {ys : List β} (h : xs.mapM f = some ys) :
    List.Forall₂ (fun x y => f x = some y) xs ys := by
  induction xs generalizing ys with
  | nil =>
      rw [List.mapM_nil] at h
      obtain rfl := Option.some.inj h
      exact .nil
  | cons x xs ih =>
      simp only [List.mapM_cons, Option.bind_eq_bind, Option.bind_eq_some_iff, Option.pure_def,
        Option.some.injEq] at h
      obtain ⟨y, hy, ys', hys, rfl⟩ := h
      exact .cons hy (ih hys)

/-- The fields of an object are the values its keys have. -/
theorem unique_of_fields {spec : List Field} {members : List (String × Json)} {values : List (Option Json)}
    (h : fields spec (object members) = some values) :
    List.Forall₂ (fun f value => unique members f.key = some value) spec values := forall₂_of_mapM h

theorem get_of_unique {members : List (String × Json)} {key : String} {value : Option Json}
    (h : unique members key = some value) : (object members).get key = value := by
  rw [get, ← List.head?_filter]
  unfold unique at h
  split at h
  · rename_i hfilter
    obtain rfl := Option.some.inj h
    rw [hfilter]
    rfl
  · rename_i m hfilter
    obtain rfl := Option.some.inj h
    rw [hfilter]
    rfl
  · cases h

/-- A text stays what it is in a map, and so does what is no text. -/
theorem optional_asStr_collapse {value : Option Json} {text : Option String} (h : optional asStr value = some text) :
    (value.map collapse).bind asStr = text := by
  cases value with
  | none => exact Option.some.inj h
  | some v =>
      cases v with
      | null => exact Option.some.inj h
      | string s => exact Option.some.inj h
      | bool b => cases h
      | number n => cases h
      | array elems => cases h
      | object members => cases h

end Json
