import Overacp.Lib.Json.RoundTrip

/-!
# Reading a text as a value

A text is read into a value of maps. What reading makes of a number is a parameter: nothing where the number
is out of range, and then the text is refused as a whole, or the number that is printed for it afterwards.
-/

namespace Json

/-! ### Numbers -/

mutual

/-- The numbers a value holds, in the order of the text. -/
def numbers : Json → List Number
  | number n => [n]
  | array elems => numbersElems elems
  | object members => numbersMembers members
  | _ => []

def numbersElems : List Json → List Number
  | [] => []
  | v :: vs => v.numbers ++ numbersElems vs

def numbersMembers : List (String × Json) → List Number
  | [] => []
  | (_, v) :: ms => v.numbers ++ numbersMembers ms

end

mutual

/-- Put another number in the place of each. -/
def mapNumbers (f : Number → Number) : Json → Json
  | number n => number (f n)
  | array elems => array (mapNumbersElems f elems)
  | object members => object (mapNumbersMembers f members)
  | v => v

def mapNumbersElems (f : Number → Number) : List Json → List Json
  | [] => []
  | v :: vs => v.mapNumbers f :: mapNumbersElems f vs

def mapNumbersMembers (f : Number → Number) : List (String × Json) → List (String × Json)
  | [] => []
  | (k, v) :: ms => (k, v.mapNumbers f) :: mapNumbersMembers f ms

end

theorem mapNumbersMembers_eq (f : Number → Number) (members : List (String × Json)) :
    mapNumbersMembers f members = members.map fun m => (m.1, m.2.mapNumbers f) := by
  induction members with
  | nil => rfl
  | cons m ms ih => rw [mapNumbersMembers, ih, List.map_cons]

mutual

@[simp] theorem nesting_mapNumbers (f : Number → Number) : ∀ v : Json, (v.mapNumbers f).nesting = v.nesting
  | null => rfl
  | bool _ => rfl
  | number _ => rfl
  | string _ => rfl
  | array elems => congrArg (· + 1) (nestingElems_mapNumbers f elems)
  | object members => congrArg (· + 1) (nestingMembers_mapNumbers f members)

theorem nestingElems_mapNumbers (f : Number → Number) :
    ∀ vs : List Json, nestingElems (mapNumbersElems f vs) = nestingElems vs
  | [] => rfl
  | v :: vs => by
      rw [mapNumbersElems, nestingElems, nestingElems, nesting_mapNumbers f v, nestingElems_mapNumbers f vs]

theorem nestingMembers_mapNumbers (f : Number → Number) :
    ∀ ms : List (String × Json), nestingMembers (mapNumbersMembers f ms) = nestingMembers ms
  | [] => rfl
  | (k, v) :: ms => by
      rw [mapNumbersMembers, nestingMembers, nestingMembers, nesting_mapNumbers f v, nestingMembers_mapNumbers f ms]

end

mutual

@[simp] theorem numbers_mapNumbers (f : Number → Number) : ∀ v : Json, (v.mapNumbers f).numbers = v.numbers.map f
  | null => rfl
  | bool _ => rfl
  | number _ => rfl
  | string _ => rfl
  | array elems => numbersElems_mapNumbers f elems
  | object members => numbersMembers_mapNumbers f members

theorem numbersElems_mapNumbers (f : Number → Number) :
    ∀ vs : List Json, numbersElems (mapNumbersElems f vs) = (numbersElems vs).map f
  | [] => rfl
  | v :: vs => by
      rw [mapNumbersElems, numbersElems, numbersElems, numbers_mapNumbers f v, numbersElems_mapNumbers f vs,
        List.map_append]

theorem numbersMembers_mapNumbers (f : Number → Number) :
    ∀ ms : List (String × Json), numbersMembers (mapNumbersMembers f ms) = (numbersMembers ms).map f
  | [] => rfl
  | (k, v) :: ms => by
      rw [mapNumbersMembers, numbersMembers, numbersMembers, numbers_mapNumbers f v, numbersMembers_mapNumbers f ms,
        List.map_append]

end

mutual

/-- A value stays what it is if and only if each of its numbers does. -/
theorem mapNumbers_eq_self_iff {f : Number → Number} : ∀ {v : Json}, v.mapNumbers f = v ↔ ∀ n ∈ v.numbers, f n = n
  | null => iff_of_true rfl fun _ h => absurd h List.not_mem_nil
  | bool _ => iff_of_true rfl fun _ h => absurd h List.not_mem_nil
  | number n => by rw [mapNumbers, numbers, Json.number.injEq, List.forall_mem_singleton]
  | string _ => iff_of_true rfl fun _ h => absurd h List.not_mem_nil
  | array elems => by rw [mapNumbers, numbers, Json.array.injEq, mapNumbersElems_eq_self_iff]
  | object members => by rw [mapNumbers, numbers, Json.object.injEq, mapNumbersMembers_eq_self_iff]

theorem mapNumbersElems_eq_self_iff {f : Number → Number} :
    ∀ {vs : List Json}, mapNumbersElems f vs = vs ↔ ∀ n ∈ numbersElems vs, f n = n
  | [] => iff_of_true rfl fun _ h => absurd h List.not_mem_nil
  | v :: vs => by
      rw [mapNumbersElems, numbersElems, List.cons.injEq, mapNumbers_eq_self_iff, mapNumbersElems_eq_self_iff,
        List.forall_mem_append]

theorem mapNumbersMembers_eq_self_iff {f : Number → Number} :
    ∀ {ms : List (String × Json)}, mapNumbersMembers f ms = ms ↔ ∀ n ∈ numbersMembers ms, f n = n
  | [] => iff_of_true rfl fun _ h => absurd h List.not_mem_nil
  | (k, v) :: ms => by
      rw [mapNumbersMembers, numbersMembers, List.cons.injEq, Prod.mk.injEq, mapNumbers_eq_self_iff,
        mapNumbersMembers_eq_self_iff, List.forall_mem_append]
      exact and_congr_left fun _ => and_iff_right rfl

end

theorem insertMember_mapNumbers (f : Number → Number) (key : String) (value : Json) (map : List (String × Json)) :
    insertMember key (value.mapNumbers f) (mapNumbersMembers f map) =
      mapNumbersMembers f (insertMember key value map) := by
  induction map with
  | nil => rfl
  | cons m ms ih =>
      obtain ⟨k, v⟩ := m
      simp only [mapNumbersMembers, insertMember]
      split_ifs
      · rfl
      · rfl
      · rw [ih, mapNumbersMembers]

mutual

/-- It is all the same whether the numbers are read before an object is a map or after. -/
theorem collapse_mapNumbers (f : Number → Number) : ∀ v : Json, (v.mapNumbers f).collapse = v.collapse.mapNumbers f
  | null => rfl
  | bool _ => rfl
  | number _ => rfl
  | string _ => rfl
  | array elems => congrArg array (collapseElems_mapNumbers f elems)
  | object members => congrArg object (collapseMembers_mapNumbers f members [])

theorem collapseElems_mapNumbers (f : Number → Number) :
    ∀ vs : List Json, collapseElems (mapNumbersElems f vs) = mapNumbersElems f (collapseElems vs)
  | [] => rfl
  | v :: vs => by
      rw [mapNumbersElems, collapseElems, collapseElems, mapNumbersElems, collapse_mapNumbers f v,
        collapseElems_mapNumbers f vs]

theorem collapseMembers_mapNumbers (f : Number → Number) : ∀ ms map : List (String × Json),
    collapseMembers (mapNumbersMembers f ms) (mapNumbersMembers f map) = mapNumbersMembers f (collapseMembers ms map)
  | [], _ => rfl
  | (k, v) :: ms, map => by
      rw [mapNumbersMembers, collapseMembers, collapseMembers, collapse_mapNumbers f v, insertMember_mapNumbers,
        collapseMembers_mapNumbers f ms]

end

theorem get_mapNumbers (f : Number → Number) (value : Json) (key : String) :
    (value.mapNumbers f).get key = (value.get key).map (mapNumbers f) := by
  cases value with
  | object members =>
      rw [mapNumbers, get, get, mapNumbersMembers_eq, List.find?_map, Option.map_map, Option.map_map]
      rfl
  | _ => rfl

/-- The value of a lexeme of digits that fits the width with its sign: what a signed field accepts. -/
def Number.toSigned (n : Number) (width : Nat) : Option Int :=
  match n.lexeme with
  | '-' :: cs =>
      if cs.all Char.isDigit ∧ 0 < natOfDigits cs ∧ natOfDigits cs ≤ 2 ^ (width - 1) then
        some (-(natOfDigits cs : Int))
      else none
  | _ => (n.toUnsigned (width - 1)).map Int.ofNat

def signed (width : Nat) : Json → Option Int
  | number n => n.toSigned width
  | _ => none

/-! ### Reading -/

section

variable (readNumber : Number → Option Number)

/-- No number of the value is out of range. -/
def inRange (v : Json) : Bool := v.numbers.all fun n => (readNumber n).isSome

/-- Each number as it is once it was read. -/
def asRead (v : Json) : Json := v.mapNumbers fun n => (readNumber n).getD n

/-- Read a text, objects as maps. -/
def read (cs : List Char) : Option Json :=
  match parse cs with
  | none => none
  | some v => if v.inRange readNumber then some (v.asRead readNumber).collapse else none

end

variable {readNumber : Number → Option Number}

theorem read_eq_some {cs : List Char} {value : Json} (h : read readNumber cs = some value) :
    ∃ v, parse cs = some v ∧ v.inRange readNumber = true ∧ value = v.collapse.asRead readNumber := by
  unfold read at h
  cases hparse : parse cs with
  | none =>
      rw [hparse] at h
      cases h
  | some v =>
      rw [hparse] at h
      dsimp only at h
      split at h
      · rename_i hrange
        obtain rfl := Option.some.inj h
        exact ⟨v, rfl, hrange, collapse_mapNumbers _ v⟩
      · cases h

@[simp] theorem nesting_asRead (v : Json) : (v.asRead readNumber).nesting = v.nesting := nesting_mapNumbers _ v

theorem get_asRead (value : Json) (key : String) :
    (value.asRead readNumber).get key = (value.get key).map (asRead readNumber) := get_mapNumbers _ value key

@[simp] theorem asStr_asRead (v : Json) : (v.asRead readNumber).asStr = v.asStr := by cases v <;> rfl

theorem asStr_get_asRead (value : Json) (key : String) :
    ((value.asRead readNumber).get key).bind asStr = (value.get key).bind asStr := by
  rw [get_asRead]
  cases value.get key with
  | none => rfl
  | some v => exact asStr_asRead v

/-- What is in range is read as it is written if and only if each of its numbers is. -/
theorem asRead_eq_self_iff {v : Json} (h : v.inRange readNumber = true) :
    v.asRead readNumber = v ↔ ∀ n ∈ v.numbers, readNumber n = some n := by
  rw [asRead, mapNumbers_eq_self_iff]
  refine forall₂_congr fun n hn => ?_
  obtain ⟨m, hm⟩ := Option.isSome_iff_exists.mp (List.all_eq_true.mp h n hn)
  rw [hm, Option.getD_some, Option.some.injEq]

theorem asRead_of_kept {v : Json} (h : ∀ n ∈ v.numbers, readNumber n = some n) : v.asRead readNumber = v :=
  mapNumbers_eq_self_iff.mpr fun n hn => by rw [h n hn, Option.getD_some]

/-- Where every number is read as it is, so is every value. -/
@[simp] theorem asRead_some (v : Json) : v.asRead some = v := asRead_of_kept fun _ _ => rfl

@[simp] theorem inRange_some (v : Json) : v.inRange some = true := List.all_eq_true.mpr fun _ _ => rfl

/-- What was read can be read again, where that is so of each number. -/
theorem inRange_asRead (hagain : ∀ n m, readNumber n = some m → (readNumber m).isSome = true) {v : Json}
    (h : v.inRange readNumber = true) : (v.asRead readNumber).inRange readNumber = true := by
  rw [inRange, asRead, numbers_mapNumbers, List.all_map, List.all_eq_true]
  intro n hn
  obtain ⟨m, hm⟩ := Option.isSome_iff_exists.mp (List.all_eq_true.mp h n hn)
  rw [Function.comp_apply, hm, Option.getD_some]
  exact hagain n m hm

/-! ### Keys of a map -/

theorem collapseElems_eq (elems : List Json) : collapseElems elems = elems.map collapse := by
  induction elems with
  | nil => rfl
  | cons v vs ih => rw [collapseElems, ih, List.map_cons]

theorem key_mem_insertMember {key k : String} {value : Json} {map : List (String × Json)}
    (h : k = key ∨ k ∈ map.map Prod.fst) : k ∈ (insertMember key value map).map Prod.fst := by
  induction map with
  | nil => simpa [insertMember] using h
  | cons m ms ih =>
      obtain ⟨k', v⟩ := m
      rw [insertMember]
      split
      · simpa using h
      · split
        · rename_i heq
          subst heq
          simpa using h
        · simp only [List.map_cons, List.mem_cons] at h ⊢
          rcases h with h | h | h
          · exact .inr (ih (.inl h))
          · exact .inl h
          · exact .inr (ih (.inr h))

/-- No key is lost when an object is read into a map. -/
theorem key_mem_collapseMembers {k : String} {ms map : List (String × Json)}
    (h : k ∈ ms.map Prod.fst ∨ k ∈ map.map Prod.fst) : k ∈ (collapseMembers ms map).map Prod.fst := by
  induction ms generalizing map with
  | nil => simpa [collapseMembers] using h
  | cons m ms ih =>
      obtain ⟨k', v⟩ := m
      rw [collapseMembers]
      apply ih
      simp only [List.map_cons, List.mem_cons] at h
      rcases h with (h | h) | h
      · exact .inr (key_mem_insertMember (.inl h))
      · exact .inl h
      · exact .inr (key_mem_insertMember (.inr h))

/-- A key the map has not is not written in the object. -/
theorem unique_of_get_collapse {members : List (String × Json)} {key : String}
    (h : (object members).collapse.get key = none) : unique members key = some none := by
  rw [collapse, get, Option.map_eq_none_iff, List.find?_eq_none] at h
  have habsent : ∀ m ∈ members, ¬ decide (m.1 = key) = true := by
    intro m hm
    rw [decide_eq_true_eq]
    rintro rfl
    obtain ⟨found, hfound, hkey⟩ := List.mem_map.mp
      (@key_mem_collapseMembers m.1 members [] (.inl (List.mem_map_of_mem hm)))
    exact h found hfound (decide_eq_true hkey)
  rw [unique, List.filter_eq_nil_iff.mpr habsent]

theorem find?_insertMember (key k : String) (value : Json) (map : List (String × Json)) :
    (insertMember key value map).find? (fun m => m.1 = k) =
      if key = k then some (key, value) else map.find? fun m => m.1 = k := by
  induction map with
  | nil =>
      rw [insertMember, List.find?_singleton]
      simp only [decide_eq_true_eq, List.find?_nil]
  | cons m ms ih =>
      obtain ⟨k', v⟩ := m
      rw [insertMember]
      by_cases hkey : key = k
      · rw [if_pos hkey]
        split_ifs with hlt heq
        · exact List.find?_cons_of_pos (by simpa using hkey)
        · exact List.find?_cons_of_pos (by simpa using hkey)
        · rw [List.find?_cons_of_neg (by simpa using fun hk : k' = k => heq (hkey.trans hk.symm)), ih, if_pos hkey]
      · rw [if_neg hkey]
        split_ifs with hlt heq
        · exact List.find?_cons_of_neg (by simpa using hkey)
        · rw [List.find?_cons_of_neg (by simpa using hkey),
            List.find?_cons_of_neg (by simpa using fun hk : k' = k => hkey (heq.trans hk))]
        · by_cases hk : k' = k
          · rw [List.find?_cons_of_pos (by simpa using hk), List.find?_cons_of_pos (by simpa using hk)]
          · rw [List.find?_cons_of_neg (by simpa using hk), List.find?_cons_of_neg (by simpa using hk), ih, if_neg hkey]

/-- What is not written in the rest of an object stays as it was in the map. -/
theorem find?_collapseMembers_of_absent {ms : List (String × Json)} {key : String}
    (h : ms.filter (fun m => m.1 = key) = []) (map : List (String × Json)) :
    (collapseMembers ms map).find? (fun m => m.1 = key) = map.find? fun m => m.1 = key := by
  induction ms generalizing map with
  | nil => rw [collapseMembers]
  | cons m ms ih =>
      obtain ⟨k, v⟩ := m
      by_cases hkey : k = key
      · rw [List.filter_cons_of_pos (by simpa using hkey)] at h
        cases h
      · rw [List.filter_cons_of_neg (by simpa using hkey)] at h
        rw [collapseMembers, ih h, find?_insertMember, if_neg hkey]

/-- A key that is written once has its value in the map. -/
theorem get_collapse_of_unique {members : List (String × Json)} {key : String} {value : Option Json}
    (h : unique members key = some value) : (object members).collapse.get key = value.map collapse := by
  rw [collapse, get]
  suffices hfind : ∀ map : List (String × Json), map.find? (fun m => m.1 = key) = none →
      ((collapseMembers members map).find? fun m => m.1 = key).map Prod.snd = value.map collapse from hfind [] rfl
  induction members with
  | nil =>
      intro map hmap
      obtain rfl := Option.some.inj h
      rw [collapseMembers, hmap]
      rfl
  | cons m ms ih =>
      obtain ⟨k, v⟩ := m
      intro map hmap
      rw [collapseMembers]
      by_cases hkey : k = key
      · rw [unique, List.filter_cons_of_pos (by simpa using hkey)] at h
        cases hrest : ms.filter fun m => m.1 = key with
        | nil =>
            rw [hrest] at h
            obtain rfl := Option.some.inj h
            rw [find?_collapseMembers_of_absent hrest, find?_insertMember, if_pos hkey]
            rfl
        | cons m' ms' =>
            rw [hrest] at h
            cases h
      · rw [unique, List.filter_cons_of_neg (by simpa using hkey)] at h
        refine ih h _ ?_
        rw [find?_insertMember, if_neg hkey, hmap]

/-- An empty text is no value. -/
theorem read_nil : read readNumber [] = none := rfl

/-- What was printed is read back as maps, unless it is nested too deep or a number is out of range. -/
theorem read_print (v : Json) {ws : List Char} (hws : ∀ c ∈ ws, isWs c = true) : read readNumber (v.print ++ ws) =
    if v.nesting ≤ maxNesting ∧ v.inRange readNumber = true then some (v.collapse.asRead readNumber) else none := by
  rw [read, parse_print v hws]
  by_cases hnesting : v.nesting ≤ maxNesting
  · by_cases hrange : v.inRange readNumber = true
    · simp only [hnesting, hrange, and_self, ↓reduceIte, asRead, collapse_mapNumbers]
    · simp only [hnesting, hrange, and_false, ↓reduceIte, Bool.false_eq_true]
  · simp only [hnesting, false_and, ↓reduceIte]

end Json
