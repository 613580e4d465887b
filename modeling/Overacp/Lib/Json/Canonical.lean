import Mathlib.Data.String.Basic
import Overacp.Lib.Json.Read

/-!
# Values that were read

What is read from a text has its objects in the order of their keys, each key once, and is left as it is
when it is read into maps again. It is nested no deeper than the parser allows, and it holds no number
that the text did not hold.
-/

namespace Json

/-! ### Members of a map -/

/-- A member of a map was a member of the object it was read from. -/
theorem mem_collapseMembers {ms map : List (String × Json)} {m : String × Json}
    (hm : m ∈ collapseMembers ms map) : m ∈ map ∨ ∃ m' ∈ ms, m = (m'.1, m'.2.collapse) := by
  induction ms generalizing map with
  | nil => exact .inl hm
  | cons m' ms ih =>
      obtain ⟨k, v⟩ := m'
      rcases ih hm with hmap | ⟨m'', hm'', heq⟩
      · rcases mem_insertMember hmap with rfl | hold
        · exact .inr ⟨(k, v), List.mem_cons_self, rfl⟩
        · exact .inl hold
      · exact .inr ⟨m'', List.mem_cons_of_mem _ hm'', heq⟩

theorem mem_of_get {value v : Json} {key : String} (h : value.get key = some v) :
    ∃ members, value = object members ∧ (key, v) ∈ members := by
  cases value with
  | object members =>
      obtain ⟨⟨k, v'⟩, hfind, rfl⟩ := Option.map_eq_some_iff.mp h
      have hkey : k = key := by simpa using List.find?_some hfind
      exact ⟨members, rfl, hkey ▸ List.mem_of_find?_eq_some hfind⟩
  | _ => cases h

/-! ### Order -/

mutual

/-- Every object has its members in the order of their keys, and no key twice. -/
def Canonical : Json → Prop
  | array elems => CanonicalElems elems
  | object members => (members.Pairwise fun m m' => m.1 < m'.1) ∧ CanonicalMembers members
  | _ => True

def CanonicalElems : List Json → Prop
  | [] => True
  | v :: vs => v.Canonical ∧ CanonicalElems vs

def CanonicalMembers : List (String × Json) → Prop
  | [] => True
  | (_, v) :: ms => v.Canonical ∧ CanonicalMembers ms

end

theorem canonicalMembers_iff {ms : List (String × Json)} :
    CanonicalMembers ms ↔ ∀ m ∈ ms, m.2.Canonical := by
  induction ms with
  | nil => simp [CanonicalMembers]
  | cons m ms ih =>
      obtain ⟨k, v⟩ := m
      simp only [CanonicalMembers, List.forall_mem_cons, ih]

theorem canonicalElems_iff {vs : List Json} : CanonicalElems vs ↔ ∀ v ∈ vs, v.Canonical := by
  induction vs with
  | nil => simp [CanonicalElems]
  | cons v vs ih => simp only [CanonicalElems, List.forall_mem_cons, ih]

theorem ordered_insertMember {key : String} {value : Json} {map : List (String × Json)}
    (h : map.Pairwise fun m m' => m.1 < m'.1) :
    (insertMember key value map).Pairwise fun m m' => m.1 < m'.1 := by
  induction map with
  | nil => exact List.pairwise_singleton _ _
  | cons m ms ih =>
      obtain ⟨k, v⟩ := m
      have hcons := List.pairwise_cons.mp h
      rw [insertMember]
      split
      · rename_i hlt
        refine List.pairwise_cons.mpr ⟨?_, h⟩
        intro m hm
        rcases List.mem_cons.mp hm with rfl | hrest
        · exact hlt
        · exact hlt.trans (hcons.1 m hrest)
      · rename_i hnotLess
        split
        · rename_i heq
          exact List.pairwise_cons.mpr ⟨heq ▸ hcons.1, hcons.2⟩
        · rename_i hne
          refine List.pairwise_cons.mpr ⟨?_, ih hcons.2⟩
          intro m hm
          rcases mem_insertMember hm with rfl | hrest
          · exact lt_of_le_of_ne (not_lt.mp hnotLess) (Ne.symm hne)
          · exact hcons.1 m hrest

theorem ordered_collapseMembers {ms map : List (String × Json)}
    (h : map.Pairwise fun m m' => m.1 < m'.1) :
    (collapseMembers ms map).Pairwise fun m m' => m.1 < m'.1 := by
  induction ms generalizing map with
  | nil => exact h
  | cons m ms ih => exact ih (ordered_insertMember h)

mutual

theorem canonical_collapse : ∀ v : Json, v.collapse.Canonical
  | null => trivial
  | bool _ => trivial
  | number _ => trivial
  | string _ => trivial
  | array elems => canonicalElems_collapse elems
  | object members => by
      refine ⟨ordered_collapseMembers List.Pairwise.nil, canonicalMembers_iff.mpr ?_⟩
      intro m hm
      rcases mem_collapseMembers hm with hnone | ⟨m', hm', rfl⟩
      · cases hnone
      · exact canonicalMember_collapse members m' hm'

theorem canonicalElems_collapse : ∀ vs : List Json, CanonicalElems (collapseElems vs)
  | [] => trivial
  | v :: vs => ⟨canonical_collapse v, canonicalElems_collapse vs⟩

theorem canonicalMember_collapse : ∀ (ms : List (String × Json)), ∀ m ∈ ms, m.2.collapse.Canonical
  | [], _, hm => by cases hm
  | (_, v) :: ms, m, hm => by
      rcases List.mem_cons.mp hm with rfl | hrest
      · exact canonical_collapse v
      · exact canonicalMember_collapse ms m hrest

end

theorem Canonical.get {value v : Json} {key : String} (h : value.Canonical) (hget : value.get key = some v) :
    v.Canonical := by
  obtain ⟨members, rfl, hmem⟩ := mem_of_get hget
  exact canonicalMembers_iff.mp h.2 _ hmem

/-- A key behind all others goes to the end. -/
theorem insertMember_of_last {key : String} {value : Json} {map : List (String × Json)}
    (h : ∀ m ∈ map, m.1 < key) : insertMember key value map = map ++ [(key, value)] := by
  induction map with
  | nil => rfl
  | cons m ms ih =>
      obtain ⟨k, v⟩ := m
      obtain ⟨hfirst, hrest⟩ := List.forall_mem_cons.mp h
      rw [insertMember, if_neg (lt_asymm hfirst), if_neg (ne_of_gt hfirst), ih hrest, List.cons_append]

mutual

/-- What is in order already is left as it is. -/
theorem collapse_of_canonical : ∀ v : Json, v.Canonical → v.collapse = v
  | null, _ => rfl
  | bool _, _ => rfl
  | number _, _ => rfl
  | string _, _ => rfl
  | array elems, h => by rw [collapse, collapseElems_of_canonical elems h]
  | object members, h => by
      rw [collapse, collapseMembers_of_canonical members [] h.1 h.2 (by simp), List.nil_append]

theorem collapseElems_of_canonical : ∀ vs : List Json, CanonicalElems vs → collapseElems vs = vs
  | [], _ => rfl
  | v :: vs, h => by rw [collapseElems, collapse_of_canonical v h.1, collapseElems_of_canonical vs h.2]

theorem collapseMembers_of_canonical : ∀ ms map : List (String × Json),
    (ms.Pairwise fun m m' => m.1 < m'.1) → CanonicalMembers ms → (∀ m ∈ map, ∀ m' ∈ ms, m.1 < m'.1) →
      collapseMembers ms map = map ++ ms
  | [], map, _, _, _ => by rw [collapseMembers, List.append_nil]
  | (k, v) :: ms, map, hordered, hcanonical, hbehind => by
      obtain ⟨hfirst, hrest⟩ := List.pairwise_cons.mp hordered
      have hlast : ∀ m ∈ map, m.1 < k := fun m hm => hbehind m hm (k, v) List.mem_cons_self
      rw [collapseMembers, collapse_of_canonical v hcanonical.1, insertMember_of_last hlast,
        collapseMembers_of_canonical ms _ hrest hcanonical.2, List.append_assoc, List.singleton_append]
      intro m hm m' hm'
      rcases List.mem_append.mp hm with hold | hnew
      · exact hbehind m hold m' (List.mem_cons_of_mem _ hm')
      · rw [List.mem_singleton.mp hnew]
        exact hfirst m' hm'

end

/-! ### Nesting and numbers -/

theorem nestingMembers_le_iff {ms : List (String × Json)} {d : Nat} :
    nestingMembers ms ≤ d ↔ ∀ m ∈ ms, m.2.nesting ≤ d := by
  induction ms with
  | nil => simp [nestingMembers]
  | cons m ms ih =>
      obtain ⟨k, v⟩ := m
      simp only [nestingMembers, Nat.max_le, List.forall_mem_cons, ih]

theorem mem_numbersMembers {ms : List (String × Json)} {n : Number} :
    n ∈ numbersMembers ms ↔ ∃ m ∈ ms, n ∈ m.2.numbers := by
  induction ms with
  | nil => simp [numbersMembers]
  | cons m ms ih =>
      obtain ⟨k, v⟩ := m
      simp only [numbersMembers, List.mem_append, List.mem_cons, exists_eq_or_imp, ih]

mutual

/-- Reading into maps makes nothing deeper and no new numbers. -/
theorem collapse_le : ∀ v : Json, v.collapse.nesting ≤ v.nesting ∧ ∀ n ∈ v.collapse.numbers, n ∈ v.numbers
  | null => ⟨le_rfl, fun _ h => h⟩
  | bool _ => ⟨le_rfl, fun _ h => h⟩
  | number _ => ⟨le_rfl, fun _ h => h⟩
  | string _ => ⟨le_rfl, fun _ h => h⟩
  | array elems => by
      obtain ⟨hnesting, hnumbers⟩ := collapseElems_le elems
      exact ⟨Nat.succ_le_succ hnesting, hnumbers⟩
  | object members => by
      have hmember := collapse_le_member members
      have hbound := nestingMembers_le_iff.mp (le_refl (nestingMembers members))
      constructor
      · refine Nat.succ_le_succ (nestingMembers_le_iff.mpr ?_)
        intro m hm
        rcases mem_collapseMembers hm with hnone | ⟨m', hm', rfl⟩
        · cases hnone
        · exact (hmember m' hm').1.trans (hbound m' hm')
      · intro n hn
        obtain ⟨m, hm, hn⟩ := mem_numbersMembers.mp hn
        rcases mem_collapseMembers hm with hnone | ⟨m', hm', rfl⟩
        · cases hnone
        · exact mem_numbersMembers.mpr ⟨m', hm', (hmember m' hm').2 n hn⟩

theorem collapseElems_le : ∀ vs : List Json, nestingElems (collapseElems vs) ≤ nestingElems vs ∧
    ∀ n ∈ numbersElems (collapseElems vs), n ∈ numbersElems vs
  | [] => ⟨le_rfl, fun _ h => h⟩
  | v :: vs => by
      obtain ⟨hnesting, hnumbers⟩ := collapse_le v
      obtain ⟨hnestings, hnumberss⟩ := collapseElems_le vs
      refine ⟨max_le_max hnesting hnestings, ?_⟩
      intro n hn
      rcases List.mem_append.mp hn with hfirst | hrest
      · exact List.mem_append_left _ (hnumbers n hfirst)
      · exact List.mem_append_right _ (hnumberss n hrest)

theorem collapse_le_member : ∀ (ms : List (String × Json)), ∀ m ∈ ms,
    m.2.collapse.nesting ≤ m.2.nesting ∧ ∀ n ∈ m.2.collapse.numbers, n ∈ m.2.numbers
  | [], _, hm => by cases hm
  | (_, v) :: ms, m, hm => by
      rcases List.mem_cons.mp hm with rfl | hrest
      · exact collapse_le v
      · exact collapse_le_member ms m hrest

end

/-! ### What the parser accepts -/

/-- What each parser returns is nested no deeper than it was told. -/
structure Shallow (fuel : Nat) : Prop where
  value : ∀ {depth cs v rest}, parseValue parseString fuel depth cs = some (v, rest) → v.nesting ≤ depth
  array : ∀ {depth cs vs rest}, parseArray parseString fuel depth cs = some (vs, rest) → nestingElems vs ≤ depth
  elems : ∀ {depth cs vs rest}, parseElems parseString fuel depth cs = some (vs, rest) → nestingElems vs ≤ depth
  member : ∀ {depth cs m rest}, parseMember parseString fuel depth cs = some (m, rest) → m.2.nesting ≤ depth
  object : ∀ {depth cs ms rest}, parseObject parseString fuel depth cs = some (ms, rest) → nestingMembers ms ≤ depth
  members : ∀ {depth cs ms rest}, parseMembers parseString fuel depth cs = some (ms, rest) → nestingMembers ms ≤ depth

theorem shallow_zero : Shallow 0 where
  value h := by cases h
  array h := by cases h
  elems h := by cases h
  member h := by cases h
  object h := by cases h
  members h := by cases h

section Step

variable {fuel : Nat} (ih : Shallow fuel) {depth : Nat} {cs rest : List Char}

theorem nesting_keyword {letters : List Char} {value v : Json} (h : keyword letters value cs = some (v, rest))
    (hvalue : value.nesting ≤ depth) : v.nesting ≤ depth := by
  unfold keyword at h
  split at h
  · cases h
    exact hvalue
  · cases h

include ih

theorem Shallow.value_succ {v : Json} (h : parseValue parseString (fuel + 1) depth cs = some (v, rest)) :
    v.nesting ≤ depth := by
  unfold parseValue at h
  split at h
  · cases h
  · split_ifs at h
    · exact nesting_keyword h (Nat.zero_le _)
    · exact nesting_keyword h (Nat.zero_le _)
    · exact nesting_keyword h (Nat.zero_le _)
    · obtain ⟨p, -, heq⟩ := Option.map_eq_some_iff.mp h
      cases heq
      exact Nat.zero_le _
    · split at h
      · cases h
      · obtain ⟨⟨vs, rest'⟩, harray, heq⟩ := Option.map_eq_some_iff.mp h
        cases heq
        exact Nat.succ_le_succ (ih.array harray)
    · split at h
      · cases h
      · obtain ⟨⟨ms, rest'⟩, hobject, heq⟩ := Option.map_eq_some_iff.mp h
        cases heq
        exact Nat.succ_le_succ (ih.object hobject)
    · unfold parseNumber at h
      split at h
      · cases h
        exact Nat.zero_le _
      · cases h

theorem Shallow.valueThen {vs : List Json}
    (h : ((parseValue parseString fuel depth cs).bind fun p =>
      (parseElems parseString fuel depth p.2).map fun q => (p.1 :: q.1, q.2)) = some (vs, rest)) :
    nestingElems vs ≤ depth := by
  obtain ⟨⟨v, mid⟩, hvalue, hmore⟩ := Option.bind_eq_some_iff.mp h
  obtain ⟨⟨vs', rest'⟩, helems, heq⟩ := Option.map_eq_some_iff.mp hmore
  cases heq
  exact max_le (ih.value hvalue) (ih.elems helems)

theorem Shallow.memberThen {ms : List (String × Json)}
    (h : ((parseMember parseString fuel depth cs).bind fun p =>
      (parseMembers parseString fuel depth p.2).map fun q => (p.1 :: q.1, q.2)) = some (ms, rest)) :
    nestingMembers ms ≤ depth := by
  obtain ⟨⟨m, mid⟩, hmember, hmore⟩ := Option.bind_eq_some_iff.mp h
  obtain ⟨⟨ms', rest'⟩, hmembers, heq⟩ := Option.map_eq_some_iff.mp hmore
  cases heq
  exact max_le (ih.member hmember) (ih.members hmembers)

theorem Shallow.member_succ {m : String × Json} (h : parseMember parseString (fuel + 1) depth cs = some (m, rest)) :
    m.2.nesting ≤ depth := by
  unfold parseMember at h
  split at h
  · obtain ⟨p, -, hmore⟩ := Option.bind_eq_some_iff.mp h
    split at hmore
    · obtain ⟨⟨v, rest'⟩, hvalue, heq⟩ := Option.map_eq_some_iff.mp hmore
      cases heq
      exact ih.value hvalue
    · cases hmore
  · cases h

theorem Shallow.array_succ {vs : List Json} (h : parseArray parseString (fuel + 1) depth cs = some (vs, rest)) :
    nestingElems vs ≤ depth := by
  unfold parseArray at h
  split at h
  · cases h
    exact Nat.zero_le _
  · exact ih.valueThen h

theorem Shallow.elems_succ {vs : List Json} (h : parseElems parseString (fuel + 1) depth cs = some (vs, rest)) :
    nestingElems vs ≤ depth := by
  unfold parseElems at h
  split at h
  · cases h
    exact Nat.zero_le _
  · exact ih.valueThen h
  · cases h

theorem Shallow.object_succ {ms : List (String × Json)}
    (h : parseObject parseString (fuel + 1) depth cs = some (ms, rest)) : nestingMembers ms ≤ depth := by
  unfold parseObject at h
  split at h
  · cases h
    exact Nat.zero_le _
  · exact ih.memberThen h

theorem Shallow.members_succ {ms : List (String × Json)}
    (h : parseMembers parseString (fuel + 1) depth cs = some (ms, rest)) : nestingMembers ms ≤ depth := by
  unfold parseMembers at h
  split at h
  · cases h
    exact Nat.zero_le _
  · exact ih.memberThen h
  · cases h

end Step

theorem shallow : ∀ fuel, Shallow fuel
  | 0 => shallow_zero
  | fuel + 1 =>
      have ih := shallow fuel
      { value := ih.value_succ
        array := ih.array_succ
        elems := ih.elems_succ
        member := ih.member_succ
        object := ih.object_succ
        members := ih.members_succ }

theorem nesting_of_parse {cs : List Char} {v : Json} (h : parse cs = some v) : v.nesting ≤ maxNesting := by
  unfold parse at h
  split at h
  · cases h
  · rename_i v' rest hvalue
    split at h
    · cases h
      exact (shallow _).value hvalue
    · cases h

/-- A member of what was read, as it was written: in order, less deep than a text may be, with its numbers in range. -/
theorem get_of_read {readNumber : Number → Option Number} {cs : List Char} {value v : Json} {key : String}
    (hread : read readNumber cs = some value) (hget : value.get key = some v) :
    ∃ whole written, parse cs = some whole ∧ whole.collapse.get key = some written ∧
      v = written.asRead readNumber ∧ written.collapse = written ∧ written.nesting < maxNesting ∧
      written.inRange readNumber = true := by
  obtain ⟨whole, hparse, hrange, rfl⟩ := read_eq_some hread
  rw [get_asRead] at hget
  obtain ⟨written, hwritten, rfl⟩ := Option.map_eq_some_iff.mp hget
  obtain ⟨hnesting, hsubset⟩ := collapse_le whole
  obtain ⟨members, hobject, hmem⟩ := mem_of_get hwritten
  refine ⟨whole, written, hparse, hwritten, rfl,
    collapse_of_canonical written ((canonical_collapse whole).get hwritten), ?_, ?_⟩
  · have hdeep := nesting_of_parse hparse
    rw [hobject, nesting] at hnesting
    have hmember := nestingMembers_le_iff.mp (le_refl (nestingMembers members)) _ hmem
    have hvalue : written.nesting ≤ nestingMembers members := hmember
    omega
  · rw [inRange, List.all_eq_true] at hrange ⊢
    intro n hn
    apply hrange n
    apply hsubset n
    rw [hobject, numbers]
    exact mem_numbersMembers.mpr ⟨_, hmem, hn⟩

end Json
