import Overacp.Lib.Json.Literals

/-!
# How far a value reaches

A value takes up a part of the text that ends in a character of its own, and it is read in the same way
whatever comes behind it, unless that would carry on a number. So a text may lose whitespace at its end, or be
given some, and its value stays.
-/

namespace Json

/-! ### Extents -/

/-- What a value, an array or an object ends in. -/
def isFinal (c : Char) : Bool := isNumberChar c || c.isAlpha || c = '"' || c = ']' || c = '}'

/-- What may come behind instead: nothing that carries on a number that ended there. -/
def MayFollow (rest rest' : List Char) : Prop := NoNumberHead rest' ∨ rest'.head? = rest.head?

variable {α β : Type}

/-- What is read ends in a character of its own, and is read whatever may follow it, with fuel for its length;
`spare` is how much less will do. -/
def Extent (spare : Nat) (p : Nat → List Char → Option (α × List Char)) (cs rest : List Char) (a : α) : Prop :=
  ∃ used c, cs = used ++ c :: rest ∧ isFinal c = true ∧
    ∀ fuel rest', 3 * (used.length + 1) ≤ fuel + spare → MayFollow rest rest' →
      p fuel (used ++ c :: rest') = some (a, rest')

theorem head?_append_cons (used : List Char) (c : Char) (rest rest' : List Char) :
    (used ++ c :: rest).head? = (used ++ c :: rest').head? := by
  cases used with
  | nil => rfl
  | cons d used => rfl

namespace Extent

variable {spare : Nat} {p : Nat → List Char → Option (α × List Char)}
  {q : Nat → List Char → Option (β × List Char)} {before cs mid rest : List Char} {a : α} {b : β}

theorem map (g : α → β) (h : Extent spare p cs rest a) :
    Extent spare (fun fuel more => (p fuel more).map fun x => (g x.1, x.2)) cs rest (g a) := by
  obtain ⟨used, c, hcs, hfinal, hread⟩ := h
  refine ⟨used, c, hcs, hfinal, fun fuel rest' hfuel hfollow => ?_⟩
  show (p fuel (used ++ c :: rest')).map (fun x => (g x.1, x.2)) = some (g a, rest')
  rw [hread fuel rest' hfuel hfollow, Option.map_some]

/-- One character is all that is read. -/
theorem one {c : Char} (hc : isFinal c = true) (hp : ∀ fuel more, p (fuel + 1) (c :: more) = some (a, more)) :
    Extent 0 p (c :: rest) rest a := by
  refine ⟨[], c, rfl, hc, fun fuel rest' hfuel _ => ?_⟩
  obtain ⟨fuel, rfl⟩ : ∃ n, fuel = n + 1 := ⟨fuel - 1, by rw [List.length_nil] at hfuel; omega⟩
  exact hp fuel rest'

/-- Something that is passed over comes first. -/
theorem prepend {q : Nat → List Char → Option (α × List Char)} (h : Extent spare p cs rest a)
    (hspare : 1 ≤ spare + 3 * before.length)
    (hq : ∀ fuel more, more.head? = cs.head? → q (fuel + 1) (before ++ more) = p fuel more) :
    Extent 0 q (before ++ cs) rest a := by
  obtain ⟨used, c, rfl, hfinal, hread⟩ := h
  refine ⟨before ++ used, c, (List.append_assoc ..).symm, hfinal, fun fuel rest' hfuel hfollow => ?_⟩
  rw [List.length_append] at hfuel
  obtain ⟨fuel, rfl⟩ : ∃ n, fuel = n + 1 := ⟨fuel - 1, by omega⟩
  rw [List.append_assoc, hq fuel _ (head?_append_cons used c rest' rest)]
  exact hread fuel rest' (by omega) hfollow

/-- One after the other; each leaves to the other the fuel for its own length. -/
theorem pair {q : Nat → List Char → Option (List α × List Char)} {as : List α} (h : Extent 0 p cs mid a)
    (h' : Extent 0 q mid rest as) :
    Extent 3 (fun fuel more => (p fuel more).bind fun x => (q fuel x.2).map fun y => (x.1 :: y.1, y.2))
      cs rest (a :: as) := by
  obtain ⟨used, c, rfl, -, hread⟩ := h
  obtain ⟨used', c', rfl, hfinal, hread'⟩ := h'
  refine ⟨used ++ c :: used', c', by simp only [List.append_assoc, List.cons_append], hfinal,
    fun fuel rest' hfuel hfollow => ?_⟩
  rw [List.length_append, List.length_cons] at hfuel
  have hfirst := hread fuel (used' ++ c' :: rest') (by omega) (.inr (head?_append_cons used' c' rest' rest))
  have hsecond := hread' fuel rest' (by omega) hfollow
  simp only [List.append_assoc, List.cons_append, hfirst, Option.bind_some, hsecond, Option.map_some]

end Extent

/-! ### The parts of a text -/

theorem skipWs_append (cs more : List Char) : skipWs (cs.takeWhile isWs ++ more) = skipWs more :=
  List.dropWhile_append_of_pos fun _ hc => List.mem_takeWhile_imp hc

theorem takeWhile_skipWs (cs : List Char) : cs.takeWhile isWs ++ skipWs cs = cs := List.takeWhile_append_dropWhile

theorem keyword_extent {before rest cs : List Char} {c : Char} {value v : Json} (hc : isFinal c = true)
    (h : keyword (before ++ [c]) value cs = some (v, rest)) :
    Extent 0 (fun _ => keyword (before ++ [c]) value) cs rest v := by
  unfold keyword at h
  split at h
  · rename_i hbegins
    obtain ⟨more, hmore⟩ := List.isPrefixOf_iff_prefix.mp hbegins
    cases h
    refine ⟨before, c, ?_, hc, fun _ rest' _ _ => ?_⟩
    · rw [← hmore, List.drop_left, List.append_assoc, List.singleton_append]
    · have hsplit : before ++ c :: rest' = before ++ [c] ++ rest' := List.append_cons ..
      dsimp only
      rw [keyword, hsplit, if_pos (List.isPrefixOf_iff_prefix.mpr (List.prefix_append ..)), List.drop_left]
  · cases h

theorem parseNumber_extent {rest cs : List Char} {v : Json} (h : parseNumber cs = some (v, rest)) :
    Extent 0 (fun _ => parseNumber) cs rest v := by
  unfold parseNumber at h
  split at h
  · rename_i hnumber
    cases h
    have hne : cs.takeWhile isNumberChar ≠ [] := Number.lexeme_ne_nil ⟨_, hnumber⟩
    obtain ⟨before, c, hlast⟩ := (List.eq_nil_or_concat' _).resolve_left hne
    have hc : isNumberChar c = true := by
      have hmem : c ∈ cs.takeWhile isNumberChar := by
        rw [hlast]
        exact List.mem_append_right _ List.mem_cons_self
      exact Number.all_numberChar ⟨_, hnumber⟩ c hmem
    have hsplit : ∀ more, before ++ c :: more = cs.takeWhile isNumberChar ++ more := by
      intro more
      rw [hlast, List.append_assoc, List.singleton_append]
    refine ⟨before, c, ?_, ?_, fun _ rest' _ hfollow => ?_⟩
    · rw [hsplit, List.takeWhile_append_dropWhile]
    · simp only [isFinal, hc, Bool.true_or]
    · have hrest' : NoNumberHead rest' := by
        rcases hfollow with hfollow | hhead
        · exact hfollow
        · intro d hd
          have hdrop := List.head?_dropWhile_not isNumberChar cs
          rw [← hhead, Option.mem_def.mp hd] at hdrop
          exact hdrop
      dsimp only
      rw [hsplit]
      exact parseNumber_lexeme ⟨_, hnumber⟩ hrest'
  · cases h

theorem parseString_extent {cs rest : List Char} {s : String} (h : parseString cs = some (s, rest)) :
    Extent 0 (fun _ => parseString) cs rest s := by
  obtain ⟨⟨chars, rest'⟩, hbody, heq⟩ := Option.map_eq_some_iff.mp h
  cases heq
  obtain ⟨raw, hcs, -, hmore⟩ := parseStringBody_closes hbody
  refine ⟨raw, '"', hcs, by decide, fun _ rest' _ _ => ?_⟩
  dsimp only
  rw [parseString, hmore rest', Option.map_some]

/-! ### The parser -/

/-- Whatever it reads of a string has an extent. -/
def Closing (readString : List Char → Option (String × List Char)) : Prop :=
  ∀ {cs rest : List Char} {s : String}, readString cs = some (s, rest) → Extent 0 (fun _ => readString) cs rest s

theorem closing_parseString : Closing parseString := parseString_extent

section

variable {readString : List Char → Option (String × List Char)}

variable (readString) in
/-- With so much fuel, whatever is parsed has an extent. -/
structure Bounded (fuel : Nat) : Prop where
  value : ∀ {depth cs v rest}, parseValue readString fuel depth cs = some (v, rest) →
    Extent 0 (fun fuel => parseValue readString fuel depth) cs rest v
  array : ∀ {depth cs vs rest}, parseArray readString fuel depth cs = some (vs, rest) →
    Extent 0 (fun fuel => parseArray readString fuel depth) cs rest vs
  elems : ∀ {depth cs vs rest}, parseElems readString fuel depth cs = some (vs, rest) →
    Extent 0 (fun fuel => parseElems readString fuel depth) cs rest vs
  member : ∀ {depth cs m rest}, parseMember readString fuel depth cs = some (m, rest) →
    Extent 0 (fun fuel => parseMember readString fuel depth) cs rest m
  object : ∀ {depth cs ms rest}, parseObject readString fuel depth cs = some (ms, rest) →
    Extent 0 (fun fuel => parseObject readString fuel depth) cs rest ms
  members : ∀ {depth cs ms rest}, parseMembers readString fuel depth cs = some (ms, rest) →
    Extent 0 (fun fuel => parseMembers readString fuel depth) cs rest ms

theorem bounded_zero : Bounded readString 0 where
  value h := by cases h
  array h := by cases h
  elems h := by cases h
  member h := by cases h
  object h := by cases h
  members h := by cases h

/-- What a text begins with decides how a value of it is read. -/
theorem parseValue_cons {c : Char} (hc : isWs c = false) (fuel depth : Nat) (cs : List Char) :
    parseValue readString (fuel + 1) depth (c :: cs) =
      if c = 'n' then keyword ['u', 'l', 'l'] null cs
      else if c = 't' then keyword ['r', 'u', 'e'] (bool true) cs
      else if c = 'f' then keyword ['a', 'l', 's', 'e'] (bool false) cs
      else if c = '"' then (readString cs).map fun p => (string p.1, p.2)
      else if c = '[' then
        (if depth = 0 then none else (parseArray readString fuel (depth - 1) cs).map fun p => (array p.1, p.2))
      else if c = '{' then
        (if depth = 0 then none else (parseObject readString fuel (depth - 1) cs).map fun p => (object p.1, p.2))
      else parseNumber (c :: cs) := by
  rw [parseValue, skipWs_cons hc]
  cases depth <;> rfl

theorem parseArray_cons {c : Char} (hc : isWs c = false) (fuel depth : Nat) (cs : List Char) :
    parseArray readString (fuel + 1) depth (c :: cs) =
      if c = ']' then some ([], cs)
      else (parseValue readString fuel depth (c :: cs)).bind fun p =>
        (parseElems readString fuel depth p.2).map fun q => (p.1 :: q.1, q.2) := by
  rw [parseArray, skipWs_cons hc]
  split_ifs with hclose
  · rw [hclose]
    rfl
  · simp [hclose]

theorem parseElems_cons {c : Char} (hc : isWs c = false) (fuel depth : Nat) (cs : List Char) :
    parseElems readString (fuel + 1) depth (c :: cs) =
      if c = ']' then some ([], cs)
      else if c = ',' then
        (parseValue readString fuel depth cs).bind fun p =>
          (parseElems readString fuel depth p.2).map fun q => (p.1 :: q.1, q.2)
      else none := by
  rw [parseElems, skipWs_cons hc]
  split_ifs with hclose hcomma
  · rw [hclose]
    rfl
  · rw [hcomma]
    rfl
  · simp [hclose, hcomma]

theorem parseObject_cons {c : Char} (hc : isWs c = false) (fuel depth : Nat) (cs : List Char) :
    parseObject readString (fuel + 1) depth (c :: cs) =
      if c = '}' then some ([], cs)
      else (parseMember readString fuel depth (c :: cs)).bind fun p =>
        (parseMembers readString fuel depth p.2).map fun q => (p.1 :: q.1, q.2) := by
  rw [parseObject, skipWs_cons hc]
  split_ifs with hclose
  · rw [hclose]
    rfl
  · simp [hclose]

theorem parseMembers_cons {c : Char} (hc : isWs c = false) (fuel depth : Nat) (cs : List Char) :
    parseMembers readString (fuel + 1) depth (c :: cs) =
      if c = '}' then some ([], cs)
      else if c = ',' then
        (parseMember readString fuel depth cs).bind fun p =>
          (parseMembers readString fuel depth p.2).map fun q => (p.1 :: q.1, q.2)
      else none := by
  rw [parseMembers, skipWs_cons hc]
  split_ifs with hclose hcomma
  · rw [hclose]
    rfl
  · rw [hcomma]
    rfl
  · simp [hclose, hcomma]

variable (readString) in
/-- What comes behind a key: a colon, and the value of the member. -/
def parseColon (fuel depth : Nat) (key : String) (cs : List Char) : Option ((String × Json) × List Char) :=
  match skipWs cs with
  | ':' :: cs => (parseValue readString fuel depth cs).map fun q => ((key, q.1), q.2)
  | _ => none

theorem parseMember_cons {c : Char} (hc : isWs c = false) (fuel depth : Nat) (cs : List Char) :
    parseMember readString (fuel + 1) depth (c :: cs) =
      if c = '"' then (readString cs).bind fun p => parseColon readString fuel depth p.1 p.2 else none := by
  rw [parseMember, skipWs_cons hc]
  split_ifs with hquote
  · rw [hquote]
    rfl
  · simp [hquote]

theorem parseColon_eq_some {fuel depth : Nat} {key : String} {cs rest : List Char} {m : String × Json}
    (h : parseColon readString fuel depth key cs = some (m, rest)) :
    ∃ cs' v, skipWs cs = ':' :: cs' ∧ parseValue readString fuel depth cs' = some (v, rest) ∧ m = (key, v) := by
  unfold parseColon at h
  split at h
  · rename_i cs' hskip
    obtain ⟨⟨v, rest'⟩, hvalue, heq⟩ := Option.map_eq_some_iff.mp h
    cases heq
    exact ⟨cs', v, hskip, hvalue, rfl⟩
  · cases h

section

variable {fuel : Nat} (ih : Bounded readString fuel) {depth : Nat} {cs rest : List Char}
include ih

theorem Bounded.value_head (hclosing : Closing readString) {v : Json} {c : Char} (hc : isWs c = false)
    (h : parseValue readString (fuel + 1) depth (c :: cs) = some (v, rest)) :
    Extent 0 (fun fuel => parseValue readString fuel depth) (c :: cs) rest v := by
  have hfirst : ∀ {p : Nat → List Char → Option (Json × List Char)}, Extent 0 p cs rest v →
      (∀ fuel more, parseValue readString (fuel + 1) depth (c :: more) = p fuel more) →
        Extent 0 (fun fuel => parseValue readString fuel depth) (c :: cs) rest v := by
    intro p hextent hp
    exact @Extent.prepend _ _ _ [c] _ _ _ _ hextent (by rw [List.length_singleton]; omega)
      fun fuel more _ => hp fuel more
  rw [parseValue_cons hc] at h
  split_ifs at h with hnull htrue hfalse hquote hbracket hdeep hbrace hdeep
  · refine hfirst (@keyword_extent ['u', 'l'] rest cs 'l' null v (by decide) h) fun fuel more => ?_
    rw [parseValue_cons hc, if_pos hnull]
    rfl
  · refine hfirst (@keyword_extent ['r', 'u'] rest cs 'e' (bool true) v (by decide) h) fun fuel more => ?_
    rw [parseValue_cons hc, if_neg hnull, if_pos htrue]
    rfl
  · refine hfirst (@keyword_extent ['a', 'l', 's'] rest cs 'e' (bool false) v (by decide) h) fun fuel more => ?_
    rw [parseValue_cons hc, if_neg hnull, if_neg htrue, if_pos hfalse]
    rfl
  · obtain ⟨⟨s, rest'⟩, hstring, heq⟩ := Option.map_eq_some_iff.mp h
    cases heq
    refine hfirst (Extent.map Json.string (hclosing hstring)) fun fuel more => ?_
    rw [parseValue_cons hc, if_neg hnull, if_neg htrue, if_neg hfalse, if_pos hquote]
  · obtain ⟨⟨vs, rest'⟩, harray, heq⟩ := Option.map_eq_some_iff.mp h
    cases heq
    refine hfirst (Extent.map Json.array (ih.array harray)) fun fuel more => ?_
    rw [parseValue_cons hc, if_neg hnull, if_neg htrue, if_neg hfalse, if_neg hquote, if_pos hbracket, if_neg hdeep]
  · obtain ⟨⟨ms, rest'⟩, hobject, heq⟩ := Option.map_eq_some_iff.mp h
    cases heq
    refine hfirst (Extent.map Json.object (ih.object hobject)) fun fuel more => ?_
    rw [parseValue_cons hc, if_neg hnull, if_neg htrue, if_neg hfalse, if_neg hquote, if_neg hbracket, if_pos hbrace,
      if_neg hdeep]
  · obtain ⟨used, d, hcs, hfinal, hread⟩ := parseNumber_extent h
    refine ⟨used, d, hcs, hfinal, fun fuel rest' hfuel hfollow => ?_⟩
    obtain ⟨fuel, rfl⟩ : ∃ n, fuel = n + 1 := ⟨fuel - 1, by omega⟩
    have hnumber := hread (fuel + 1) rest' hfuel hfollow
    cases used with
    | nil =>
        obtain ⟨rfl, rfl⟩ := List.cons.inj hcs
        rw [List.nil_append] at hnumber ⊢
        simp only [parseValue_cons hc, hnull, htrue, hfalse, hquote, hbracket, hbrace, ↓reduceIte, hnumber]
    | cons d' used =>
        obtain ⟨rfl, -⟩ := List.cons.inj hcs
        rw [List.cons_append] at hnumber ⊢
        simp only [parseValue_cons hc, hnull, htrue, hfalse, hquote, hbracket, hbrace, ↓reduceIte, hnumber]

/-- An element and the ones after it. -/
theorem Bounded.elem {vs : List Json}
    (h : ((parseValue readString fuel depth cs).bind fun p =>
      (parseElems readString fuel depth p.2).map fun q => (p.1 :: q.1, q.2)) = some (vs, rest)) :
    Extent 3 (fun fuel more => (parseValue readString fuel depth more).bind fun p =>
      (parseElems readString fuel depth p.2).map fun q => (p.1 :: q.1, q.2)) cs rest vs := by
  obtain ⟨⟨v, mid⟩, hvalue, hmore⟩ := Option.bind_eq_some_iff.mp h
  obtain ⟨⟨vs', rest'⟩, helems, heq⟩ := Option.map_eq_some_iff.mp hmore
  cases heq
  exact (ih.value hvalue).pair (ih.elems helems)

/-- A member and the ones after it. -/
theorem Bounded.memberThen {ms : List (String × Json)}
    (h : ((parseMember readString fuel depth cs).bind fun p =>
      (parseMembers readString fuel depth p.2).map fun q => (p.1 :: q.1, q.2)) = some (ms, rest)) :
    Extent 3 (fun fuel more => (parseMember readString fuel depth more).bind fun p =>
      (parseMembers readString fuel depth p.2).map fun q => (p.1 :: q.1, q.2)) cs rest ms := by
  obtain ⟨⟨m, mid⟩, hmember, hmore⟩ := Option.bind_eq_some_iff.mp h
  obtain ⟨⟨ms', rest'⟩, hmembers, heq⟩ := Option.map_eq_some_iff.mp hmore
  cases heq
  exact (ih.member hmember).pair (ih.members hmembers)

theorem Bounded.array_head {vs : List Json} {c : Char} (hc : isWs c = false)
    (h : parseArray readString (fuel + 1) depth (c :: cs) = some (vs, rest)) :
    Extent 0 (fun fuel => parseArray readString fuel depth) (c :: cs) rest vs := by
  rw [parseArray_cons hc] at h
  split_ifs at h with hclose
  · cases h
    refine .one (by rw [hclose]; decide) fun fuel rest' => ?_
    rw [parseArray_cons hc, if_pos hclose]
  · refine @Extent.prepend _ _ _ [] _ _ _ _ (ih.elem h) (by omega) fun fuel more hmore => ?_
    obtain ⟨more, rfl⟩ := List.head?_eq_some_iff.mp hmore
    rw [List.nil_append, parseArray_cons hc, if_neg hclose]

theorem Bounded.elems_head {vs : List Json} {c : Char} (hc : isWs c = false)
    (h : parseElems readString (fuel + 1) depth (c :: cs) = some (vs, rest)) :
    Extent 0 (fun fuel => parseElems readString fuel depth) (c :: cs) rest vs := by
  rw [parseElems_cons hc] at h
  split_ifs at h with hclose hcomma
  · cases h
    refine .one (by rw [hclose]; decide) fun fuel rest' => ?_
    rw [parseElems_cons hc, if_pos hclose]
  · refine @Extent.prepend _ _ _ [c] _ _ _ _ (ih.elem h) (by omega) fun fuel more _ => ?_
    rw [List.singleton_append, parseElems_cons hc, if_neg hclose, if_pos hcomma]

theorem Bounded.object_head {ms : List (String × Json)} {c : Char} (hc : isWs c = false)
    (h : parseObject readString (fuel + 1) depth (c :: cs) = some (ms, rest)) :
    Extent 0 (fun fuel => parseObject readString fuel depth) (c :: cs) rest ms := by
  rw [parseObject_cons hc] at h
  split_ifs at h with hclose
  · cases h
    refine .one (by rw [hclose]; decide) fun fuel rest' => ?_
    rw [parseObject_cons hc, if_pos hclose]
  · refine @Extent.prepend _ _ _ [] _ _ _ _ (ih.memberThen h) (by omega) fun fuel more hmore => ?_
    obtain ⟨more, rfl⟩ := List.head?_eq_some_iff.mp hmore
    rw [List.nil_append, parseObject_cons hc, if_neg hclose]

theorem Bounded.members_head {ms : List (String × Json)} {c : Char} (hc : isWs c = false)
    (h : parseMembers readString (fuel + 1) depth (c :: cs) = some (ms, rest)) :
    Extent 0 (fun fuel => parseMembers readString fuel depth) (c :: cs) rest ms := by
  rw [parseMembers_cons hc] at h
  split_ifs at h with hclose hcomma
  · cases h
    refine .one (by rw [hclose]; decide) fun fuel rest' => ?_
    rw [parseMembers_cons hc, if_pos hclose]
  · refine @Extent.prepend _ _ _ [c] _ _ _ _ (ih.memberThen h) (by omega) fun fuel more _ => ?_
    rw [List.singleton_append, parseMembers_cons hc, if_neg hclose, if_pos hcomma]

theorem Bounded.member_head (hclosing : Closing readString) {m : String × Json} {c : Char} (hc : isWs c = false)
    (h : parseMember readString (fuel + 1) depth (c :: cs) = some (m, rest)) :
    Extent 0 (fun fuel => parseMember readString fuel depth) (c :: cs) rest m := by
  rw [parseMember_cons hc] at h
  split_ifs at h with hquote
  obtain ⟨⟨k, mid⟩, hkey, hmore⟩ := Option.bind_eq_some_iff.mp h
  obtain ⟨cs', v, hskip, hvalue, rfl⟩ := parseColon_eq_some hmore
  obtain ⟨raw, e, hcs, -, hstring⟩ := hclosing hkey
  have hmid : mid = mid.takeWhile isWs ++ ':' :: cs' := by
    rw [← hskip]
    exact (takeWhile_skipWs mid).symm
  have hbefore : c :: cs = (c :: (raw ++ e :: (mid.takeWhile isWs ++ [':']))) ++ cs' := by
    rw [hcs]
    nth_rewrite 1 [hmid]
    simp only [List.cons_append, List.append_assoc, List.nil_append]
  rw [hbefore]
  refine Extent.prepend (Extent.map (fun v => (k, v)) (ih.value hvalue)) (by rw [List.length_cons]; omega)
    fun fuel more _ => ?_
  have hread : readString (raw ++ e :: (mid.takeWhile isWs ++ ':' :: more)) =
      some (k, mid.takeWhile isWs ++ ':' :: more) := by
    refine hstring (3 * (raw.length + 1)) _ (by omega) (.inr ?_)
    nth_rewrite 2 [hmid]
    exact head?_append_cons _ ':' more cs'
  have hcolon : skipWs (mid.takeWhile isWs ++ ':' :: more) = ':' :: more := by
    rw [skipWs_append]
    exact skipWs_cons (by decide) more
  simp only [List.cons_append, List.append_assoc, List.nil_append, parseMember_cons hc, if_pos hquote, hread,
    Option.bind_some, parseColon, hcolon]

end

/-- Whitespace before a value is passed over. -/
theorem Extent.of_skipWs {p : Nat → List Char → Option (α × List Char)} {fuel : Nat} {cs rest : List Char} {a : α}
    (hp : ∀ fuel {cs cs'}, skipWs cs = skipWs cs' → p fuel cs = p fuel cs') (hnil : p fuel [] = none)
    (hhead : ∀ {c cs'}, isWs c = false → p fuel (c :: cs') = some (a, rest) → Extent 0 p (c :: cs') rest a)
    (h : p fuel cs = some (a, rest)) : Extent 0 p cs rest a := by
  cases hskip : skipWs cs with
  | nil =>
      have hsame : skipWs cs = skipWs [] := hskip
      exact absurd (h.symm.trans ((hp fuel hsame).trans hnil)) nofun
  | cons c cs' =>
      have hc : isWs c = false := by
        have hhead := List.head?_dropWhile_not isWs cs
        rw [show cs.dropWhile isWs = c :: cs' from hskip] at hhead
        exact hhead
      have hsame := hskip.trans (skipWs_cons hc cs').symm
      obtain ⟨used, d, hcs, hfinal, hread⟩ := hhead hc ((hp fuel hsame).symm.trans h)
      refine ⟨cs.takeWhile isWs ++ used, d, ?_, hfinal, fun fuel rest' hfuel hfollow => ?_⟩
      · rw [List.append_assoc, ← hcs, ← hskip, takeWhile_skipWs]
      · rw [List.length_append] at hfuel
        rw [← hread fuel rest' (by omega) hfollow]
        rw [List.append_assoc]
        exact hp fuel (skipWs_append cs _)

theorem parseValue_nil (fuel depth : Nat) : parseValue readString fuel depth [] = none := by
  cases fuel <;> rfl

theorem parseMember_nil (fuel depth : Nat) : parseMember readString fuel depth [] = none := by
  cases fuel <;> rfl

theorem bounded_succ (hclosing : Closing readString) {fuel : Nat} (ih : Bounded readString fuel) :
    Bounded readString (fuel + 1) where
  value h := by
    refine Extent.of_skipWs (fun fuel {cs cs'} hsame => ?_) rfl (ih.value_head hclosing) h
    cases fuel with
    | zero => rfl
    | succ fuel =>
        rw [parseValue, parseValue, hsame]
  array h := by
    refine Extent.of_skipWs (fun fuel {cs cs'} hsame => ?_) ?_ ih.array_head h
    · cases fuel with
      | zero => rfl
      | succ fuel =>
          rw [parseArray, parseArray, hsame]
    · rw [parseArray]
      show (parseValue readString _ _ []).bind _ = none
      rw [parseValue_nil]
      rfl
  elems h := by
    refine Extent.of_skipWs (fun fuel {cs cs'} hsame => ?_) rfl ih.elems_head h
    cases fuel with
    | zero => rfl
    | succ fuel =>
        rw [parseElems, parseElems, hsame]
  member h := by
    refine Extent.of_skipWs (fun fuel {cs cs'} hsame => ?_) rfl (ih.member_head hclosing) h
    cases fuel with
    | zero => rfl
    | succ fuel =>
        rw [parseMember, parseMember, hsame]
  object h := by
    refine Extent.of_skipWs (fun fuel {cs cs'} hsame => ?_) ?_ ih.object_head h
    · cases fuel with
      | zero => rfl
      | succ fuel =>
          rw [parseObject, parseObject, hsame]
    · rw [parseObject]
      show (parseMember readString _ _ []).bind _ = none
      rw [parseMember_nil]
      rfl
  members h := by
    refine Extent.of_skipWs (fun fuel {cs cs'} hsame => ?_) rfl ih.members_head h
    cases fuel with
    | zero => rfl
    | succ fuel =>
        rw [parseMembers, parseMembers, hsame]

theorem bounded (hclosing : Closing readString) : ∀ fuel, Bounded readString fuel
  | 0 => bounded_zero
  | fuel + 1 => bounded_succ hclosing (bounded hclosing fuel)

/-! ### The limit on the nesting -/

/-- With so much fuel, whatever is parsed within a limit is parsed within a wider one. -/
structure Widens (readString : List Char → Option (String × List Char)) (fuel : Nat) : Prop where
  value : ∀ {depth wider cs p}, depth ≤ wider →
    parseValue readString fuel depth cs = some p → parseValue readString fuel wider cs = some p
  array : ∀ {depth wider cs p}, depth ≤ wider →
    parseArray readString fuel depth cs = some p → parseArray readString fuel wider cs = some p
  elems : ∀ {depth wider cs p}, depth ≤ wider →
    parseElems readString fuel depth cs = some p → parseElems readString fuel wider cs = some p
  member : ∀ {depth wider cs p}, depth ≤ wider →
    parseMember readString fuel depth cs = some p → parseMember readString fuel wider cs = some p
  object : ∀ {depth wider cs p}, depth ≤ wider →
    parseObject readString fuel depth cs = some p → parseObject readString fuel wider cs = some p
  members : ∀ {depth wider cs p}, depth ≤ wider →
    parseMembers readString fuel depth cs = some p → parseMembers readString fuel wider cs = some p

theorem widens_zero : Widens readString 0 where
  value _ h := by cases h
  array _ h := by cases h
  elems _ h := by cases h
  member _ h := by cases h
  object _ h := by cases h
  members _ h := by cases h

section

variable {fuel : Nat} (ih : Widens readString fuel) {depth wider : Nat} (hle : depth ≤ wider) {cs : List Char}

include ih hle

theorem Widens.value_succ {p : Json × List Char} (h : parseValue readString (fuel + 1) depth cs = some p) :
    parseValue readString (fuel + 1) wider cs = some p := by
  rw [parseValue] at h ⊢
  cases hskip : skipWs cs with
  | nil =>
      rw [hskip] at h
      cases h
  | cons c more =>
      rw [hskip] at h
      dsimp only at h ⊢
      split_ifs at h ⊢
      · exact h
      · exact h
      · exact h
      · exact h
      · cases depth with
        | zero => cases h
        | succ depth =>
            obtain ⟨wider, rfl⟩ := Nat.exists_eq_add_of_le' (Nat.le_trans (Nat.le_add_left 1 depth) hle)
            obtain ⟨q, hq, hp⟩ := Option.map_eq_some_iff.mp h
            exact Option.map_eq_some_iff.mpr ⟨q, ih.array (Nat.le_of_succ_le_succ hle) hq, hp⟩
      · cases depth with
        | zero => cases h
        | succ depth =>
            obtain ⟨wider, rfl⟩ := Nat.exists_eq_add_of_le' (Nat.le_trans (Nat.le_add_left 1 depth) hle)
            obtain ⟨q, hq, hp⟩ := Option.map_eq_some_iff.mp h
            exact Option.map_eq_some_iff.mpr ⟨q, ih.object (Nat.le_of_succ_le_succ hle) hq, hp⟩
      · exact h

theorem Widens.valueThen {p : List Json × List Char}
    (h : ((parseValue readString fuel depth cs).bind fun p =>
      (parseElems readString fuel depth p.2).map fun q => (p.1 :: q.1, q.2)) = some p) :
    ((parseValue readString fuel wider cs).bind fun p =>
      (parseElems readString fuel wider p.2).map fun q => (p.1 :: q.1, q.2)) = some p := by
  obtain ⟨v, hv, hmore⟩ := Option.bind_eq_some_iff.mp h
  obtain ⟨vs, hvs, hp⟩ := Option.map_eq_some_iff.mp hmore
  rw [ih.value hle hv, Option.bind_some, ih.elems hle hvs, Option.map_some, hp]

theorem Widens.memberThen {p : List (String × Json) × List Char}
    (h : ((parseMember readString fuel depth cs).bind fun p =>
      (parseMembers readString fuel depth p.2).map fun q => (p.1 :: q.1, q.2)) = some p) :
    ((parseMember readString fuel wider cs).bind fun p =>
      (parseMembers readString fuel wider p.2).map fun q => (p.1 :: q.1, q.2)) = some p := by
  obtain ⟨m, hm, hmore⟩ := Option.bind_eq_some_iff.mp h
  obtain ⟨ms, hms, hp⟩ := Option.map_eq_some_iff.mp hmore
  rw [ih.member hle hm, Option.bind_some, ih.members hle hms, Option.map_some, hp]

theorem Widens.array_succ {p : List Json × List Char} (h : parseArray readString (fuel + 1) depth cs = some p) :
    parseArray readString (fuel + 1) wider cs = some p := by
  unfold parseArray at h ⊢
  split at h
  · exact h
  · exact ih.valueThen hle h

theorem Widens.elems_succ {p : List Json × List Char} (h : parseElems readString (fuel + 1) depth cs = some p) :
    parseElems readString (fuel + 1) wider cs = some p := by
  unfold parseElems at h ⊢
  split at h
  · exact h
  · exact ih.valueThen hle h
  · cases h

theorem Widens.member_succ {p : (String × Json) × List Char} (h : parseMember readString (fuel + 1) depth cs = some p) :
    parseMember readString (fuel + 1) wider cs = some p := by
  unfold parseMember at h ⊢
  split at h
  · obtain ⟨key, hkey, hmore⟩ := Option.bind_eq_some_iff.mp h
    refine Option.bind_eq_some_iff.mpr ⟨key, hkey, ?_⟩
    split at hmore
    · obtain ⟨v, hv, hp⟩ := Option.map_eq_some_iff.mp hmore
      exact Option.map_eq_some_iff.mpr ⟨v, ih.value hle hv, hp⟩
    · cases hmore
  · cases h

theorem Widens.object_succ {p : List (String × Json) × List Char}
    (h : parseObject readString (fuel + 1) depth cs = some p) :
    parseObject readString (fuel + 1) wider cs = some p := by
  unfold parseObject at h ⊢
  split at h
  · exact h
  · exact ih.memberThen hle h

theorem Widens.members_succ {p : List (String × Json) × List Char}
    (h : parseMembers readString (fuel + 1) depth cs = some p) :
    parseMembers readString (fuel + 1) wider cs = some p := by
  unfold parseMembers at h ⊢
  split at h
  · exact h
  · exact ih.memberThen hle h
  · cases h

end

theorem widens : ∀ fuel, Widens readString fuel
  | 0 => widens_zero
  | fuel + 1 =>
      have ih := widens fuel
      { value := fun hle h => ih.value_succ hle h
        array := fun hle h => ih.array_succ hle h
        elems := fun hle h => ih.elems_succ hle h
        member := fun hle h => ih.member_succ hle h
        object := fun hle h => ih.object_succ hle h
        members := fun hle h => ih.members_succ hle h }

/-! ### Whole texts -/

/-- Parse a text that is nested no deeper than the limit. -/
def parseWithin (readString : List Char → Option (String × List Char)) (limit : Nat) (cs : List Char) : Option Json :=
  match parseValue readString (3 * cs.length + 1) limit cs with
  | none => none
  | some (v, rest) => if skipWs rest = [] then some v else none

/-- A text that is a value is the extent of the value and whitespace, and any whitespace will do. -/
theorem parseWithin_extent (hclosing : Closing readString) {limit : Nat} {cs : List Char} {v : Json}
    (h : parseWithin readString limit cs = some v) :
    ∃ used c ws, cs = used ++ c :: ws ∧ isFinal c = true ∧ (∀ x ∈ ws, isWs x = true) ∧
      ∀ ws', (∀ x ∈ ws', isWs x = true) → parseWithin readString limit (used ++ c :: ws') = some v := by
  unfold parseWithin at h
  split at h
  · cases h
  · rename_i v' ws hvalue
    split_ifs at h with hws
    cases h
    obtain ⟨used, c, hcs, hfinal, hread⟩ := (bounded hclosing _).value hvalue
    refine ⟨used, c, ws, hcs, hfinal, List.dropWhile_eq_nil_iff.mp hws, fun ws' hws' => ?_⟩
    have hfollow : MayFollow ws ws' := by
      refine .inl fun d hd => ?_
      by_contra hnumber
      have hfalse := isWs_numberChar (Bool.of_not_eq_false hnumber)
      rw [hws' d (List.mem_of_mem_head? hd)] at hfalse
      cases hfalse
    have hsome : parseValue readString (3 * (used ++ c :: ws').length + 1) limit (used ++ c :: ws') = some (v, ws') :=
      hread _ ws' (by rw [List.length_append, List.length_cons]; omega) hfollow
    have hskip : skipWs ws' = [] := List.dropWhile_eq_nil_iff.mpr hws'
    rw [parseWithin, hsome]
    exact if_pos hskip

/-- Whitespace at the end of a text changes nothing. -/
theorem parseWithin_append (hclosing : Closing readString) {limit : Nat} {cs ws : List Char} {v : Json}
    (h : parseWithin readString limit cs = some v) (hws : ∀ x ∈ ws, isWs x = true) :
    parseWithin readString limit (cs ++ ws) = some v := by
  obtain ⟨used, c, before, rfl, -, hbefore, hread⟩ := parseWithin_extent hclosing h
  rw [List.append_assoc, List.cons_append]
  apply hread
  intro x hx
  rcases List.mem_append.mp hx with hx | hx
  · exact hbefore x hx
  · exact hws x hx

/-- What a value begins with. -/
def isInitial (c : Char) : Bool := isNumberChar c || c.isAlpha || c = '"' || c = '[' || c = '{'

theorem toNat_of_isAlpha {c : Char} (h : c.isAlpha = true) : 0x40 < c.toNat ∧ c.toNat < 0x80 := by
  have hletter : (decide (c.val ≥ 'A'.val ∧ c.val ≤ 'Z'.val) ||
      (decide (c.val ≥ 'a'.val) && decide (c.val ≤ 'z'.val))) = true := h
  simp only [Bool.or_eq_true, Bool.and_eq_true, decide_eq_true_eq, ge_iff_le, UInt32.le_iff_toNat_le] at hletter
  have hval : c.val.toNat = c.toNat := rfl
  have hupper : 'A'.val.toNat = 65 ∧ 'Z'.val.toNat = 90 := ⟨rfl, rfl⟩
  have hlower : 'a'.val.toNat = 97 ∧ 'z'.val.toNat = 122 := ⟨rfl, rfl⟩
  omega

theorem toNat_of_isNumberChar {c : Char} (h : isNumberChar c = true) : 0x20 < c.toNat ∧ c.toNat < 0x80 := by
  simp only [isNumberChar, Bool.or_eq_true, decide_eq_true_eq, or_assoc] at h
  rcases h with hdigit | rfl | rfl | rfl | rfl | rfl
  · have hrange := Char.isDigit_iff_toNat.mp hdigit
    have hbounds : '0'.toNat = 48 ∧ '9'.toNat = 57 := ⟨rfl, rfl⟩
    omega
  · decide
  · decide
  · decide
  · decide
  · decide

theorem toNat_of_isFinal {c : Char} (h : isFinal c = true) : 0x20 < c.toNat ∧ c.toNat < 0x80 := by
  simp only [isFinal, Bool.or_eq_true, decide_eq_true_eq, or_assoc] at h
  rcases h with hnumber | halpha | rfl | rfl | rfl
  · exact toNat_of_isNumberChar hnumber
  · have hrange := toNat_of_isAlpha halpha
    omega
  · decide
  · decide
  · decide

theorem toNat_of_isInitial {c : Char} (h : isInitial c = true) : 0x20 < c.toNat ∧ c.toNat < 0x80 := by
  simp only [isInitial, Bool.or_eq_true, decide_eq_true_eq, or_assoc] at h
  rcases h with hnumber | halpha | rfl | rfl | rfl
  · exact toNat_of_isNumberChar hnumber
  · have hrange := toNat_of_isAlpha halpha
    omega
  · decide
  · decide
  · decide

theorem isInitial_of_parseValue {fuel depth : Nat} {c : Char} {cs : List Char} {p : Json × List Char}
    (hc : isWs c = false) (h : parseValue readString (fuel + 1) depth (c :: cs) = some p) : isInitial c = true := by
  by_contra hnot
  simp only [isInitial, Bool.or_eq_true, decide_eq_true_eq, not_or] at hnot
  obtain ⟨⟨⟨⟨hnumber, halpha⟩, hquote⟩, harray⟩, hobject⟩ := hnot
  have hletter : ∀ letter : Char, letter.isAlpha = true → c ≠ letter := by
    rintro letter hletter rfl
    exact halpha hletter
  rw [parseValue_cons hc, if_neg (hletter 'n' rfl), if_neg (hletter 't' rfl), if_neg (hletter 'f' rfl),
    if_neg hquote, if_neg harray, if_neg hobject, parseNumber] at h
  split at h
  · rename_i hlexeme
    exact Number.lexeme_ne_nil ⟨_, hlexeme⟩ (List.takeWhile_cons_of_neg hnumber)
  · cases h

/-- A text that is a value is the value with whitespace around it, and is the same value without. -/
theorem parseWithin_core (hclosing : Closing readString) {limit : Nat} {cs : List Char} {v : Json}
    (h : parseWithin readString limit cs = some v) :
    ∃ before core after, cs = before ++ (core ++ after) ∧ (∀ c ∈ before, isWs c = true) ∧
      (∀ c ∈ after, isWs c = true) ∧ (∀ c ∈ core.head?, isInitial c = true) ∧
      (∃ used c, core = used ++ [c] ∧ isFinal c = true) ∧ parseWithin readString limit core = some v := by
  unfold parseWithin at h
  split at h
  · cases h
  · rename_i v' ws hvalue
    split_ifs at h with hws
    cases h
    cases hskip : skipWs cs with
    | nil =>
        rw [parseValue, hskip] at hvalue
        cases hvalue
    | cons d more =>
        have hd : isWs d = false := by
          have hhead := List.head?_dropWhile_not isWs cs
          rw [show cs.dropWhile isWs = d :: more from hskip] at hhead
          exact hhead
        have hstart : parseValue readString (3 * cs.length + 1) limit (d :: more) = some (v, ws) := by
          rw [← hvalue, parseValue, parseValue, hskip, skipWs_cons hd]
        obtain ⟨used, c, hused, hfinal, hread⟩ := (bounded hclosing _).value hstart
        have hcore : parseValue readString (3 * (used ++ [c]).length + 1) limit (used ++ [c]) = some (v, []) :=
          hread _ [] (by rw [List.length_append, List.length_singleton]; omega) (.inl nofun)
        refine ⟨cs.takeWhile isWs, used ++ [c], ws, ?_, fun x hx => List.mem_takeWhile_imp hx,
          List.dropWhile_eq_nil_iff.mp hws, ?_, ⟨used, c, rfl, hfinal⟩, ?_⟩
        · rw [List.append_assoc, List.singleton_append, ← hused, ← hskip, takeWhile_skipWs]
        · intro x hx
          have hhead : (d :: more).head? = (used ++ [c]).head? := by
            rw [hused]
            exact head?_append_cons used c ws []
          rw [← hhead] at hx
          cases hx
          exact isInitial_of_parseValue hd hstart
        · rw [parseWithin, hcore]
          rfl

/-- What is parsed within a limit is parsed within a wider one. -/
theorem parseWithin_mono {limit wider : Nat} (hle : limit ≤ wider) {cs : List Char} {v : Json}
    (h : parseWithin readString limit cs = some v) : parseWithin readString wider cs = some v := by
  unfold parseWithin at h ⊢
  cases hvalue : parseValue readString (3 * cs.length + 1) limit cs with
  | none =>
      rw [hvalue] at h
      cases h
  | some p =>
      rw [hvalue] at h
      rw [(widens _).value hle hvalue]
      exact h

end

end Json
