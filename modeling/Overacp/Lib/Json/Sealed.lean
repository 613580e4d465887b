import Overacp.Lib.Json.Extent

/-!
# Texts that are broken off

An object ends at its closing brace, whatever comes behind it. So of the beginnings of a text that is an object
only those are values that lack nothing but whitespace at the end, and they are the same object.
-/

namespace Json

/-! ### Closing braces -/

theorem head_skipWs {c : Char} {cs cs' : List Char} (h : skipWs cs = c :: cs') : isWs c = false := by
  have hhead := List.head?_dropWhile_not isWs cs
  rw [show cs.dropWhile isWs = c :: cs' from h] at hhead
  exact hhead

theorem takeWhile_cons_skipWs {c : Char} {cs cs' : List Char} (h : skipWs cs = c :: cs') :
    cs = cs.takeWhile isWs ++ c :: cs' := by
  rw [← h]
  exact (takeWhile_skipWs cs).symm

theorem skipWs_takeWhile {c : Char} {cs cs' : List Char} (h : skipWs cs = c :: cs') (more : List Char) :
    skipWs (cs.takeWhile isWs ++ c :: more) = c :: more := by
  rw [skipWs_append]
  exact skipWs_cons (head_skipWs h) more

/-- What is read ends at a closing brace, and is read whatever comes behind, with fuel for its length; `spare` is
how much less will do. -/
def Sealed {α : Type} (spare : Nat) (p : Nat → List Char → Option (α × List Char)) (cs rest : List Char) (a : α) :
    Prop :=
  ∃ used, cs = used ++ '}' :: rest ∧ ∀ fuel rest', 3 * (used.length + 1) ≤ fuel + spare →
    p fuel (used ++ '}' :: rest') = some (a, rest')

section

variable {c : Char} {cs cs' : List Char} (h : skipWs cs = c :: cs') (fuel depth : Nat)
include h

theorem parseValue_skipWs :
    parseValue parseString (fuel + 1) depth cs = parseValue parseString (fuel + 1) depth (c :: cs') := by
  rw [parseValue, parseValue, h, skipWs_cons (head_skipWs h)]

theorem parseObject_skipWs :
    parseObject parseString (fuel + 1) depth cs = parseObject parseString (fuel + 1) depth (c :: cs') := by
  rw [parseObject, parseObject, h, skipWs_cons (head_skipWs h)]

theorem parseMembers_skipWs :
    parseMembers parseString (fuel + 1) depth cs = parseMembers parseString (fuel + 1) depth (c :: cs') := by
  rw [parseMembers, parseMembers, h, skipWs_cons (head_skipWs h)]

end

section

variable {depth fuel : Nat} {cs rest : List Char} {ms : List (String × Json)}

/-- A member and the ones after it, when those end at a brace. -/
theorem memberThen_sealed (hmembers : ∀ {mid : List Char} {ms : List (String × Json)},
      parseMembers parseString fuel depth mid = some (ms, rest) →
        Sealed 0 (fun fuel => parseMembers parseString fuel depth) mid rest ms)
    (h : ((parseMember parseString fuel depth cs).bind fun p =>
      (parseMembers parseString fuel depth p.2).map fun q => (p.1 :: q.1, q.2)) = some (ms, rest)) :
    Sealed 3 (fun fuel more => (parseMember parseString fuel depth more).bind fun p =>
      (parseMembers parseString fuel depth p.2).map fun q => (p.1 :: q.1, q.2)) cs rest ms := by
  obtain ⟨⟨m, mid⟩, hmember, hmore⟩ := Option.bind_eq_some_iff.mp h
  obtain ⟨⟨ms', rest⟩, hrest, heq⟩ := Option.map_eq_some_iff.mp hmore
  cases heq
  obtain ⟨used, d, rfl, -, hread⟩ := (bounded closing_parseString fuel).member hmember
  obtain ⟨used', rfl, hread'⟩ := hmembers hrest
  refine ⟨used ++ d :: used', by simp only [List.append_assoc, List.cons_append], fun fuel rest' hfuel => ?_⟩
  rw [List.length_append, List.length_cons] at hfuel
  have hfirst := hread fuel (used' ++ '}' :: rest') (by omega) (.inr (head?_append_cons used' '}' rest' rest))
  have hsecond := hread' fuel rest' (by omega)
  simp only [List.append_assoc, List.cons_append, hfirst, Option.bind_some, hsecond, Option.map_some]

theorem parseMembers_sealed (h : parseMembers parseString fuel depth cs = some (ms, rest)) :
    Sealed 0 (fun fuel => parseMembers parseString fuel depth) cs rest ms := by
  induction fuel generalizing cs ms with
  | zero => cases h
  | succ fuel ih =>
      cases hskip : skipWs cs with
      | nil =>
          rw [parseMembers, hskip] at h
          cases h
      | cons c cs' =>
          have hcs := takeWhile_cons_skipWs hskip
          rw [parseMembers_skipWs hskip, parseMembers_cons (head_skipWs hskip)] at h
          split_ifs at h with hclose hcomma
          · cases h
            rw [hclose] at hskip hcs
            refine ⟨cs.takeWhile isWs, hcs, fun fuel rest' hfuel => ?_⟩
            obtain ⟨fuel, rfl⟩ : ∃ n, fuel = n + 1 := ⟨fuel - 1, by omega⟩
            show parseMembers parseString (fuel + 1) depth _ = _
            rw [parseMembers_skipWs (skipWs_takeWhile hskip _), parseMembers_cons (by decide), if_pos rfl]
          · obtain ⟨used, rfl, hread⟩ := memberThen_sealed ih h
            refine ⟨cs.takeWhile isWs ++ c :: used, ?_, fun fuel rest' hfuel => ?_⟩
            · rw [List.append_assoc]
              exact hcs
            · rw [List.length_append, List.length_cons] at hfuel
              obtain ⟨fuel, rfl⟩ : ∃ n, fuel = n + 1 := ⟨fuel - 1, by omega⟩
              have hthen := hread fuel rest' (by omega)
              show parseMembers parseString (fuel + 1) depth _ = _
              rw [List.append_assoc, List.cons_append, parseMembers_skipWs (skipWs_takeWhile hskip _),
                parseMembers_cons (head_skipWs hskip), if_neg hclose, if_pos hcomma]
              exact hthen

theorem parseObject_sealed (h : parseObject parseString fuel depth cs = some (ms, rest)) :
    Sealed 0 (fun fuel => parseObject parseString fuel depth) cs rest ms := by
  cases fuel with
  | zero => cases h
  | succ fuel =>
      cases hskip : skipWs cs with
      | nil =>
          rw [parseObject, hskip] at h
          dsimp only at h
          rw [parseMember_nil] at h
          cases h
      | cons c cs' =>
          have hcs := takeWhile_cons_skipWs hskip
          rw [parseObject_skipWs hskip, parseObject_cons (head_skipWs hskip)] at h
          split_ifs at h with hclose
          · cases h
            rw [hclose] at hskip hcs
            refine ⟨cs.takeWhile isWs, hcs, fun fuel rest' hfuel => ?_⟩
            obtain ⟨fuel, rfl⟩ : ∃ n, fuel = n + 1 := ⟨fuel - 1, by omega⟩
            show parseObject parseString (fuel + 1) depth _ = _
            rw [parseObject_skipWs (skipWs_takeWhile hskip _), parseObject_cons (by decide), if_pos rfl]
          · obtain ⟨used, hused, hread⟩ := memberThen_sealed parseMembers_sealed h
            obtain ⟨used, rfl⟩ : ∃ more, used = c :: more := by
              cases used with
              | nil => exact absurd (List.cons.inj hused).1 hclose
              | cons d used => exact ⟨used, by rw [(List.cons.inj hused).1]⟩
            refine ⟨cs.takeWhile isWs ++ c :: used, ?_, fun fuel rest' hfuel => ?_⟩
            · rw [List.append_assoc, ← hused]
              exact hcs
            · rw [List.length_append, List.length_cons] at hfuel
              obtain ⟨fuel, rfl⟩ : ∃ n, fuel = n + 1 := ⟨fuel - 1, by omega⟩
              have hthen := hread fuel rest' (by rw [List.length_cons]; omega)
              show parseObject parseString (fuel + 1) depth _ = _
              rw [List.append_assoc, List.cons_append, parseObject_skipWs (skipWs_takeWhile hskip _),
                parseObject_cons (head_skipWs hskip), if_neg hclose]
              exact hthen

end

/-! ### Whole texts -/

/-- What begins with an opening brace is an object, and nothing else is. -/
theorem object_of_parseValue {fuel depth : Nat} {c : Char} {cs rest : List Char} {v : Json} (hc : isWs c = false)
    (h : parseValue parseString (fuel + 1) depth (c :: cs) = some (v, rest)) : (∃ ms, v = object ms) ↔ c = '{' := by
  constructor
  · rintro ⟨ms, rfl⟩
    by_contra hbrace
    have hkeyword (letters : List Char) (value : Json) (hvalue : value ≠ object ms) :
        keyword letters value cs ≠ some (object ms, rest) := by
      intro hsome
      unfold keyword at hsome
      split_ifs at hsome
      exact hvalue (Prod.mk.inj (Option.some.inj hsome)).1
    rw [parseValue_cons hc] at h
    split_ifs at h
    · exact hkeyword _ null (fun heq => Json.noConfusion heq) h
    · exact hkeyword _ (bool true) (fun heq => Json.noConfusion heq) h
    · exact hkeyword _ (bool false) (fun heq => Json.noConfusion heq) h
    · obtain ⟨p, _, heq⟩ := Option.map_eq_some_iff.mp h
      cases heq
    · obtain ⟨p, _, heq⟩ := Option.map_eq_some_iff.mp h
      cases heq
    · obtain ⟨_, hnumber⟩ := Option.dite_none_right_eq_some.mp h
      cases hnumber
  · rintro rfl
    rw [parseValue_cons hc] at h
    simp only [Char.reduceEq, if_false, if_true] at h
    split_ifs at h
    obtain ⟨p, _, heq⟩ := Option.map_eq_some_iff.mp h
    exact ⟨p.1, (Prod.mk.inj heq).1.symm⟩

theorem parseValue_sealed {fuel depth : Nat} {cs rest : List Char} {ms : List (String × Json)}
    (h : parseValue parseString fuel depth cs = some (object ms, rest)) :
    Sealed 0 (fun fuel => parseValue parseString fuel depth) cs rest (object ms) := by
  cases fuel with
  | zero => cases h
  | succ fuel =>
      cases hskip : skipWs cs with
      | nil =>
          rw [parseValue, hskip] at h
          cases h
      | cons c cs' =>
          have hcs := takeWhile_cons_skipWs hskip
          rw [parseValue_skipWs hskip] at h
          obtain rfl := (object_of_parseValue (head_skipWs hskip) h).mp ⟨ms, rfl⟩
          rw [parseValue_cons (by decide)] at h
          simp only [Char.reduceEq, if_false, if_true] at h
          split_ifs at h with hdepth
          obtain ⟨p, hobject, heq⟩ := Option.map_eq_some_iff.mp h
          cases heq
          obtain ⟨used, rfl, hread⟩ := parseObject_sealed hobject
          refine ⟨cs.takeWhile isWs ++ '{' :: used, ?_, fun fuel rest' hfuel => ?_⟩
          · rw [List.append_assoc]
            exact hcs
          · rw [List.length_append, List.length_cons] at hfuel
            obtain ⟨fuel, rfl⟩ : ∃ n, fuel = n + 1 := ⟨fuel - 1, by omega⟩
            have hthen : parseObject parseString fuel (depth - 1) (used ++ '}' :: rest') = some (p.1, rest') :=
              hread fuel rest' (by omega)
            show parseValue parseString (fuel + 1) depth _ = _
            rw [List.append_assoc, List.cons_append, parseValue_skipWs (skipWs_takeWhile hskip _),
              parseValue_cons (by decide)]
            simp only [Char.reduceEq, if_false, if_neg hdepth, hthen, Option.map_some, if_true]

theorem parse_eq_some {cs : List Char} {v : Json} (h : parse cs = some v) :
    ∃ ws, parseValue parseString (3 * cs.length + 1) maxNesting cs = some (v, ws) ∧ ∀ c ∈ ws, isWs c = true := by
  unfold parse at h
  split at h
  · cases h
  · rename_i v' ws hvalue
    split_ifs at h with hws
    cases h
    exact ⟨ws, hvalue, List.dropWhile_eq_nil_iff.mp hws⟩

/-- A beginning of an object that is a value at all is the object, and only whitespace is missing. -/
theorem parse_of_prefix {begins whole : List Char} {ms : List (String × Json)} {v : Json}
    (hwhole : parse whole = some (object ms)) (hbegins : begins <+: whole) (h : parse begins = some v) :
    v = object ms ∧ ∃ ws, whole = begins ++ ws ∧ ∀ c ∈ ws, isWs c = true := by
  obtain ⟨more, rfl⟩ := hbegins
  obtain ⟨ws, hvalue, hws⟩ := parse_eq_some h
  obtain ⟨ws', hvalue', hws'⟩ := parse_eq_some hwhole
  -- both begin with the brace that makes them objects
  have hobject : ∃ ms', v = object ms' := by
    cases hskip : skipWs begins with
    | nil =>
        rw [parseValue, hskip] at hvalue
        cases hvalue
    | cons c cs =>
        have hskip' : skipWs (begins ++ more) = c :: (cs ++ more) := by
          have hsplit : begins ++ more = begins.takeWhile isWs ++ c :: (cs ++ more) := by
            conv_lhs => rw [takeWhile_cons_skipWs hskip]
            rw [List.append_assoc, List.cons_append]
          rw [hsplit]
          exact skipWs_takeWhile hskip _
        rw [parseValue_skipWs hskip'] at hvalue'
        rw [parseValue_skipWs hskip] at hvalue
        have hbrace := (object_of_parseValue (head_skipWs hskip') hvalue').mp ⟨ms, rfl⟩
        exact (object_of_parseValue (head_skipWs hskip) hvalue).mpr hbrace
  obtain ⟨ms', rfl⟩ := hobject
  obtain ⟨used, rfl, hread⟩ := parseValue_sealed hvalue
  have hagain : parseValue parseString (3 * (used ++ '}' :: ws ++ more).length + 1) maxNesting
      (used ++ '}' :: ws ++ more) = some (object ms', ws ++ more) := by
    rw [List.append_assoc, List.cons_append]
    exact hread _ (ws ++ more) (by simp only [List.length_append, List.length_cons]; omega)
  rw [hagain] at hvalue'
  obtain ⟨hsame, hrest⟩ := Prod.mk.inj (Option.some.inj hvalue')
  exact ⟨hsame, more, rfl, fun c hc => hws' c (hrest ▸ List.mem_append_right ws hc)⟩

end Json
