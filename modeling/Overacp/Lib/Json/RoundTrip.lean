import Mathlib.Data.List.TakeWhile
import Overacp.Lib.Json.Text

/-!
# Reading back what was printed

With enough fuel the parser inverts the printer on every value the nesting limit allows, and refuses
every other one. What is printed never holds a line feed, so a value fits on one line.
-/

namespace Json

/-! ### Strings -/

theorem hexValue4_control : ∀ n < 0x20, hexValue4 '0' '0' (hexDigit (n / 16)) (hexDigit (n % 16)) = some n := by
  decide

theorem parseStringBody_control {c : Char} (hc : c.toNat < 0x20) (cs : List Char) :
    parseStringBody ('\\' :: 'u' :: '0' :: '0' :: hexDigit (c.toNat / 16) :: hexDigit (c.toNat % 16) :: cs) =
      (parseStringBody cs).map fun p => (c :: p.1, p.2) := by
  have hscalar : c.toNat < 0xD800 ∨ 0xE000 ≤ c.toNat := by omega
  simp only [parseStringBody, hexValue4_control c.toNat hc, hscalar, ↓reduceIte, Char.ofNat_toNat]

theorem parseStringBody_plain {c : Char} (hquote : c ≠ '"') (hslash : c ≠ '\\') (hc : ¬ c.toNat < 0x20)
    (cs : List Char) : parseStringBody (c :: cs) = (parseStringBody cs).map fun p => (c :: p.1, p.2) := by
  rw [parseStringBody.eq_def]
  split
  · simp_all
  · simp_all
  · simp_all
  · simp_all
  · rename_i heq
    cases heq
    rw [if_neg hc]

theorem parseStringBody_backslash {letter c : Char} (hu : letter ≠ 'u') (hletter : unescape letter = some c)
    (cs : List Char) :
    parseStringBody ('\\' :: letter :: cs) = (parseStringBody cs).map fun p => (c :: p.1, p.2) := by
  simp [parseStringBody, hu, hletter]

/-- A character is written as a letter behind a backslash, by its number, or as it is. -/
theorem escapeChar_cases (c : Char) :
    (∃ letter, letter ≠ 'u' ∧ letter ≠ '\n' ∧ unescape letter = some c ∧ escapeChar c = ['\\', letter]) ∨
      (c.toNat < 0x20 ∧
        escapeChar c = ['\\', 'u', '0', '0', hexDigit (c.toNat / 16), hexDigit (c.toNat % 16)]) ∨
      (c ≠ '"' ∧ c ≠ '\\' ∧ ¬ c.toNat < 0x20 ∧ escapeChar c = [c]) := by
  by_cases hshort : c ∈ ['"', '\\', '\x08', '\x0c', '\n', '\r', '\t']
  · left
    simp only [List.mem_cons, List.not_mem_nil, or_false] at hshort
    rcases hshort with rfl | rfl | rfl | rfl | rfl | rfl | rfl
    · exact ⟨'"', by decide⟩
    · exact ⟨'\\', by decide⟩
    · exact ⟨'b', by decide⟩
    · exact ⟨'f', by decide⟩
    · exact ⟨'n', by decide⟩
    · exact ⟨'r', by decide⟩
    · exact ⟨'t', by decide⟩
  · right
    simp only [List.mem_cons, List.not_mem_nil, or_false, not_or] at hshort
    obtain ⟨hquote, hslash, hb, hf, hn, hr, ht⟩ := hshort
    have hrest : escapeChar c = if c.toNat < 0x20
        then ['\\', 'u', '0', '0', hexDigit (c.toNat / 16), hexDigit (c.toNat % 16)] else [c] := by
      rw [escapeChar, if_neg hquote, if_neg hslash, if_neg hb, if_neg hf, if_neg hn, if_neg hr, if_neg ht]
    by_cases hcontrol : c.toNat < 0x20
    · rw [if_pos hcontrol] at hrest
      exact .inl ⟨hcontrol, hrest⟩
    · rw [if_neg hcontrol] at hrest
      exact .inr ⟨hquote, hslash, hcontrol, hrest⟩

theorem parseStringBody_escapeChar (c : Char) (cs : List Char) :
    parseStringBody (escapeChar c ++ cs) = (parseStringBody cs).map fun p => (c :: p.1, p.2) := by
  rcases escapeChar_cases c with ⟨letter, hu, -, hletter, hescape⟩ | ⟨hcontrol, hescape⟩ |
    ⟨hquote, hslash, hplain, hescape⟩
  · rw [hescape]
    exact parseStringBody_backslash hu hletter cs
  · rw [hescape]
    exact parseStringBody_control hcontrol cs
  · rw [hescape]
    exact parseStringBody_plain hquote hslash hplain cs

theorem parseStringBody_escape (cs rest : List Char) :
    parseStringBody (cs.flatMap escapeChar ++ '"' :: rest) = some (cs, rest) := by
  induction cs with
  | nil => rfl
  | cons c cs ih =>
      rw [List.flatMap_cons, List.append_assoc, parseStringBody_escapeChar, ih]
      rfl

theorem parseString_print (s : String) (rest : List Char) :
    parseString (s.toList.flatMap escapeChar ++ '"' :: rest) = some (s, rest) := by
  rw [parseString, parseStringBody_escape, Option.map_some, String.ofList_toList]

/-! ### Numbers -/

/-- What comes next cannot be read as part of a number. -/
def NoNumberHead (rest : List Char) : Prop := ∀ c ∈ rest.head?, isNumberChar c = false

theorem Number.all_numberChar (n : Number) : ∀ c ∈ n.lexeme, isNumberChar c = true := by
  have hvalid := n.valid
  simp only [isNumber, Bool.and_eq_true] at hvalid
  exact List.all_eq_true.mp hvalid.1

theorem Number.lexeme_ne_nil (n : Number) : n.lexeme ≠ [] := by
  intro hnil
  have hvalid := n.valid
  rw [hnil] at hvalid
  revert hvalid
  decide

theorem takeWhile_lexeme (n : Number) {rest : List Char} (hrest : NoNumberHead rest) :
    (n.lexeme ++ rest).takeWhile isNumberChar = n.lexeme ∧
      (n.lexeme ++ rest).dropWhile isNumberChar = rest := by
  rw [List.takeWhile_append_of_pos n.all_numberChar, List.dropWhile_append_of_pos n.all_numberChar]
  cases rest with
  | nil => simp
  | cons c rest =>
      have hc : isNumberChar c = false := hrest c rfl
      simp only [List.takeWhile_cons, List.dropWhile_cons, hc, Bool.false_eq_true, ↓reduceIte,
        List.append_nil, and_self]

theorem parseNumber_lexeme (n : Number) {rest : List Char} (hrest : NoNumberHead rest) :
    parseNumber (n.lexeme ++ rest) = some (number n, rest) := by
  obtain ⟨htake, hdrop⟩ := takeWhile_lexeme n hrest
  simp only [parseNumber, htake, hdrop, n.valid, ↓reduceDIte]

/-! ### Values -/

theorem skipWs_cons {c : Char} (hc : isWs c = false) (cs : List Char) : skipWs (c :: cs) = c :: cs := by
  rw [skipWs, List.dropWhile_cons, hc]
  rfl

theorem isWs_numberChar {c : Char} (hc : isNumberChar c = true) : isWs c = false := by
  by_contra hws
  simp only [Bool.not_eq_false, isWs, Bool.or_eq_true, decide_eq_true_eq] at hws
  rcases hws with ((rfl | rfl) | rfl) | rfl <;> revert hc <;> decide

/-- A number opens with none of the letters the other values open with. -/
theorem parseValue_number (n : Number) (fuel depth : Nat) {rest : List Char} (hrest : NoNumberHead rest) :
    parseValue parseString (fuel + 1) depth (n.lexeme ++ rest) = some (number n, rest) := by
  have hparse := parseNumber_lexeme n hrest
  have hall := n.all_numberChar
  cases hlex : n.lexeme with
  | nil => exact absurd hlex n.lexeme_ne_nil
  | cons c cs =>
      rw [hlex] at hparse hall
      have hc : isNumberChar c = true := hall c List.mem_cons_self
      have hne : ∀ d, isNumberChar d = false → c ≠ d := by
        rintro d hd rfl
        rw [hc] at hd
        cases hd
      rw [List.cons_append] at hparse ⊢
      simp only [parseValue, skipWs_cons (isWs_numberChar hc), hne 'n' (by decide), hne 't' (by decide),
        hne 'f' (by decide), hne '"' (by decide), hne '[' (by decide), hne '{' (by decide), ↓reduceIte]
      exact hparse

theorem noNumberHead_printElems (vs : List Json) (rest : List Char) :
    NoNumberHead (printElems vs ++ rest) := by
  intro c hc
  cases vs <;> cases hc <;> decide

theorem noNumberHead_printMembers (ms : List (String × Json)) (rest : List Char) :
    NoNumberHead (printMembers ms ++ rest) := by
  intro c hc
  rcases ms with _ | ⟨⟨k, v⟩, ms⟩ <;> cases hc <;> decide

/-- A value is printed with a first character that is neither whitespace nor a closing bracket. -/
theorem print_head (v : Json) : ∃ c cs, v.print = c :: cs ∧ isWs c = false ∧ c ≠ ']' := by
  cases v with
  | null => exact ⟨_, _, rfl, by decide, by decide⟩
  | bool b => cases b <;> exact ⟨_, _, rfl, by decide, by decide⟩
  | number n =>
      rw [print]
      have hall := n.all_numberChar
      cases hlex : n.lexeme with
      | nil => exact absurd hlex n.lexeme_ne_nil
      | cons c cs =>
          rw [hlex] at hall
          have hc : isNumberChar c = true := hall c List.mem_cons_self
          refine ⟨c, cs, rfl, isWs_numberChar hc, ?_⟩
          rintro rfl
          revert hc
          decide
  | string s => exact ⟨_, _, rfl, by decide, by decide⟩
  | array vs => cases vs <;> exact ⟨_, _, rfl, by decide, by decide⟩
  | object ms => rcases ms with _ | ⟨⟨k, v⟩, ms⟩ <;> exact ⟨_, _, rfl, by decide, by decide⟩

theorem length_print_pos (v : Json) : 0 < v.print.length := by
  obtain ⟨c, cs, hprint, -, -⟩ := print_head v
  rw [hprint]
  exact Nat.succ_pos _

theorem parseArray_of_print (v : Json) (fuel depth : Nat) (rest : List Char) :
    parseArray parseString (fuel + 1) depth (v.print ++ rest) =
      (parseValue parseString fuel depth (v.print ++ rest)).bind fun p =>
        (parseElems parseString fuel depth p.2).map fun q => (p.1 :: q.1, q.2) := by
  obtain ⟨c, cs, hprint, hws, hbracket⟩ := print_head v
  rw [hprint, List.cons_append, parseArray, skipWs_cons hws]
  split
  · rename_i heq
    exact absurd (List.cons.inj heq).1 hbracket
  · rfl

theorem parseObject_of_print (k : String) (fuel depth : Nat) (rest : List Char) :
    parseObject parseString (fuel + 1) depth (printString k ++ rest) =
      (parseMember parseString fuel depth (printString k ++ rest)).bind fun p =>
        (parseMembers parseString fuel depth p.2).map fun q => (p.1 :: q.1, q.2) := by
  rw [printString, List.cons_append, parseObject, skipWs_cons (show isWs '"' = false by decide)]
  split
  · rename_i heq
    exact absurd (List.cons.inj heq).1 (by decide)
  · rfl

theorem parseMember_of_value {k : String} {v : Json} {fuel depth : Nat} {rest : List Char}
    (hv : parseValue parseString fuel depth (v.print ++ rest) = if v.nesting ≤ depth then some (v, rest) else none) :
    parseMember parseString (fuel + 1) depth (printString k ++ ':' :: (v.print ++ rest)) =
      if v.nesting ≤ depth then some ((k, v), rest) else none := by
  have hkey := parseString_print k (':' :: (v.print ++ rest))
  simp only [printString, List.cons_append, List.append_assoc, List.nil_append, parseMember,
    skipWs_cons (show isWs '"' = false by decide), hkey, Option.bind_some,
    skipWs_cons (show isWs ':' = false by decide), hv]
  split <;> rfl

/-- Two parsers in a row, each of which succeeds under a bound, succeed under both. -/
theorem bind_within {α : Type} {a : α} {bs : List α} {left right depth : Nat} {mid rest : List Char}
    {first : Option (α × List Char)} {next : List Char → Option (List α × List Char)}
    (hfirst : first = if left ≤ depth then some (a, mid) else none)
    (hnext : next mid = if right ≤ depth then some (bs, rest) else none) :
    (first.bind fun p => (next p.2).map fun q => (p.1 :: q.1, q.2)) =
      if max left right ≤ depth then some (a :: bs, rest) else none := by
  rw [hfirst]
  by_cases hleft : left ≤ depth
  · by_cases hright : right ≤ depth
    · rw [if_pos hleft, if_pos (by omega), Option.bind_some, hnext, if_pos hright, Option.map_some]
    · rw [if_pos hleft, if_neg (by omega), Option.bind_some, hnext, if_neg hright, Option.map_none]
  · rw [if_neg hleft, if_neg (by omega), Option.bind_none]

mutual

/-- A printed value is read back if its nesting is within the limit and refused otherwise. -/
theorem parseValue_print : ∀ (v : Json) (fuel depth : Nat) (rest : List Char),
    3 * v.print.length ≤ fuel → NoNumberHead rest →
      parseValue parseString fuel depth (v.print ++ rest) = if v.nesting ≤ depth then some (v, rest) else none
  | v, 0, depth, rest, hfuel, _ => by
      have hprint := length_print_pos v
      omega
  | null, fuel + 1, depth, rest, _, _ => by
      simp [print, parseValue, skipWs_cons, isWs, keyword, nesting]
  | bool true, fuel + 1, depth, rest, _, _ => by
      simp [print, parseValue, skipWs_cons, isWs, keyword, nesting]
  | bool false, fuel + 1, depth, rest, _, _ => by
      simp [print, parseValue, skipWs_cons, isWs, keyword, nesting]
  | number n, fuel + 1, depth, rest, _, hrest => by
      simp only [print, nesting, Nat.zero_le, ↓reduceIte]
      exact parseValue_number n fuel depth hrest
  | string s, fuel + 1, depth, rest, _, _ => by
      simp [print, printString, parseValue, skipWs_cons, isWs, parseString_print, nesting]
  | array vs, fuel + 1, 0, rest, _, _ => by
      cases vs <;> simp [print, parseValue, skipWs_cons, isWs, nesting]
  | array [], fuel + 1, depth + 1, rest, hfuel, _ => by
      obtain ⟨fuel, rfl⟩ : ∃ f, fuel = f + 1 := ⟨fuel - 1, by simp [print] at hfuel; omega⟩
      simp [print, parseValue, parseArray, skipWs_cons, isWs, nesting, nestingElems]
  | array (v :: vs), fuel + 1, depth + 1, rest, hfuel, _ => by
      simp only [print, List.length_cons, List.length_append] at hfuel
      obtain ⟨fuel, rfl⟩ : ∃ f, fuel = f + 1 := ⟨fuel - 1, by omega⟩
      have hv := parseValue_print v fuel depth (printElems vs ++ rest) (by omega)
        (noNumberHead_printElems vs rest)
      have hvs := parseElems_print vs fuel depth rest (by omega)
      have harray := (parseArray_of_print v fuel depth (printElems vs ++ rest)).trans (bind_within hv hvs)
      simp only [print, List.cons_append, List.append_assoc, parseValue,
        skipWs_cons (show isWs '[' = false by decide), Char.reduceEq, ↓reduceIte, harray, nesting,
        nestingElems, Nat.add_le_add_iff_right]
      split <;> rfl
  | object ms, fuel + 1, 0, rest, _, _ => by
      rcases ms with _ | ⟨⟨k, v⟩, ms⟩ <;> simp [print, parseValue, skipWs_cons, isWs, nesting]
  | object [], fuel + 1, depth + 1, rest, hfuel, _ => by
      obtain ⟨fuel, rfl⟩ : ∃ f, fuel = f + 1 := ⟨fuel - 1, by simp [print] at hfuel; omega⟩
      simp [print, parseValue, parseObject, skipWs_cons, isWs, nesting, nestingMembers]
  | object ((k, v) :: ms), fuel + 1, depth + 1, rest, hfuel, _ => by
      simp only [print, List.length_cons, List.length_append] at hfuel
      obtain ⟨fuel, rfl⟩ : ∃ f, fuel = f + 2 := ⟨fuel - 2, by omega⟩
      have hv := parseValue_print v fuel depth (printMembers ms ++ rest) (by omega)
        (noNumberHead_printMembers ms rest)
      have hms := parseMembers_print ms (fuel + 1) depth rest (by omega)
      have hobject := (parseObject_of_print k (fuel + 1) depth _).trans
        (bind_within (parseMember_of_value (k := k) hv) hms)
      simp only [print, List.cons_append, List.append_assoc, parseValue,
        skipWs_cons (show isWs '{' = false by decide), Char.reduceEq, ↓reduceIte, hobject, nesting,
        nestingMembers, Nat.add_le_add_iff_right]
      split <;> rfl

theorem parseElems_print : ∀ (vs : List Json) (fuel depth : Nat) (rest : List Char),
    3 * (printElems vs).length ≤ fuel →
      parseElems parseString fuel depth (printElems vs ++ rest) =
        if nestingElems vs ≤ depth then some (vs, rest) else none
  | vs, 0, depth, rest, hfuel => by
      cases vs <;> simp [printElems] at hfuel
  | [], fuel + 1, depth, rest, _ => by
      simp [printElems, parseElems, skipWs_cons, isWs, nestingElems]
  | v :: vs, fuel + 1, depth, rest, hfuel => by
      simp only [printElems, List.length_cons, List.length_append] at hfuel
      have hv := parseValue_print v fuel depth (printElems vs ++ rest) (by omega)
        (noNumberHead_printElems vs rest)
      have hvs := parseElems_print vs fuel depth rest (by omega)
      rw [printElems, List.cons_append, List.append_assoc, parseElems,
        skipWs_cons (show isWs ',' = false by decide), nestingElems]
      exact bind_within hv hvs

theorem parseMembers_print : ∀ (ms : List (String × Json)) (fuel depth : Nat) (rest : List Char),
    3 * (printMembers ms).length ≤ fuel →
      parseMembers parseString fuel depth (printMembers ms ++ rest) =
        if nestingMembers ms ≤ depth then some (ms, rest) else none
  | ms, 0, depth, rest, hfuel => by
      rcases ms with _ | ⟨⟨k, v⟩, ms⟩ <;> simp [printMembers] at hfuel
  | [], fuel + 1, depth, rest, _ => by
      simp [printMembers, parseMembers, skipWs_cons, isWs, nestingMembers]
  | (k, v) :: ms, fuel + 1, depth, rest, hfuel => by
      simp only [printMembers, List.length_cons, List.length_append] at hfuel
      obtain ⟨fuel, rfl⟩ : ∃ f, fuel = f + 1 := ⟨fuel - 1, by omega⟩
      have hv := parseValue_print v fuel depth (printMembers ms ++ rest) (by omega)
        (noNumberHead_printMembers ms rest)
      have hms := parseMembers_print ms (fuel + 1) depth rest (by omega)
      rw [printMembers, List.cons_append, List.append_assoc, List.cons_append, List.append_assoc, parseMembers,
        skipWs_cons (show isWs ',' = false by decide), nestingMembers]
      exact bind_within (parseMember_of_value (k := k) hv) hms

end

/-- A printed value, and any whitespace after it, is parsed if the nesting limit allows it. -/
theorem parse_print (v : Json) {ws : List Char} (hws : ∀ c ∈ ws, isWs c = true) :
    parse (v.print ++ ws) = if v.nesting ≤ maxNesting then some v else none := by
  have hrest : NoNumberHead ws := by
    intro c hc
    by_contra hnumber
    have hfalse := isWs_numberChar (Bool.of_not_eq_false hnumber)
    rw [hws c (List.mem_of_mem_head? hc)] at hfalse
    cases hfalse
  have hskip : skipWs ws = [] := List.dropWhile_eq_nil_iff.mpr hws
  have hvalue := parseValue_print v (3 * (v.print ++ ws).length + 1) maxNesting ws
    (by rw [List.length_append]; omega) hrest
  rw [parse, hvalue]
  split
  · rename_i hnone
    split at hnone
    · cases hnone
    · rename_i hdeep
      rw [if_neg hdeep]
  · rename_i w rest hsome
    split at hsome
    · rename_i hle
      cases hsome
      rw [if_pos hskip, if_pos hle]
    · cases hsome

/-! ### One line -/

theorem newline_notMem_escapeChar (c : Char) : '\n' ∉ escapeChar c := by
  have hhex : ∀ n < 0x20, '\n' ≠ hexDigit (n / 16) ∧ '\n' ≠ hexDigit (n % 16) := by decide
  rcases escapeChar_cases c with ⟨letter, -, hletter, -, hescape⟩ | ⟨hcontrol, hescape⟩ | ⟨-, -, hplain, hescape⟩
  · rw [hescape]
    simp [hletter.symm]
  · rw [hescape]
    have hdigits := hhex c.toNat hcontrol
    simp [hdigits]
  · rw [hescape, List.mem_singleton]
    rintro rfl
    exact hplain (by decide)

theorem newline_notMem_printString (s : String) : '\n' ∉ printString s := by
  simp only [printString, List.mem_cons, List.mem_append, List.mem_flatMap, List.not_mem_nil, or_false,
    not_or, not_exists, not_and]
  exact ⟨by decide, fun c _ => newline_notMem_escapeChar c, by decide⟩

mutual

theorem newline_notMem_print : ∀ v : Json, '\n' ∉ v.print
  | null => by decide
  | bool true => by decide
  | bool false => by decide
  | number n => by
      intro hmem
      have hchar := n.all_numberChar '\n' hmem
      revert hchar
      decide
  | string s => newline_notMem_printString s
  | array [] => by decide
  | array (v :: vs) => by
      simp only [print, List.mem_cons, List.mem_append, not_or]
      exact ⟨by decide, newline_notMem_print v, newline_notMem_printElems vs⟩
  | object [] => by decide
  | object ((k, v) :: ms) => by
      simp only [print, List.mem_cons, List.mem_append, not_or]
      exact ⟨by decide, newline_notMem_printString k, by decide, newline_notMem_print v,
        newline_notMem_printMembers ms⟩

theorem newline_notMem_printElems : ∀ vs : List Json, '\n' ∉ printElems vs
  | [] => by decide
  | v :: vs => by
      simp only [printElems, List.mem_cons, List.mem_append, not_or]
      exact ⟨by decide, newline_notMem_print v, newline_notMem_printElems vs⟩

theorem newline_notMem_printMembers : ∀ ms : List (String × Json), '\n' ∉ printMembers ms
  | [] => by decide
  | (k, v) :: ms => by
      simp only [printMembers, List.mem_cons, List.mem_append, not_or]
      exact ⟨by decide, newline_notMem_printString k, by decide, newline_notMem_print v,
        newline_notMem_printMembers ms⟩

end

end Json
