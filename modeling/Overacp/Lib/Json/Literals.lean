import Mathlib.Data.List.Infix
import Mathlib.Data.List.Forall2
import Overacp.Lib.Json.RoundTrip

/-!
# The strings of a text

What a text of the grammar holds between quotes, one literal after the other, spells the keys and the
strings of its value, in order. So a word that is looked for in the text together with the quote before
it is found inside one of the literals or not at all: no word follows the quote that closes one.
-/

namespace Json

/-! ### Literals and strings -/

mutual

/-- The string literals of a text as they are spelt, without the quotes around them. -/
def literals : List Char → List (List Char)
  | [] => []
  | c :: cs => if c = '"' then literalsFrom [] cs else literals cs

/-- The same from within a literal; what has been read of it is reversed. -/
def literalsFrom : List Char → List Char → List (List Char)
  | _, [] => []
  | raw, '"' :: cs => raw.reverse :: literals cs
  | raw, '\\' :: c :: cs => literalsFrom (c :: '\\' :: raw) cs
  | raw, c :: cs => literalsFrom (c :: raw) cs

end

mutual

/-- The keys and strings of a value, in the order of the text. -/
def strings : Json → List String
  | string s => [s]
  | array elems => stringsElems elems
  | object members => stringsMembers members
  | _ => []

def stringsElems : List Json → List String
  | [] => []
  | v :: vs => v.strings ++ stringsElems vs

def stringsMembers : List (String × Json) → List String
  | [] => []
  | (k, v) :: ms => k :: (v.strings ++ stringsMembers ms)

end

/-- Between quotes the spelling reads as the string. -/
def Spells (raw : List Char) (s : String) : Prop := parseStringBody (raw ++ ['"']) = some (s.toList, [])

/-- A literal as it stands in the text. -/
def quote (raw : List Char) : List Char := '"' :: (raw ++ ['"'])

/-! ### Inside a literal -/

/-- No quote of it is the one that closes the literal. -/
def Inner (raw : List Char) : Prop :=
  ∀ before rest, literalsFrom before (raw ++ rest) = literalsFrom (raw.reverse ++ before) rest

namespace Inner

theorem nil : Inner [] := fun _ _ => rfl

theorem append {raw raw' : List Char} (h : Inner raw) (h' : Inner raw') : Inner (raw ++ raw') := by
  intro before rest
  rw [List.append_assoc, h, h', List.reverse_append, List.append_assoc]

theorem plain {c : Char} (hquote : c ≠ '"') (hslash : c ≠ '\\') : Inner [c] := by
  intro before rest
  rw [List.singleton_append, literalsFrom.eq_def]
  split
  · simp_all
  · simp_all
  · simp_all
  · rename_i heq
    cases heq
    rfl

theorem escape (c : Char) : Inner ['\\', c] := fun _ _ => rfl

end Inner

theorem hexValue_plain {c : Char} {n : Nat} (h : hexValue c = some n) : Inner [c] := by
  apply Inner.plain
  · rintro rfl
    rw [show hexValue '"' = none by decide] at h
    cases h
  · rintro rfl
    rw [show hexValue '\\' = none by decide] at h
    cases h

theorem hexValue4_plain {a b c d : Char} {n : Nat} (h : hexValue4 a b c d = some n) :
    Inner [a, b, c, d] := by
  unfold hexValue4 at h
  split at h
  · rename_i ha hb hc hd
    exact (hexValue_plain ha).append ((hexValue_plain hb).append
      ((hexValue_plain hc).append (hexValue_plain hd)))
  · cases h

/-- The spelling of one character within a literal. -/
structure ReadsAs (piece : List Char) (c : Char) : Prop where
  inner : Inner piece
  read : ∀ more, parseStringBody (piece ++ more) = (parseStringBody more).map fun p => (c :: p.1, p.2)

/-- The literal ends at a quote before `rest`, and reads the same whatever follows that quote. -/
def Closes (cs chars rest : List Char) : Prop :=
  ∃ raw, cs = raw ++ '"' :: rest ∧ Inner raw ∧
    ∀ more, parseStringBody (raw ++ '"' :: more) = some (chars, more)

theorem ReadsAs.closes {piece cs chars rest : List Char} {c : Char} (hpiece : ReadsAs piece c)
    (h : (parseStringBody cs).map (fun p => (c :: p.1, p.2)) = some (chars, rest))
    (hcloses : ∀ {chars'}, parseStringBody cs = some (chars', rest) → Closes cs chars' rest) :
    Closes (piece ++ cs) chars rest := by
  obtain ⟨⟨chars', rest'⟩, hread, heq⟩ := Option.map_eq_some_iff.mp h
  cases heq
  obtain ⟨raw, hcs, hinner, hmore⟩ := hcloses hread
  refine ⟨piece ++ raw, by rw [hcs, List.append_assoc], hpiece.inner.append hinner, fun more => ?_⟩
  rw [List.append_assoc, hpiece.read, hmore]
  rfl

theorem parseStringBody_unescape {c c' : Char} (h : unescape c = some c') (cs : List Char) :
    parseStringBody ('\\' :: c :: cs) = (parseStringBody cs).map fun p => (c' :: p.1, p.2) := by
  rw [parseStringBody.eq_def]
  split
  · rename_i heq
    cases heq
  · rename_i heq
    cases heq
  · rename_i heq
    cases heq
    rw [show unescape 'u' = none by decide] at h
    cases h
  · rename_i heq
    cases heq
    rw [h]
  · rename_i hescape heq
    cases heq
    exact absurd rfl (hescape c cs rfl)

/-- A literal that is read ends at the first quote that is not escaped, whatever follows it. -/
theorem parseStringBody_closes {cs chars rest : List Char}
    (h : parseStringBody cs = some (chars, rest)) : Closes cs chars rest := by
  fun_induction parseStringBody cs generalizing chars with
  | case1 => cases h
  | case2 cs =>
      cases h
      exact ⟨[], rfl, .nil, fun _ => rfl⟩
  | case3 => cases h
  | case4 a b c d cs n hhex hscalar ih =>
      refine @ReadsAs.closes ['\\', 'u', a, b, c, d] cs chars rest _
        ⟨(Inner.escape 'u').append (hexValue4_plain hhex), fun more => ?_⟩ h ih
      simp only [List.cons_append, List.nil_append, parseStringBody, hhex, if_pos hscalar]
  | case5 => cases h
  | case6 a b c d n hhigh hscalar e f g k cs m hlow hpair ih =>
      refine @ReadsAs.closes ['\\', 'u', a, b, c, d, '\\', 'u', e, f, g, k] cs chars rest _
        ⟨((Inner.escape 'u').append (hexValue4_plain hhigh)).append
          ((Inner.escape 'u').append (hexValue4_plain hlow)), fun more => ?_⟩ h ih
      simp only [List.cons_append, List.nil_append, parseStringBody, hhigh, if_neg hscalar, hlow, if_pos hpair]
  | case7 => cases h
  | case8 => cases h
  | case9 => cases h
  | case10 c cs hu c' hunescape ih =>
      exact @ReadsAs.closes ['\\', c] cs chars rest c'
        ⟨.escape c, fun more => parseStringBody_unescape hunescape more⟩ h ih
  | case11 => cases h
  | case12 c cs hquote hu hescape hcontrol ih =>
      have hslash : c ≠ '\\' := by
        rintro rfl
        cases cs with
        | nil => cases h
        | cons d cs => exact hescape d cs rfl rfl
      exact @ReadsAs.closes [c] cs chars rest c
        ⟨.plain hquote hslash, fun more => parseStringBody_plain hquote hslash hcontrol more⟩ h ih

theorem parseStringBody_of_control {c : Char} (hc : c.toNat < 0x20) (cs : List Char) :
    parseStringBody (c :: cs) = none := by
  rw [parseStringBody.eq_def]
  split
  · rfl
  · rename_i heq
    cases heq
    exact absurd hc (by decide)
  · rename_i heq
    cases heq
    exact absurd hc (by decide)
  · rename_i heq
    cases heq
    exact absurd hc (by decide)
  · rename_i heq
    cases heq
    rw [if_pos hc]

/-- A literal without a backslash spells itself. -/
theorem Spells.eq_toList {raw : List Char} {s : String} (h : Spells raw s) (hraw : '\\' ∉ raw) :
    raw = s.toList := by
  have hread : ∀ chars, parseStringBody (raw ++ ['"']) = some (chars, []) → raw = chars := by
    clear h
    induction raw with
    | nil =>
        intro chars hchars
        cases hchars
        rfl
    | cons c raw ih =>
        intro chars hchars
        rw [List.mem_cons, not_or] at hraw
        by_cases hquote : c = '"'
        · subst hquote
          rw [List.cons_append, parseStringBody] at hchars
          have hnil := congrArg Prod.snd (Option.some.inj hchars)
          exact absurd hnil (List.append_ne_nil_of_right_ne_nil _ (List.cons_ne_nil _ _))
        · by_cases hcontrol : c.toNat < 0x20
          · rw [List.cons_append, parseStringBody_of_control hcontrol] at hchars
            cases hchars
          · rw [List.cons_append, parseStringBody_plain hquote (Ne.symm hraw.1) hcontrol] at hchars
            obtain ⟨⟨chars', rest'⟩, hrest, heq⟩ := Option.map_eq_some_iff.mp hchars
            cases heq
            rw [ih hraw.2 chars' hrest]
  exact hread _ h

/-! ### A quote and a word -/

/-- What a quote and a word look like in a text; one more quote may stand at the end. -/
structure QuotedWord where
  first : Char
  rest : List Char
  alpha : first.isAlpha = true
  inner : '"' ∉ rest.dropLast

namespace QuotedWord

def text (w : QuotedWord) : List Char := '"' :: w.first :: w.rest

variable (w : QuotedWord)

theorem first_ne_quote : w.first ≠ '"' := by
  intro hquote
  have halpha := w.alpha
  rw [hquote] at halpha
  revert halpha
  decide

theorem inner_cons : '"' ∉ (w.first :: w.rest).dropLast := by
  cases hrest : w.rest with
  | nil => exact List.not_mem_nil
  | cons c rest =>
      rw [List.dropLast_cons_cons, List.mem_cons, not_or]
      exact ⟨w.first_ne_quote.symm, hrest ▸ w.inner⟩

/-- It does not begin before the first quote. -/
theorem infix_append_iff {before : List Char} (hbefore : '"' ∉ before) (cs : List Char) :
    w.text <:+: before ++ cs ↔ w.text <:+: cs := by
  induction before with
  | nil => exact Iff.rfl
  | cons c before ih =>
      rw [List.mem_cons, not_or] at hbefore
      rw [List.cons_append, List.infix_cons_iff, ih hbefore.2]
      refine or_iff_right fun hstart => ?_
      exact hbefore.1 (List.cons_prefix_cons.mp hstart).1

/-- It does not go on past a quote, and does not begin with one that no letter follows. -/
theorem infix_quote_iff {after : List Char} (hafter : ∀ c ∈ after.head?, c.isAlpha = false)
    (cs : List Char) :
    w.text <:+: cs ++ '"' :: after ↔ w.text <:+: cs ++ ['"'] ∨ w.text <:+: after := by
  induction cs with
  | nil =>
      rw [List.nil_append, List.nil_append, List.infix_cons_iff]
      refine or_congr (iff_of_false ?_ ?_) Iff.rfl
      · intro hstart
        obtain ⟨more, hmore⟩ := (List.cons_prefix_cons.mp hstart).2
        have hfalse := hafter w.first (by rw [← hmore]; rfl)
        rw [w.alpha] at hfalse
        cases hfalse
      · intro hword
        have hlength := hword.length_le
        simp only [text, List.length_cons, List.length_nil] at hlength
        omega
  | cons c cs ih =>
      rw [List.cons_append, List.cons_append, List.infix_cons_iff, List.infix_cons_iff, ih, or_assoc]
      refine or_congr ⟨fun hstart => ?_, fun hstart => ?_⟩ Iff.rfl
      · have hclosed : c :: (cs ++ ['"']) <+: c :: (cs ++ '"' :: after) :=
          ⟨after, by rw [List.cons_append, List.append_assoc]; rfl⟩
        rcases List.prefix_or_prefix_of_prefix hstart hclosed with hwithin | ⟨more, hpast⟩
        · exact hwithin
        · -- a quote of it that is not the last one cannot be the closing one
          have hword : w.first :: w.rest = cs ++ '"' :: more :=
            (List.cons.inj hpast).2.symm.trans (List.append_assoc cs ['"'] more)
          cases more with
          | nil =>
              rw [List.append_nil] at hpast
              rw [hpast]
          | cons d more =>
              have hinner := w.inner_cons
              rw [hword, List.dropLast_append_of_ne_nil (List.cons_ne_nil _ _), List.dropLast_cons_cons] at hinner
              exact absurd (List.mem_append_right cs List.mem_cons_self) hinner
      · refine hstart.trans ⟨after, ?_⟩
        rw [List.cons_append, List.append_assoc]
        rfl

end QuotedWord

/-! ### From one place in a text to a later one -/

/-- No word begins there. -/
def NotWord (rest : List Char) : Prop := ∀ c ∈ rest.head?, c.isAlpha = false

/-- The literals between the two places, and where a quoted word can be found. -/
structure Spans (cs rest : List Char) (raws : List (List Char)) : Prop where
  literals : literals cs = raws ++ literals rest
  contains : ∀ w : QuotedWord,
    w.text <:+: cs ↔ (∃ raw ∈ raws, w.text <:+: quote raw) ∨ w.text <:+: rest

namespace Spans

variable {cs mid rest : List Char} {raws raws' : List (List Char)}

theorem trans (h : Spans cs mid raws) (h' : Spans mid rest raws') : Spans cs rest (raws ++ raws') where
  literals := by rw [h.literals, h'.literals, List.append_assoc]
  contains w := by
    rw [h.contains w, h'.contains w, ← or_assoc]
    simp only [List.mem_append, or_and_right, exists_or]

/-- What holds no quote. -/
theorem append {before : List Char} (hbefore : '"' ∉ before) (cs : List Char) :
    Spans (before ++ cs) cs [] where
  literals := by
    induction before with
    | nil => rfl
    | cons c before ih =>
        rw [List.mem_cons, not_or] at hbefore
        rw [List.cons_append, Json.literals, if_neg (Ne.symm hbefore.1)]
        exact ih hbefore.2
  contains w := by
    rw [w.infix_append_iff hbefore]
    simp

theorem cons {c : Char} (hc : c ≠ '"') (cs : List Char) : Spans (c :: cs) cs [] :=
  @append [c] (by simpa using Ne.symm hc) cs

theorem skipWs (cs : List Char) : Spans cs (skipWs cs) [] := by
  have hws : '"' ∉ cs.takeWhile isWs := fun hmem => absurd (List.mem_takeWhile_imp hmem) (by decide)
  have h := append hws (cs.dropWhile isWs)
  rw [List.takeWhile_append_dropWhile] at h
  exact h

/-- One literal, with no word after it. -/
theorem literal {chars : List Char} (h : parseStringBody cs = some (chars, rest)) (hrest : NotWord rest) :
    ∃ raw, Spans ('"' :: cs) rest [raw] ∧ Spells raw (String.ofList chars) := by
  obtain ⟨raw, hcs, hinner, hmore⟩ := parseStringBody_closes h
  refine ⟨raw, ⟨?_, fun w => ?_⟩, ?_⟩
  · rw [Json.literals, if_pos rfl, hcs, hinner, List.append_nil, literalsFrom, List.reverse_reverse]
    rfl
  · rw [hcs, ← List.cons_append, w.infix_quote_iff hrest]
    simp only [List.mem_singleton, exists_eq_left, quote, List.cons_append]
  · rw [Spells, String.toList_ofList]
    exact hmore []

end Spans

/-- The literals on the way spell the strings. -/
def Reads (cs rest : List Char) (ss : List String) : Prop :=
  ∃ raws, Spans cs rest raws ∧ List.Forall₂ Spells raws ss

namespace Reads

variable {cs mid rest : List Char} {ss ss' : List String}

theorem of_spans (h : Spans cs rest []) : Reads cs rest [] := ⟨[], h, .nil⟩

theorem trans (h : Reads cs mid ss) (h' : Reads mid rest ss') : Reads cs rest (ss ++ ss') := by
  obtain ⟨raws, hspans, hspell⟩ := h
  obtain ⟨raws', hspans', hspell'⟩ := h'
  exact ⟨raws ++ raws', hspans.trans hspans', List.rel_append hspell hspell'⟩

/-- Something without a quote comes first. -/
theorem after (h : Spans cs mid []) (h' : Reads mid rest ss) : Reads cs rest ss := (of_spans h).trans h'

theorem string {s : String} (h : parseString cs = some (s, rest)) (hrest : NotWord rest) :
    Reads ('"' :: cs) rest [s] := by
  obtain ⟨⟨chars, rest'⟩, hbody, heq⟩ := Option.map_eq_some_iff.mp h
  cases heq
  obtain ⟨raw, hspans, hspells⟩ := Spans.literal hbody hrest
  exact ⟨[raw], hspans, .cons hspells .nil⟩

end Reads

/-! ### The parser -/

theorem notWord_of_skipWs {cs rest : List Char} {c : Char} (h : skipWs cs = c :: rest)
    (hc : c.isAlpha = false) : NotWord cs := by
  intro d hd
  cases cs with
  | nil => cases hd
  | cons e cs =>
      cases hd
      by_cases hws : isWs d = true
      · simp only [isWs, Bool.or_eq_true, decide_eq_true_eq] at hws
        rcases hws with ((rfl | rfl) | rfl) | rfl <;> decide
      · rw [skipWs_cons ((Bool.not_eq_true _).mp hws)] at h
        rw [(List.cons.inj h).1]
        exact hc

theorem notWord_of_skipWs_nil {cs : List Char} (h : skipWs cs = []) : NotWord cs := by
  intro c hc
  have hws : isWs c = true := List.dropWhile_eq_nil_iff.mp h c (List.mem_of_mem_head? hc)
  simp only [isWs, Bool.or_eq_true, decide_eq_true_eq] at hws
  rcases hws with ((rfl | rfl) | rfl) | rfl <;> decide

theorem keyword_reads {letters cs rest : List Char} {value v : Json}
    (h : keyword letters value cs = some (v, rest)) (hletters : '"' ∉ letters) :
    v = value ∧ Reads cs rest [] := by
  unfold keyword at h
  split at h
  · rename_i hbegins
    obtain ⟨more, hmore⟩ := List.isPrefixOf_iff_prefix.mp hbegins
    cases h
    refine ⟨rfl, ?_⟩
    rw [← hmore, List.drop_left]
    exact .of_spans (.append hletters more)
  · cases h

theorem parseNumber_reads {cs rest : List Char} {v : Json} (h : parseNumber cs = some (v, rest)) :
    v.strings = [] ∧ Reads cs rest [] := by
  unfold parseNumber at h
  split at h
  · cases h
    refine ⟨rfl, ?_⟩
    have hquote : '"' ∉ cs.takeWhile isNumberChar := fun hmem =>
      absurd (List.mem_takeWhile_imp hmem) (by decide)
    have hspans := Spans.append hquote (cs.dropWhile isNumberChar)
    rw [List.takeWhile_append_dropWhile] at hspans
    exact .of_spans hspans
  · cases h

/-- With so much fuel, whatever is parsed is what the literals on the way spell. -/
structure Sound (fuel : Nat) : Prop where
  value : ∀ {depth cs v rest}, parseValue parseString fuel depth cs = some (v, rest) → NotWord rest →
    Reads cs rest v.strings
  array : ∀ {depth cs vs rest}, parseArray parseString fuel depth cs = some (vs, rest) →
    Reads cs rest (stringsElems vs)
  elems : ∀ {depth cs vs rest}, parseElems parseString fuel depth cs = some (vs, rest) →
    NotWord cs ∧ Reads cs rest (stringsElems vs)
  member : ∀ {depth cs k v rest}, parseMember parseString fuel depth cs = some ((k, v), rest) → NotWord rest →
    Reads cs rest (k :: v.strings)
  object : ∀ {depth cs ms rest}, parseObject parseString fuel depth cs = some (ms, rest) →
    Reads cs rest (stringsMembers ms)
  members : ∀ {depth cs ms rest}, parseMembers parseString fuel depth cs = some (ms, rest) →
    NotWord cs ∧ Reads cs rest (stringsMembers ms)

theorem sound_zero : Sound 0 where
  value h := by cases h
  array h := by cases h
  elems h := by cases h
  member h := by cases h
  object h := by cases h
  members h := by cases h

section

variable {fuel : Nat} (ih : Sound fuel) {depth : Nat} {cs rest : List Char}
include ih

theorem Sound.value_succ {v : Json} (h : parseValue parseString (fuel + 1) depth cs = some (v, rest))
    (hrest : NotWord rest) : Reads cs rest v.strings := by
  refine Reads.after (Spans.skipWs cs) ?_
  unfold parseValue at h
  split at h
  · cases h
  · rename_i c cs' hskip
    rw [hskip]
    split_ifs at h with hnull htrue hfalse hquote hbracket hbrace
    · obtain ⟨rfl, hreads⟩ := keyword_reads h (by decide)
      exact .after (.cons (hnull ▸ by decide) _) hreads
    · obtain ⟨rfl, hreads⟩ := keyword_reads h (by decide)
      exact .after (.cons (htrue ▸ by decide) _) hreads
    · obtain ⟨rfl, hreads⟩ := keyword_reads h (by decide)
      exact .after (.cons (hfalse ▸ by decide) _) hreads
    · obtain ⟨⟨s, rest'⟩, hstring, heq⟩ := Option.map_eq_some_iff.mp h
      cases heq
      subst hquote
      exact Reads.string hstring hrest
    · cases depth with
      | zero => cases h
      | succ depth =>
          obtain ⟨⟨vs, rest'⟩, harray, heq⟩ := Option.map_eq_some_iff.mp h
          cases heq
          exact .after (.cons (hbracket ▸ by decide) _) (ih.array harray)
    · cases depth with
      | zero => cases h
      | succ depth =>
          obtain ⟨⟨ms, rest'⟩, hobject, heq⟩ := Option.map_eq_some_iff.mp h
          cases heq
          exact .after (.cons (hbrace ▸ by decide) _) (ih.object hobject)
    · obtain ⟨hstrings, hreads⟩ := parseNumber_reads h
      rw [hstrings]
      exact hreads

/-- An element and the ones after it. -/
theorem Sound.elem {vs : List Json}
    (h : ((parseValue parseString fuel depth cs).bind fun p =>
      (parseElems parseString fuel depth p.2).map fun q => (p.1 :: q.1, q.2)) = some (vs, rest)) :
    Reads cs rest (stringsElems vs) := by
  obtain ⟨⟨v, mid⟩, hvalue, hmore⟩ := Option.bind_eq_some_iff.mp h
  obtain ⟨⟨vs', rest'⟩, helems, heq⟩ := Option.map_eq_some_iff.mp hmore
  cases heq
  obtain ⟨hmid, hreads⟩ := ih.elems helems
  exact (ih.value hvalue hmid).trans hreads

/-- A member and the ones after it. -/
theorem Sound.memberThen {ms : List (String × Json)}
    (h : ((parseMember parseString fuel depth cs).bind fun p =>
      (parseMembers parseString fuel depth p.2).map fun q => (p.1 :: q.1, q.2)) = some (ms, rest)) :
    Reads cs rest (stringsMembers ms) := by
  obtain ⟨⟨⟨k, v⟩, mid⟩, hmember, hmore⟩ := Option.bind_eq_some_iff.mp h
  obtain ⟨⟨ms', rest'⟩, hmembers, heq⟩ := Option.map_eq_some_iff.mp hmore
  cases heq
  obtain ⟨hmid, hreads⟩ := ih.members hmembers
  exact (ih.member hmember hmid).trans hreads

theorem Sound.array_succ {vs : List Json} (h : parseArray parseString (fuel + 1) depth cs = some (vs, rest)) :
    Reads cs rest (stringsElems vs) := by
  refine Reads.after (Spans.skipWs cs) ?_
  unfold parseArray at h
  split at h
  · rename_i cs' hskip
    cases h
    rw [hskip]
    exact .of_spans (.cons (by decide) _)
  · exact ih.elem h

theorem Sound.elems_succ {vs : List Json} (h : parseElems parseString (fuel + 1) depth cs = some (vs, rest)) :
    NotWord cs ∧ Reads cs rest (stringsElems vs) := by
  unfold parseElems at h
  split at h
  · rename_i cs' hskip
    cases h
    refine ⟨notWord_of_skipWs hskip (by decide), .after (Spans.skipWs cs) ?_⟩
    rw [hskip]
    exact .of_spans (.cons (by decide) _)
  · rename_i cs' hskip
    refine ⟨notWord_of_skipWs hskip (by decide), .after (Spans.skipWs cs) ?_⟩
    rw [hskip]
    exact .after (.cons (by decide) _) (ih.elem h)
  · cases h

theorem Sound.member_succ {k : String} {v : Json}
    (h : parseMember parseString (fuel + 1) depth cs = some ((k, v), rest)) (hrest : NotWord rest) :
    Reads cs rest (k :: v.strings) := by
  refine Reads.after (Spans.skipWs cs) ?_
  unfold parseMember at h
  split at h
  · rename_i cs' hskip
    rw [hskip]
    obtain ⟨⟨k', mid⟩, hkey, hmore⟩ := Option.bind_eq_some_iff.mp h
    dsimp only at hmore
    split at hmore
    · rename_i cs'' hcolon
      obtain ⟨⟨v', rest'⟩, hvalue, heq⟩ := Option.map_eq_some_iff.mp hmore
      cases heq
      refine (Reads.string hkey (notWord_of_skipWs hcolon (by decide))).trans (.after (Spans.skipWs mid) ?_)
      rw [hcolon]
      exact .after (.cons (by decide) _) (ih.value hvalue hrest)
    · cases hmore
  · cases h

theorem Sound.object_succ {ms : List (String × Json)}
    (h : parseObject parseString (fuel + 1) depth cs = some (ms, rest)) : Reads cs rest (stringsMembers ms) := by
  refine Reads.after (Spans.skipWs cs) ?_
  unfold parseObject at h
  split at h
  · rename_i cs' hskip
    cases h
    rw [hskip]
    exact .of_spans (.cons (by decide) _)
  · exact ih.memberThen h

theorem Sound.members_succ {ms : List (String × Json)}
    (h : parseMembers parseString (fuel + 1) depth cs = some (ms, rest)) :
    NotWord cs ∧ Reads cs rest (stringsMembers ms) := by
  unfold parseMembers at h
  split at h
  · rename_i cs' hskip
    cases h
    refine ⟨notWord_of_skipWs hskip (by decide), .after (Spans.skipWs cs) ?_⟩
    rw [hskip]
    exact .of_spans (.cons (by decide) _)
  · rename_i cs' hskip
    refine ⟨notWord_of_skipWs hskip (by decide), .after (Spans.skipWs cs) ?_⟩
    rw [hskip]
    exact .after (.cons (by decide) _) (ih.memberThen h)
  · cases h

end

theorem sound : ∀ fuel, Sound fuel
  | 0 => sound_zero
  | fuel + 1 =>
      have ih := sound fuel
      { value := ih.value_succ
        array := ih.array_succ
        elems := ih.elems_succ
        member := ih.member_succ
        object := ih.object_succ
        members := ih.members_succ }

/-! ### Whole texts -/

theorem parse_reads {cs : List Char} {v : Json} (h : parse cs = some v) :
    ∃ rest, '"' ∉ rest ∧ Reads cs rest v.strings := by
  unfold parse at h
  split at h
  · cases h
  · rename_i v' rest hvalue
    split at h
    · rename_i hskip
      cases h
      refine ⟨rest, fun hmem => ?_, (sound _).value hvalue (notWord_of_skipWs_nil hskip)⟩
      exact absurd (List.dropWhile_eq_nil_iff.mp hskip _ hmem) (by decide)
    · cases h

theorem literals_of_no_quote {cs : List Char} (h : '"' ∉ cs) : literals cs = [] := by
  have hspans := Spans.append h []
  rw [List.append_nil] at hspans
  exact hspans.literals

/-- The literals of a text spell the strings of its value, in order. -/
theorem literals_spell {cs : List Char} {v : Json} (h : parse cs = some v) :
    List.Forall₂ Spells (literals cs) v.strings := by
  obtain ⟨rest, hrest, raws, hspans, hspell⟩ := parse_reads h
  rw [hspans.literals, literals_of_no_quote hrest, List.append_nil]
  exact hspell

/-- A quoted word is found in a text if and only if it is found in one of its literals. -/
theorem quotedWord_iff {cs : List Char} {v : Json} (h : parse cs = some v) (w : QuotedWord) :
    w.text <:+: cs ↔ ∃ raw ∈ literals cs, w.text <:+: quote raw := by
  obtain ⟨rest, hrest, raws, hspans, hspell⟩ := parse_reads h
  rw [hspans.literals, literals_of_no_quote hrest, List.append_nil, hspans.contains w]
  have hnone := w.infix_append_iff hrest []
  rw [List.append_nil] at hnone
  rw [hnone, List.infix_nil]
  exact or_iff_left (List.cons_ne_nil _ _)

/-! ### Texts without a backslash -/

mutual

theorem literals_plain : ∀ cs : List Char, '\\' ∉ cs → ∀ raw ∈ literals cs, '\\' ∉ raw ∧ '"' ∉ raw
  | [], _, raw, hraw => nomatch hraw
  | c :: cs, hcs, raw, hraw => by
      rw [List.mem_cons, not_or] at hcs
      rw [literals] at hraw
      split at hraw
      · exact literalsFrom_plain cs [] hcs.2 List.not_mem_nil List.not_mem_nil raw hraw
      · exact literals_plain cs hcs.2 raw hraw

theorem literalsFrom_plain : ∀ cs before : List Char, '\\' ∉ cs → '\\' ∉ before → '"' ∉ before →
    ∀ raw ∈ literalsFrom before cs, '\\' ∉ raw ∧ '"' ∉ raw
  | [], _, _, _, _, raw, hraw => nomatch hraw
  | c :: cs, before, hcs, hslash, hquote, raw, hraw => by
      rw [List.mem_cons, not_or] at hcs
      by_cases hc : c = '"'
      · subst hc
        rw [literalsFrom] at hraw
        rcases List.mem_cons.mp hraw with rfl | hraw
        · exact ⟨mt List.mem_reverse.mp hslash, mt List.mem_reverse.mp hquote⟩
        · exact literals_plain cs hcs.2 raw hraw
      · have hplain := Inner.plain hc (Ne.symm hcs.1) before cs
        rw [List.singleton_append] at hplain
        rw [hplain] at hraw
        refine literalsFrom_plain cs (c :: before) hcs.2 ?_ ?_ raw hraw
        · exact List.not_mem_cons_of_ne_of_not_mem hcs.1 hslash
        · exact List.not_mem_cons_of_ne_of_not_mem (Ne.symm hc) hquote

end

theorem Spells.eq_map {raws : List (List Char)} {ss : List String} (h : List.Forall₂ Spells raws ss)
    (hraws : ∀ raw ∈ raws, '\\' ∉ raw) : raws = ss.map String.toList := by
  induction h with
  | nil => rfl
  | cons hfirst _ ih =>
      rw [List.map_cons, hfirst.eq_toList (hraws _ List.mem_cons_self),
        ih fun raw hraw => hraws raw (List.mem_cons_of_mem _ hraw)]

/-- Without a backslash the literals of a text are the strings of its value. -/
theorem literals_eq_strings {cs : List Char} {v : Json} (h : parse cs = some v) (hcs : '\\' ∉ cs) :
    literals cs = v.strings.map String.toList :=
  Spells.eq_map (literals_spell h) fun raw hraw => (literals_plain cs hcs raw hraw).1

namespace QuotedWord

/-- Without a quote inside, a literal holds a quoted word if and only if it begins with the word. -/
theorem infix_quote_of_plain (w : QuotedWord) {raw : List Char} (hraw : '"' ∉ raw) :
    w.text <:+: quote raw ↔ w.first :: w.rest <+: raw ++ ['"'] := by
  rw [quote, List.infix_cons_iff, w.infix_append_iff hraw, text, List.cons_prefix_cons]
  refine ⟨fun h => ?_, fun h => .inl ⟨rfl, h⟩⟩
  rcases h with h | h
  · exact h.2
  · have hlength := h.length_le
    simp only [List.length_cons, List.length_nil] at hlength
    omega

/-- A word with a quote after it is the whole literal. -/
theorem closed_prefix_iff {word raw : List Char} (hraw : '"' ∉ raw) :
    word ++ ['"'] <+: raw ++ ['"'] ↔ word = raw := by
  constructor
  · intro h
    rcases List.prefix_concat_iff.mp h with heq | hbegins
    · exact List.append_cancel_right heq
    · exact absurd (hbegins.subset (List.mem_append_right _ List.mem_cons_self)) hraw
  · rintro rfl
    exact List.prefix_rfl

theorem open_prefix_iff {word raw : List Char} (hword : '"' ∉ word) :
    word <+: raw ++ ['"'] ↔ word <+: raw := by
  constructor
  · intro h
    rcases List.prefix_concat_iff.mp h with heq | hbegins
    · rw [heq] at hword
      exact absurd (List.mem_append_right _ List.mem_cons_self) hword
    · exact hbegins
  · exact fun h => h.trans (List.prefix_append _ _)

end QuotedWord

/-! ### Strings of a map -/

theorem mem_stringsMembers {s : String} {ms : List (String × Json)} :
    s ∈ stringsMembers ms ↔ ∃ m ∈ ms, s = m.1 ∨ s ∈ m.2.strings := by
  induction ms with
  | nil => simp [stringsMembers]
  | cons m ms ih =>
      obtain ⟨k, v⟩ := m
      simp only [stringsMembers, List.mem_cons, List.mem_append, ih, exists_eq_or_imp, or_assoc]

mutual

/-- Reading objects as maps adds no string. -/
theorem strings_collapse : ∀ v : Json, v.collapse.strings ⊆ v.strings
  | null => List.Subset.refl _
  | bool _ => List.Subset.refl _
  | number _ => List.Subset.refl _
  | string _ => List.Subset.refl _
  | array elems => strings_collapseElems elems
  | object members => by
      intro s hs
      rcases strings_collapseMembers members [] hs with h | h
      · exact h
      · exact nomatch h

theorem strings_collapseElems : ∀ vs : List Json, stringsElems (collapseElems vs) ⊆ stringsElems vs
  | [] => List.Subset.refl _
  | v :: vs => by
      intro s hs
      rw [collapseElems, stringsElems, List.mem_append] at hs
      rw [stringsElems, List.mem_append]
      exact hs.imp (fun h => strings_collapse v h) (fun h => strings_collapseElems vs h)

theorem strings_collapseMembers : ∀ (ms map : List (String × Json)) {s : String},
    s ∈ stringsMembers (collapseMembers ms map) → s ∈ stringsMembers ms ∨ s ∈ stringsMembers map
  | [], _, _, h => .inr h
  | (k, v) :: ms, map, s, h => by
      rw [stringsMembers, List.mem_cons, List.mem_append]
      rcases strings_collapseMembers ms _ h with h | h
      · exact .inl (.inr (.inr h))
      · obtain ⟨m, hm, hs⟩ := mem_stringsMembers.mp h
        rcases mem_insertMember hm with rfl | hm
        · exact .inl (hs.imp_right fun hs => .inl (strings_collapse v hs))
        · exact .inr (mem_stringsMembers.mpr ⟨m, hm, hs⟩)

end

/-- A string that is the member of a map is one of its strings. -/
theorem mem_strings_of_get {value : Json} {key s : String} (h : value.get key = some (string s)) :
    s ∈ value.strings := by
  cases value with
  | object members =>
      obtain ⟨m, hfind, hm⟩ := Option.map_eq_some_iff.mp h
      refine mem_stringsMembers.mpr ⟨m, List.mem_of_find?_eq_some hfind, .inr ?_⟩
      rw [hm]
      exact List.mem_cons_self
  | _ => cases h

end Json
