import Overacp.Compute.Config.Reference

/-!
# The grammar of a value

A value is a row of literals and references. Written out with the dollar signs of its literals doubled, it
is read back as it was where its literals are ASCII, and a literal that is not comes back as the Latin-1
reading of its bytes. A value is refused exactly for a reference that does not end, or has nothing for its
scheme or its path.
-/

namespace Overacp

namespace Config

/-! ### Writing a value -/

def escape (text : List Char) : List Char := text.flatMap fun c => if c = '$' then ['$', '$'] else [c]

/-- What stands between the braces. -/
def renderBody (scheme path : String) (key : Option String) : List Char :=
  scheme.toList ++ ':' :: (path.toList ++ (key.map fun key => ':' :: key.toList).getD [])

def Segment.render : Segment → List Char
  | literal text => escape text.toList
  | ref scheme path key => '$' :: '{' :: (renderBody scheme path key ++ ['}'])

def render (segments : List Segment) : String := String.ofList (segments.flatMap Segment.render)

/-- A scheme and a path, neither empty, and nothing in them or in the key that would end them. -/
structure RefNormal (scheme path : String) (key : Option String) : Prop where
  scheme_ne : scheme ≠ ""
  colon_scheme : ':' ∉ scheme.toList
  brace_scheme : '}' ∉ scheme.toList
  path_ne : path ≠ ""
  colon_path : ':' ∉ path.toList
  brace_path : '}' ∉ path.toList
  brace_key : ∀ k, key = some k → '}' ∉ k.toList

/-- No literal is empty, and no two stand side by side. -/
def Normal : List Segment → Prop
  | [] => True
  | .literal text :: segments =>
      text ≠ "" ∧ (∀ other, segments.head? ≠ some (.literal other)) ∧ Normal segments
  | .ref scheme path key :: segments => RefNormal scheme path key ∧ Normal segments

def Ascii (text : String) : Prop := ∀ c ∈ text.toList, c.toNat < 0x80

/-! ### Bytes for characters -/

/-- The Latin-1 reading of the bytes of a text. -/
def latinText (text : String) : String := String.ofList (text.toList.flatMap latin)

def Segment.reread : Segment → Segment
  | literal text => literal (latinText text)
  | ref scheme path key => ref scheme path key

theorem latin_ascii {c : Char} (h : c.toNat < 0x80) : latin c = [c] := by
  rw [latin, Utf8.encodeChar_ascii h, List.map_singleton, Utf8.toNat_ofNat (by omega), Char.ofNat_toNat]

theorem length_le_flatMap_latin (cs : List Char) : cs.length ≤ (cs.flatMap latin).length := by
  induction cs with
  | nil => exact Nat.le_refl 0
  | cons c cs ih =>
      rw [List.flatMap_cons, List.length_append, List.length_cons]
      have hone : 1 ≤ (latin c).length := by
        rw [latin, List.length_map]
        by_cases hc : c.toNat < 0x80
        · rw [Utf8.encodeChar_ascii hc]
          exact Nat.le_refl 1
        · have htwo := (Utf8.encodeChar_not_ascii (Nat.le_of_not_lt hc)).1
          omega
      omega

theorem flatMap_latin_eq_iff (cs : List Char) : cs.flatMap latin = cs ↔ ∀ c ∈ cs, c.toNat < 0x80 := by
  induction cs with
  | nil => simp
  | cons c cs ih =>
      rw [List.flatMap_cons, List.forall_mem_cons, ← ih]
      by_cases hc : c.toNat < 0x80
      · rw [latin_ascii hc, List.singleton_append, List.cons_inj_right]
        exact ⟨fun h => ⟨hc, h⟩, And.right⟩
      · refine ⟨fun h => ?_, fun h => absurd h.1 hc⟩
        have hlength := congrArg List.length h
        have htwo := (Utf8.encodeChar_not_ascii (Nat.le_of_not_lt hc)).1
        have hrest := length_le_flatMap_latin cs
        rw [List.length_append, List.length_cons, latin, List.length_map] at hlength
        omega

theorem latinText_eq_iff (text : String) : latinText text = text ↔ Ascii text := by
  rw [latinText, Ascii, ← flatMap_latin_eq_iff]
  constructor
  · intro h
    have hlist := congrArg String.toList h
    rwa [String.toList_ofList] at hlist
  · intro h
    rw [h, String.ofList_toList]

theorem latinText_ne_empty {text : String} (h : text ≠ "") : text.toList.flatMap latin ≠ [] := by
  intro hempty
  have hlength := length_le_flatMap_latin text.toList
  rw [hempty, List.length_nil, Nat.le_zero, List.length_eq_zero_iff] at hlength
  exact h (String.toList_eq_nil_iff.mp hlength)

/-! ### Reading it back -/

/-- An escaped text is pushed whole, whatever comes after it. -/
theorem scan_text (input : String) (text rest buf : List Char) (out : List Segment) :
    scan input (escape text ++ rest) buf out = scan input rest (buf ++ text.flatMap latin) out := by
  induction text generalizing buf with
  | nil => rw [escape, List.flatMap_nil, List.flatMap_nil, List.append_nil]; rfl
  | cons c text ih =>
      rw [escape, List.flatMap_cons, List.flatMap_cons, ← List.append_assoc buf]
      by_cases hc : c = '$'
      · rw [if_pos hc, hc]
        show scan input ('$' :: '$' :: (escape text ++ rest)) buf out = _
        rw [scan_escape, ih]
        rfl
      · rw [if_neg hc]
        show scan input (c :: (escape text ++ rest)) buf out = _
        rw [scan_plain input (fun heq => absurd heq hc), ih]

theorem parseRefBody_renderBody {scheme path : String} {key : Option String} (h : RefNormal scheme path key)
    (full : String) : parseRefBody (renderBody scheme path key) full = .ok (.ref scheme path key) := by
  have hscheme : scheme.toList ≠ [] := fun heq => h.scheme_ne (String.toList_eq_nil_iff.mp heq)
  have hpath : path.toList ≠ [] := fun heq => h.path_ne (String.toList_eq_nil_iff.mp heq)
  rw [parseRefBody, renderBody, splitOnce_append h.colon_scheme]
  dsimp only
  rw [if_neg hscheme]
  cases key with
  | none =>
      rw [Option.map_none, Option.getD_none, List.append_nil, splitOnce_eq_none_iff.mpr h.colon_path]
      dsimp only
      rw [if_neg hpath, String.ofList_toList, String.ofList_toList]
      rfl
  | some key =>
      rw [Option.map_some, Option.getD_some, splitOnce_append h.colon_path]
      dsimp only
      rw [if_neg hpath, String.ofList_toList, String.ofList_toList, Option.map_some, String.ofList_toList]

theorem brace_notMem_renderBody {scheme path : String} {key : Option String} (h : RefNormal scheme path key) :
    '}' ∉ renderBody scheme path key := by
  rw [renderBody, List.mem_append, List.mem_cons, List.mem_append, not_or, not_or, not_or]
  refine ⟨h.brace_scheme, by decide, h.brace_path, ?_⟩
  cases key with
  | none => exact List.not_mem_nil
  | some key =>
      rw [Option.map_some, Option.getD_some, List.mem_cons, not_or]
      exact ⟨by decide, h.brace_key key rfl⟩

theorem flush_nil (out : List Segment) : flush out [] = out := if_pos rfl

/-- What was written is read back, with a buffer that no literal may join. -/
theorem scan_render {segments : List Segment} (h : Normal segments) (input : String) {buf : List Char}
    (hbuf : buf = [] ∨ ∀ text, segments.head? ≠ some (.literal text)) (out : List Segment) :
    scan input (segments.flatMap Segment.render) buf out =
      .ok (flush out buf ++ segments.map Segment.reread) := by
  induction segments generalizing buf out with
  | nil => rw [List.flatMap_nil, scan_nil, List.map_nil, List.append_nil]
  | cons segment segments ih =>
      rw [List.flatMap_cons, List.map_cons]
      cases segment with
      | literal text =>
          obtain ⟨htext, hnext, hrest⟩ := h
          obtain rfl := hbuf.resolve_right fun hother => hother text rfl
          show scan input (escape text.toList ++ _) [] out = _
          rw [scan_text, List.nil_append, ih hrest (.inr hnext), flush_nil, flush,
            if_neg (latinText_ne_empty htext), List.append_assoc]
          rfl
      | ref scheme path key =>
          obtain ⟨href, hrest⟩ := h
          have hlist : (Segment.ref scheme path key).render ++ segments.flatMap Segment.render =
              '$' :: '{' :: (renderBody scheme path key ++ '}' :: segments.flatMap Segment.render) := by
            simp [Segment.render]
          rw [hlist, scan_closed input (brace_notMem_renderBody href), parseRefBody_renderBody href]
          show scan input _ [] _ = _
          rw [ih hrest (.inl rfl), flush_nil, List.append_assoc]
          rfl

theorem parse_render {segments : List Segment} (h : Normal segments) :
    parse (render segments) = some (.ok (segments.map Segment.reread)) := by
  rw [parse_eq_scan, render, String.toList_ofList, scan_render h _ (.inl rfl), flush_nil, List.nil_append]

theorem parse_render_iff {segments : List Segment} (h : Normal segments) :
    parse (render segments) = some (.ok segments) ↔ ∀ text, .literal text ∈ segments → Ascii text := by
  rw [parse_render h, Option.some_inj, Except.ok.injEq]
  constructor
  · intro hsame text htext
    have hreread := List.map_inj_left.mp (hsame.trans (List.map_id segments).symm) _ htext
    rw [← latinText_eq_iff]
    exact (Segment.literal.inj hreread)
  · intro hascii
    have hsame : ∀ segment ∈ segments, segment.reread = id segment := by
      intro segment hsegment
      cases segment with
      | literal text => exact congrArg Segment.literal ((latinText_eq_iff text).mpr (hascii text hsegment))
      | ref scheme path key => rfl
    exact (List.map_congr_left hsame).trans (List.map_id segments)

/-! ### What is refused -/

/-- The scanner gets from one text to another that it ends with, over escapes, references that end, and
characters. -/
inductive Reaches : List Char → List Char → Prop
  | here (cs : List Char) : Reaches cs cs
  | escape {cs rest : List Char} (h : Reaches cs rest) : Reaches ('$' :: '$' :: cs) rest
  | reference {body cs rest : List Char} (hbody : '}' ∉ body) (h : Reaches cs rest) :
      Reaches ('$' :: '{' :: (body ++ '}' :: cs)) rest
  | plain {c : Char} {cs rest : List Char} (hc : Plain c cs) (h : Reaches cs rest) : Reaches (c :: cs) rest

/-- No colon, or nothing before the first, or nothing between it and the next or the end. -/
def BadBody (body : List Char) : Prop :=
  ':' ∉ body ∨ ∃ scheme rest, body = scheme ++ ':' :: rest ∧ ':' ∉ scheme ∧
    (scheme = [] ∨ rest = [] ∨ rest.head? = some ':')

/-- Behind the opening of a reference that does not end, or ends with a bad body. -/
def Broken (rest : List Char) : Prop :=
  '}' ∉ rest ∨ ∃ body tail, rest = body ++ '}' :: tail ∧ '}' ∉ body ∧ BadBody body

/-- The scanner comes to a reference that is broken. -/
def MeetsBroken (cs : List Char) : Prop := ∃ rest, Reaches cs ('$' :: '{' :: rest) ∧ Broken rest

theorem append_cons_inj {sep : Char} {as bs cs ds : List Char} (h : as ++ sep :: bs = cs ++ sep :: ds)
    (has : sep ∉ as) (hcs : sep ∉ cs) : as = cs ∧ bs = ds := by
  have hsplit := splitOnce_append has bs
  rw [h, splitOnce_append hcs, Option.some_inj, Prod.mk.injEq] at hsplit
  exact ⟨hsplit.1.symm, hsplit.2.symm⟩

/-- What comes before a separator is empty just where the separator comes first. -/
theorem before_eq_nil_iff {sep : Char} {rest before after : List Char}
    (h : splitOnce sep rest = some (before, after)) : before = [] ↔ rest = [] ∨ rest.head? = some sep := by
  obtain ⟨rfl, hsep⟩ := splitOnce_some h
  cases before with
  | nil => simp
  | cons c cs =>
      have hc : c ≠ sep := fun heq => hsep (heq ▸ List.mem_cons_self)
      simp [hc]

theorem eq_nil_iff_of_splitOnce {sep : Char} {rest : List Char} (h : splitOnce sep rest = none) :
    rest = [] ↔ rest = [] ∨ rest.head? = some sep := by
  refine ⟨.inl, fun hor => hor.resolve_right fun hhead => ?_⟩
  exact splitOnce_eq_none_iff.mp h (List.mem_of_mem_head? hhead)

/-- A body is refused just where it is bad, with the whole value for the error. -/
theorem parseRefBody_cases (body : List Char) (full : String) :
    BadBody body ∧ parseRefBody body full = .error (.badReference full) ∨
      ¬ BadBody body ∧ ∃ segment, parseRefBody body full = .ok segment := by
  unfold parseRefBody
  cases hsplit : splitOnce ':' body with
  | none => exact .inl ⟨.inl (splitOnce_eq_none_iff.mp hsplit), rfl⟩
  | some found =>
      obtain ⟨scheme, rest⟩ := found
      obtain ⟨rfl, hcolon⟩ := splitOnce_some hsplit
      have hbad : BadBody (scheme ++ ':' :: rest) ↔ scheme = [] ∨ rest = [] ∨ rest.head? = some ':' := by
        constructor
        · intro hbad
          rcases hbad with hnone | ⟨scheme', rest', heq, hcolon', hempty⟩
          · exact absurd (List.mem_append_right _ List.mem_cons_self) hnone
          · obtain ⟨rfl, rfl⟩ := append_cons_inj heq hcolon hcolon'
            exact hempty
        · intro hempty
          exact .inr ⟨scheme, rest, rfl, hcolon, hempty⟩
      rw [hbad]
      dsimp only
      by_cases hscheme : scheme = []
      · rw [if_pos hscheme]
        exact .inl ⟨.inl hscheme, rfl⟩
      · rw [if_neg hscheme]
        cases hrest : splitOnce ':' rest with
        | none =>
            have hempty := eq_nil_iff_of_splitOnce hrest
            dsimp only
            by_cases hnil : rest = []
            · rw [if_pos hnil]
              exact .inl ⟨.inr (hempty.mp hnil), rfl⟩
            · rw [if_neg hnil]
              exact .inr ⟨fun hor => hnil (hempty.mpr (hor.resolve_left hscheme)), _, rfl⟩
        | some found =>
            obtain ⟨path, key⟩ := found
            have hempty := before_eq_nil_iff hrest
            dsimp only
            by_cases hnil : path = []
            · rw [if_pos hnil]
              exact .inl ⟨.inr (hempty.mp hnil), rfl⟩
            · rw [if_neg hnil]
              exact .inr ⟨fun hor => hnil (hempty.mpr (hor.resolve_left hscheme)), _, rfl⟩

theorem Reaches.escape_inv {cs rest : List Char} (h : Reaches ('$' :: '$' :: cs) ('$' :: '{' :: rest)) :
    Reaches cs ('$' :: '{' :: rest) := by
  cases h with
  | escape h => exact h
  | plain hc h => exact absurd rfl (hc rfl).1

theorem Reaches.plain_inv {c : Char} {cs rest : List Char} (hc : Plain c cs)
    (h : Reaches (c :: cs) ('$' :: '{' :: rest)) : Reaches cs ('$' :: '{' :: rest) := by
  cases h with
  | here => exact absurd rfl (hc rfl).2
  | escape h => exact absurd rfl (hc rfl).1
  | reference hbody h => exact absurd rfl (hc rfl).2
  | plain _ h => exact h

/-- At a reference: this one is broken, or one behind it. -/
theorem meetsBroken_reference_iff {body tail : List Char} (hbody : '}' ∉ body) :
    MeetsBroken ('$' :: '{' :: (body ++ '}' :: tail)) ↔ BadBody body ∨ MeetsBroken tail := by
  constructor
  · rintro ⟨rest, hreaches, hbroken⟩
    generalize hcs : '$' :: '{' :: (body ++ '}' :: tail) = cs at hreaches
    cases hreaches with
    | here =>
        obtain rfl := (List.cons.inj (List.cons.inj hcs).2).2
        left
        rcases hbroken with hopen | ⟨body', tail', heq, hbody', hbad⟩
        · exact absurd (List.mem_append_right _ List.mem_cons_self) hopen
        · obtain ⟨rfl, -⟩ := append_cons_inj heq hbody hbody'
          exact hbad
    | escape h => cases (List.cons.inj (List.cons.inj hcs).2).1
    | reference hbody' h =>
        obtain ⟨rfl, rfl⟩ := append_cons_inj (List.cons.inj (List.cons.inj hcs).2).2 hbody hbody'
        exact .inr ⟨rest, h, hbroken⟩
    | plain hc h =>
        obtain ⟨rfl, rfl⟩ := List.cons.inj hcs
        exact absurd rfl (hc rfl).2
  · intro hor
    rcases hor with hbad | ⟨rest, hreaches, hbroken⟩
    · exact ⟨body ++ '}' :: tail, .here _, .inr ⟨body, tail, rfl, hbody, hbad⟩⟩
    · exact ⟨rest, .reference hbody hreaches, hbroken⟩

/-- The scanner fails just where it meets a broken reference. -/
theorem scan_cases (input : String) (n : Nat) {cs : List Char} (hn : cs.length ≤ n) (buf : List Char)
    (out : List Segment) :
    MeetsBroken cs ∧ scan input cs buf out = .error (.badReference input) ∨
      ¬ MeetsBroken cs ∧ ∃ segments, scan input cs buf out = .ok segments := by
  induction n generalizing cs buf out with
  | zero =>
      obtain rfl := List.length_eq_zero_iff.mp (Nat.le_zero.mp hn)
      refine .inr ⟨?_, _, scan_nil input buf out⟩
      rintro ⟨rest, hreaches, _⟩
      cases hreaches
  | succ n ih =>
      cases cs with
      | nil =>
          refine .inr ⟨?_, _, scan_nil input buf out⟩
          rintro ⟨rest, hreaches, _⟩
          cases hreaches
      | cons c rest =>
          rw [List.length_cons] at hn
          by_cases hplain : Plain c rest
          · have hiff : MeetsBroken (c :: rest) ↔ MeetsBroken rest :=
              ⟨fun ⟨r, hreaches, hbroken⟩ => ⟨r, hreaches.plain_inv hplain, hbroken⟩,
                fun ⟨r, hreaches, hbroken⟩ => ⟨r, .plain hplain hreaches, hbroken⟩⟩
            rw [hiff, scan_plain input hplain]
            exact ih (by omega) _ _
          · have hc : c = '$' := by
              by_contra hc
              exact hplain fun heq => absurd heq hc
            subst hc
            by_cases hfirst : rest.head? = some '$'
            · obtain ⟨rest, rfl⟩ := List.head?_eq_some_iff.mp hfirst
              rw [List.length_cons] at hn
              have hiff : MeetsBroken ('$' :: '$' :: rest) ↔ MeetsBroken rest :=
                ⟨fun ⟨r, hreaches, hbroken⟩ => ⟨r, hreaches.escape_inv, hbroken⟩,
                  fun ⟨r, hreaches, hbroken⟩ => ⟨r, .escape hreaches, hbroken⟩⟩
              rw [hiff, scan_escape]
              exact ih (by omega) _ _
            · have hsecond : rest.head? = some '{' := by
                by_contra hsecond
                exact hplain fun _ => ⟨hfirst, hsecond⟩
              obtain ⟨rest, rfl⟩ := List.head?_eq_some_iff.mp hsecond
              cases hsplit : splitOnce '}' rest with
              | none =>
                  have hopen := splitOnce_eq_none_iff.mp hsplit
                  exact .inl ⟨⟨rest, .here _, .inl hopen⟩, scan_unclosed input hopen buf out⟩
              | some found =>
                  obtain ⟨body, tail⟩ := found
                  obtain ⟨rfl, hbody⟩ := splitOnce_some hsplit
                  simp only [List.length_cons, List.length_append] at hn
                  rw [meetsBroken_reference_iff hbody, scan_closed input hbody]
                  rcases parseRefBody_cases body input with ⟨hbad, herror⟩ | ⟨hgood, segment, hok⟩
                  · rw [herror]
                    exact .inl ⟨.inl hbad, rfl⟩
                  · rw [hok, or_iff_right hgood]
                    exact ih (by omega) _ _

theorem parse_error_iff (input : String) :
    (∃ e, parse input = some (.error e)) ↔ MeetsBroken input.toList := by
  rw [parse_eq_scan]
  rcases scan_cases input input.toList.length (Nat.le_refl _) [] [] with ⟨hmeets, herror⟩ | ⟨hnone, segments, hok⟩
  · exact ⟨fun _ => hmeets, fun _ => ⟨_, congrArg some herror⟩⟩
  · rw [hok]
    refine ⟨?_, fun hmeets => absurd hmeets hnone⟩
    rintro ⟨e, herror⟩
    cases herror

/-! ### Values without a dollar sign -/

theorem escape_of_notMem {text : List Char} (h : '$' ∉ text) : escape text = text := by
  induction text with
  | nil => rfl
  | cons c text ih =>
      rw [List.mem_cons, not_or] at h
      rw [escape, List.flatMap_cons, if_neg (fun heq => h.1 heq.symm)]
      exact congrArg (c :: ·) (ih h.2)

theorem resolveValue_of_notMem (providers : String → Option Lookup) {value : String}
    (h : '$' ∉ value.toList) : resolveValue providers value = some (.ok (latinText value)) := by
  have hscan := scan_text value value.toList [] [] []
  rw [escape_of_notMem h, List.append_nil, List.nil_append, scan_nil] at hscan
  rw [resolveValue, parse_eq_scan, hscan, flush]
  by_cases hnil : value.toList.flatMap latin = []
  · rw [if_pos hnil, latinText, hnil]
    rfl
  · rw [if_neg hnil]
    show some (Except.ok ("" ++ latinText value)) = _
    rw [String.empty_append]

/-- Where a configuration is resolved, each of its values is, under the same key. -/
theorem resolveAll_getElem? {providers : String → Option Lookup} {raw resolved : List (String × String)}
    (h : resolveAll providers raw = some (.ok resolved)) {i : Nat} {k v : String} (hi : raw[i]? = some (k, v)) :
    ∃ value, resolveValue providers v = some (.ok value) ∧ resolved[i]? = some (k, value) := by
  induction raw generalizing resolved i with
  | nil => cases hi
  | cons entry raw ih =>
      obtain ⟨k', v'⟩ := entry
      rw [resolveAll] at h
      cases hvalue : resolveValue providers v' with
      | none =>
          rw [hvalue] at h
          cases h
      | some result =>
          rw [hvalue] at h
          cases result with
          | error e => cases h
          | ok value =>
              obtain ⟨rest, hrest, hmap⟩ := Option.map_eq_some_iff.mp h
              cases rest with
              | error e => cases hmap
              | ok rest =>
                  obtain rfl := Except.ok.inj hmap
                  cases i with
                  | zero =>
                      obtain ⟨rfl, rfl⟩ := Prod.mk.inj (Option.some.inj hi)
                      exact ⟨value, hvalue, rfl⟩
                  | succ i => exact ih hrest hi

/-- A value is written and read back as the grammar has it just where its literals are ASCII, it is refused
just where the grammar refuses it, and resolving changes no value without a dollar sign that is ASCII. -/
theorem grammar_of_parse (segments : List Segment) (input value : String) (providers : String → Option Lookup)
    (raw : RawConfig) (config : ResolvedConfig) :
    (Normal segments →
        (parse (render segments) = some (.ok segments) ↔ ∀ text, .literal text ∈ segments → Ascii text)) ∧
      ((∃ e, parse input = some (.error e)) ↔ MeetsBroken input.toList) ∧
      ('$' ∉ value.toList → (resolveValue providers value = some (.ok value) ↔ Ascii value)) ∧
      (resolve providers raw = some (.ok config) →
        ∀ (i : Nat) (k v : String), raw[i]? = some (k, v) → '$' ∉ v.toList →
          (config.resolved[i]? = some (k, v) ↔ Ascii v)) := by
  refine ⟨fun h => parse_render_iff h, parse_error_iff input, ?_, ?_⟩
  · intro h
    rw [resolveValue_of_notMem providers h, Option.some_inj, Except.ok.injEq, latinText_eq_iff]
  · intro hresolve i k v hi h
    obtain ⟨result, hall, hmap⟩ := Option.map_eq_some_iff.mp hresolve
    cases result with
    | error e => cases hmap
    | ok resolved =>
        obtain rfl := Except.ok.inj hmap
        obtain ⟨value, hvalue, hget⟩ := resolveAll_getElem? hall hi
        rw [resolveValue_of_notMem providers h, Option.some_inj, Except.ok.injEq] at hvalue
        rw [hget, Option.some_inj, Prod.mk.injEq, and_iff_right rfl, ← hvalue, latinText_eq_iff]

/-- An accent is read as two characters, and a setting that has one is changed by being resolved. -/
theorem accent_garbled :
    Normal [.literal "café"] ∧ parse (render [.literal "café"]) = some (.ok [.literal "cafÃ©"]) ∧
      resolve (fun _ => none) [("workspace", "café")] =
        some (.ok ⟨[("workspace", "cafÃ©")], [("workspace", "café")]⟩) := by
  refine ⟨⟨by decide, nofun, trivial⟩, by decide +kernel, by decide +kernel⟩

end Config

end Overacp
