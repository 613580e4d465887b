import Overacp.Lib.Utf8

/-!
# Secret references

The parser of `${scheme:path[:key]}` goes through a value byte by byte. What is between the references is
pushed one byte at a time, each as a character of its own, while the references themselves are cut out of
the text; so a literal comes through as it was just where it is ASCII.
-/

namespace Overacp

namespace Config

inductive Segment where
  | literal (text : String)
  | ref (scheme path : String) (key : Option String)
  deriving DecidableEq, Repr

inductive ConfigError where
  | missingKey (key : String)
  | invalidValue (key msg : String)
  | unknownProvider (scheme : String)
  | resolution (reference source : String)
  | badReference (reference : String)
  deriving DecidableEq, Repr

/-! ### Pieces of a text -/

/-- The text before the first separator and the text after it. -/
def splitOnce (sep : Char) : List Char → Option (List Char × List Char)
  | [] => none
  | c :: cs => if c = sep then some ([], cs) else (splitOnce sep cs).map fun p => (c :: p.1, p.2)

/-- How many bytes come before a character. -/
def find (c : Char) (text : List Char) : Option Nat := (splitOnce c text).map fun p => (Utf8.encode p.1).length

/-- A slice of a text, by its bytes; off the boundaries of characters there is none, and the program
panics. -/
def slice (bytes : List UInt8) (start stop : Nat) : Option (List Char) :=
  Utf8.decode ((bytes.take stop).drop start)

/-! ### The parser -/

def parseRefBody (body : List Char) (full : String) : Except ConfigError Segment :=
  match splitOnce ':' body with
  | none => .error (.badReference full)
  | some (scheme, rest) =>
      if scheme = [] then .error (.badReference full)
      else
        let (path, key) := match splitOnce ':' rest with
          | some (path, key) => (path, some key)
          | none => (rest, none)
        if path = [] then .error (.badReference full)
        else .ok (.ref (String.ofList scheme) (String.ofList path) (key.map String.ofList))

/-- The literal in the buffer, if there is one. -/
def flush (out : List Segment) (buf : List Char) : List Segment :=
  if buf = [] then out else out ++ [.literal (String.ofList buf)]

/-- The loop, from the byte `i` on; `none` is a panic. -/
def parseLoop (input : String) (bytes : List UInt8) (i : Nat) (buf : List Char) (out : List Segment) :
    Option (Except ConfigError (List Segment)) :=
  if hi : i < bytes.length then
    let b := bytes[i]
    if b = 0x24 ∧ bytes[i + 1]? = some 0x24 then parseLoop input bytes (i + 2) (buf ++ ['$']) out
    else if b = 0x24 ∧ bytes[i + 1]? = some 0x7B then
      let start := i + 2
      match slice bytes start bytes.length with
      | none => none
      | some rest =>
          match find '}' rest with
          | none => some (.error (.badReference input))
          | some stop =>
              match slice bytes start (start + stop) with
              | none => none
              | some body =>
                  match parseRefBody body input with
                  | .error e => some (.error e)
                  | .ok segment => parseLoop input bytes (start + stop + 1) [] (flush out buf ++ [segment])
    else parseLoop input bytes (i + 1) (buf ++ [Char.ofNat b.toNat]) out
  else some (.ok (flush out buf))
termination_by bytes.length - i

def parse (input : String) : Option (Except ConfigError (List Segment)) :=
  parseLoop input (Utf8.encode input.toList) 0 [] []

/-! ### The resolver -/

/-- What a provider answers for a path and a key. -/
abbrev Lookup := String → Option String → Except ConfigError String

/-- The segments of a value, resolved one after the other. -/
def resolveSegments (providers : String → Option Lookup) : List Segment → String → Except ConfigError String
  | [], out => .ok out
  | .literal text :: segments, out => resolveSegments providers segments (out ++ text)
  | .ref scheme path key :: segments, out =>
      match providers scheme with
      | none => .error (.unknownProvider scheme)
      | some lookup =>
          match lookup path key with
          | .error e => .error e
          | .ok v => resolveSegments providers segments (out ++ v)

def resolveValue (providers : String → Option Lookup) (value : String) : Option (Except ConfigError String) :=
  (parse value).map fun segments => segments.bind fun segments => resolveSegments providers segments ""

/-- The values by their keys, in order. -/
abbrev RawConfig := List (String × String)

structure ResolvedConfig where
  resolved : List (String × String)
  original : List (String × String)
  deriving DecidableEq, Repr

def resolveAll (providers : String → Option Lookup) :
    RawConfig → Option (Except ConfigError (List (String × String)))
  | [] => some (.ok [])
  | (k, v) :: raw =>
      match resolveValue providers v with
      | none => none
      | some (.error e) => some (.error e)
      | some (.ok value) => (resolveAll providers raw).map fun rest => rest.map fun rest => (k, value) :: rest

def resolve (providers : String → Option Lookup) (raw : RawConfig) : Option (Except ConfigError ResolvedConfig) :=
  (resolveAll providers raw).map fun resolved => resolved.map fun resolved => ⟨resolved, raw⟩

/-- Every key that was given is there, with its value resolved, and no other. -/
theorem lookup_resolveAll {providers : String → Option Lookup} {raw : RawConfig} {resolved : List (String × String)}
    (h : resolveAll providers raw = some (.ok resolved)) (key : String) :
    match raw.lookup key with
    | none => resolved.lookup key = none
    | some text => ∃ value, resolved.lookup key = some value ∧ resolveValue providers text = some (.ok value) := by
  induction raw generalizing resolved with
  | nil =>
      cases h
      rfl
  | cons entry raw ih =>
      obtain ⟨k, v⟩ := entry
      rw [resolveAll] at h
      cases hvalue : resolveValue providers v with
      | none =>
          rw [hvalue] at h
          cases h
      | some result =>
          rw [hvalue] at h
          cases result with
          | error e => cases h
          | ok value =>
              obtain ⟨result, hrest, hmap⟩ := Option.map_eq_some_iff.mp h
              cases result with
              | error e => cases hmap
              | ok rest =>
                  cases hmap
                  rw [List.lookup_cons, List.lookup_cons]
                  cases key == k with
                  | true => exact ⟨value, rfl, hvalue⟩
                  | false => exact ih hrest

/-! ### By characters -/

/-- What is pushed for a character: one character for each of its bytes. -/
def latin (c : Char) : List Char := (Utf8.encodeChar c).map fun b => Char.ofNat b.toNat

theorem splitOnce_some {sep : Char} {cs before after : List Char} (h : splitOnce sep cs = some (before, after)) :
    cs = before ++ sep :: after ∧ sep ∉ before := by
  induction cs generalizing before after with
  | nil => cases h
  | cons c cs ih =>
      rw [splitOnce] at h
      by_cases hc : c = sep
      · rw [if_pos hc, Option.some_inj, Prod.mk.injEq] at h
        obtain ⟨rfl, rfl⟩ := h
        exact ⟨by rw [hc, List.nil_append], List.not_mem_nil⟩
      · rw [if_neg hc] at h
        obtain ⟨⟨first, rest⟩, hsplit, heq⟩ := Option.map_eq_some_iff.mp h
        obtain ⟨rfl, rfl⟩ := Prod.mk.inj heq
        obtain ⟨hcs, hsep⟩ := ih hsplit
        refine ⟨by rw [hcs, List.cons_append], ?_⟩
        rw [List.mem_cons, not_or]
        exact ⟨fun heq => hc heq.symm, hsep⟩

theorem splitOnce_eq_none_iff {sep : Char} {cs : List Char} : splitOnce sep cs = none ↔ sep ∉ cs := by
  induction cs with
  | nil => simp [splitOnce]
  | cons c cs ih =>
      rw [splitOnce, List.mem_cons, not_or]
      by_cases hc : c = sep
      · simp [hc]
      · rw [if_neg hc, Option.map_eq_none_iff, ih]
        exact ⟨fun h => ⟨fun heq => hc heq.symm, h⟩, And.right⟩

theorem splitOnce_append {sep : Char} {before : List Char} (h : sep ∉ before) (after : List Char) :
    splitOnce sep (before ++ sep :: after) = some (before, after) := by
  induction before with
  | nil => rw [List.nil_append, splitOnce, if_pos rfl]
  | cons c before ih =>
      rw [List.mem_cons, not_or] at h
      rw [List.cons_append, splitOnce, if_neg (fun heq => h.1 heq.symm), ih h.2]
      rfl

/-- The same scanner over characters. -/
def scan (input : String) (cs buf : List Char) (out : List Segment) : Except ConfigError (List Segment) :=
  match cs with
  | [] => .ok (flush out buf)
  | '$' :: '$' :: rest => scan input rest (buf ++ ['$']) out
  | '$' :: '{' :: rest =>
      match _hsplit : splitOnce '}' rest with
      | none => .error (.badReference input)
      | some (body, tail) =>
          match parseRefBody body input with
          | .error e => .error e
          | .ok segment => scan input tail [] (flush out buf ++ [segment])
  | c :: rest => scan input rest (buf ++ latin c) out
termination_by cs.length
decreasing_by
  all_goals simp only [List.length_cons]
  · omega
  · have hlength := congrArg List.length (splitOnce_some _hsplit).1
    rw [List.length_append, List.length_cons] at hlength
    omega
  · omega

/-- A dollar sign with another one or a brace behind it is not a character of a literal. -/
def Plain (c : Char) (rest : List Char) : Prop :=
  c = '$' → rest.head? ≠ some '$' ∧ rest.head? ≠ some '{'

theorem scan_nil (input : String) (buf : List Char) (out : List Segment) :
    scan input [] buf out = .ok (flush out buf) := by
  rw [scan]

theorem scan_escape (input : String) (rest buf : List Char) (out : List Segment) :
    scan input ('$' :: '$' :: rest) buf out = scan input rest (buf ++ ['$']) out := by
  rw [scan]

theorem scan_plain (input : String) {c : Char} {rest : List Char} (h : Plain c rest) (buf : List Char)
    (out : List Segment) : scan input (c :: rest) buf out = scan input rest (buf ++ latin c) out := by
  rw [scan]
  · intro rest' hc hrest
    rw [hrest] at h
    exact (h hc).1 rfl
  · intro rest' hc hrest
    rw [hrest] at h
    exact (h hc).2 rfl

theorem scan_unclosed (input : String) {rest : List Char} (h : '}' ∉ rest) (buf : List Char)
    (out : List Segment) : scan input ('$' :: '{' :: rest) buf out = .error (.badReference input) := by
  rw [scan]
  split
  · rfl
  · rename_i heq
    rw [splitOnce_eq_none_iff.mpr h] at heq
    cases heq

theorem scan_closed (input : String) {body : List Char} (h : '}' ∉ body) (tail buf : List Char)
    (out : List Segment) :
    scan input ('$' :: '{' :: (body ++ '}' :: tail)) buf out =
      (parseRefBody body input).bind fun segment => scan input tail [] (flush out buf ++ [segment]) := by
  rw [scan]
  split
  · rename_i heq
    rw [splitOnce_append h] at heq
    cases heq
  · rename_i heq
    rw [splitOnce_append h, Option.some_inj, Prod.mk.injEq] at heq
    obtain ⟨rfl, rfl⟩ := heq
    cases parseRefBody body input <;> rfl

/-! ### Bytes and characters -/

theorem slice_encode (before text after : List Char) :
    slice (Utf8.encode (before ++ text ++ after)) (Utf8.encode before).length
      (Utf8.encode (before ++ text)).length = some text := by
  rw [slice, Utf8.encode_append (before ++ text), List.take_left, Utf8.encode_append, List.drop_left,
    Utf8.decode_encode]

/-- Bytes that are no dollar signs are pushed one after the other. -/
theorem parseLoop_push {input : String} {before bytes after : List UInt8} (h : ∀ b ∈ bytes, b ≠ 0x24)
    (buf : List Char) (out : List Segment) :
    parseLoop input (before ++ bytes ++ after) before.length buf out =
      parseLoop input (before ++ bytes ++ after) (before ++ bytes).length
        (buf ++ bytes.map fun b => Char.ofNat b.toNat) out := by
  induction bytes generalizing before buf with
  | nil => rw [List.append_nil, List.map_nil, List.append_nil]
  | cons b bytes ih =>
      have hb : b ≠ 0x24 := h b List.mem_cons_self
      have hstep := @ih (before ++ [b]) (fun b' hb' => h b' (List.mem_cons_of_mem b hb'))
        (buf ++ [Char.ofNat b.toNat])
      have hlist : before ++ [b] ++ bytes = before ++ b :: bytes := by simp
      rw [hlist, List.append_assoc buf] at hstep
      rw [parseLoop]
      have hlt : before.length < (before ++ b :: bytes ++ after).length := by simp
      have hget : (before ++ b :: bytes ++ after)[before.length] = b := by simp
      rw [dif_pos hlt]
      dsimp only
      rw [hget, if_neg (fun hand => hb hand.1), if_neg (fun hand => hb hand.1)]
      rw [List.length_append, List.length_singleton] at hstep
      exact hstep

theorem encode_dollar (rest : List Char) : Utf8.encode ('$' :: rest) = 0x24 :: Utf8.encode rest := rfl

/-- The byte of an ASCII character comes first just where the character does. -/
theorem encode_head_iff {c : Char} (hc : c.toNat < 0x80) (rest : List Char) :
    (Utf8.encode rest)[0]? = some (.ofNat c.toNat) ↔ rest.head? = some c := by
  cases rest with
  | nil =>
      constructor
      · intro h
        cases h
      · intro h
        cases h
  | cons d rest =>
      obtain ⟨b, bs, hbytes, -, -⟩ := Utf8.encodeChar_eq_cons d
      have hencode : Utf8.encode (d :: rest) = b :: (bs ++ Utf8.encode rest) := by
        rw [Utf8.encode, List.flatMap_cons, hbytes]
        rfl
      rw [hencode, List.getElem?_cons_zero, List.head?_cons, Option.some_inj, Option.some_inj]
      constructor
      · intro hb
        have hmem : UInt8.ofNat c.toNat ∈ Utf8.encodeChar d := by
          rw [hbytes, hb]
          exact List.mem_cons_self
        have hvalue := Utf8.toNat_of_mem_encodeChar hmem (by rw [Utf8.toNat_ofNat (by omega)]; exact hc)
        rw [Utf8.toNat_ofNat (by omega)] at hvalue
        exact Char.toNat_inj.mp hvalue
      · intro hd
        rw [hd, Utf8.encodeChar_ascii hc] at hbytes
        exact (List.cons.inj hbytes).1.symm

theorem encode_getElem? (before cs : List Char) (k : Nat) :
    (Utf8.encode (before ++ cs))[(Utf8.encode before).length + k]? = (Utf8.encode cs)[k]? := by
  rw [Utf8.encode_append, List.getElem?_append_right (Nat.le_add_right _ _), Nat.add_sub_cancel_left]

theorem encode_concat_length (before : List Char) {c : Char} (hc : c.toNat < 0x80) :
    (Utf8.encode (before ++ [c])).length = (Utf8.encode before).length + 1 := by
  rw [Utf8.encode_append, List.length_append, Utf8.encode, Utf8.encode, List.flatMap_singleton,
    Utf8.encodeChar_ascii hc]
  rfl

/-- The loop where it comes to a dollar sign. -/
theorem parseLoop_dollar {input : String} {before rest : List Char}
    (h : input.toList = before ++ '$' :: rest) :
    ∃ hlt : (Utf8.encode before).length < (Utf8.encode input.toList).length,
      (Utf8.encode input.toList)[(Utf8.encode before).length] = 0x24 ∧
        ((Utf8.encode input.toList)[(Utf8.encode before).length + 1]? = some 0x24 ↔ rest.head? = some '$') ∧
        ((Utf8.encode input.toList)[(Utf8.encode before).length + 1]? = some 0x7B ↔ rest.head? = some '{') := by
  have hfirst := encode_getElem? before ('$' :: rest) 0
  have hsecond := encode_getElem? before ('$' :: rest) 1
  rw [← h, encode_dollar] at hfirst hsecond
  rw [Nat.add_zero, List.getElem?_cons_zero] at hfirst
  rw [List.getElem?_cons_succ] at hsecond
  obtain ⟨hlt, hbyte⟩ := List.getElem?_eq_some_iff.mp hfirst
  refine ⟨hlt, hbyte, ?_, ?_⟩
  · rw [hsecond]
    exact encode_head_iff (c := '$') (by decide) rest
  · rw [hsecond]
    exact encode_head_iff (c := '{') (by decide) rest

/-- What the loop takes the rest of the text for, behind the opening of a reference. -/
theorem slice_after_open {input : String} {before rest : List Char}
    (h : input.toList = before ++ '$' :: '{' :: rest) :
    slice (Utf8.encode input.toList) ((Utf8.encode before).length + 2) (Utf8.encode input.toList).length =
      some rest := by
  have hopen : (Utf8.encode (before ++ ['$', '{'])).length = (Utf8.encode before).length + 2 := by
    rw [Utf8.encode_append, List.length_append]
    rfl
  have hinput : before ++ ['$', '{'] ++ rest = input.toList := by rw [h]; simp
  have hrest := slice_encode (before ++ ['$', '{']) rest []
  rw [List.append_nil, hopen, hinput] at hrest
  exact hrest

theorem parseLoop_unclosed {input : String} {before rest : List Char}
    (h : input.toList = before ++ '$' :: '{' :: rest) (hrest : '}' ∉ rest) (buf : List Char)
    (out : List Segment) :
    parseLoop input (Utf8.encode input.toList) (Utf8.encode before).length buf out =
      some (.error (.badReference input)) := by
  obtain ⟨hlt, hbyte, hdollar, hbrace⟩ := parseLoop_dollar h
  rw [parseLoop, dif_pos hlt]
  dsimp only
  rw [hbyte, if_neg (fun hand => by rw [hdollar] at hand; cases hand.2), if_pos ⟨rfl, hbrace.mpr rfl⟩,
    slice_after_open h]
  dsimp only
  rw [find, splitOnce_eq_none_iff.mpr hrest]
  rfl

/-- A closed reference is cut out of the text, and the loop goes on behind it. -/
theorem parseLoop_closed {input : String} {before body tail : List Char}
    (h : input.toList = before ++ '$' :: '{' :: (body ++ '}' :: tail)) (hbody : '}' ∉ body) (buf : List Char)
    (out : List Segment) :
    parseLoop input (Utf8.encode input.toList) (Utf8.encode before).length buf out =
      (parseRefBody body input).casesOn (fun e => some (.error e)) fun segment =>
        parseLoop input (Utf8.encode input.toList)
          (Utf8.encode (before ++ ['$', '{'] ++ body ++ ['}'])).length [] (flush out buf ++ [segment]) := by
  obtain ⟨hlt, hbyte, hdollar, hbrace⟩ := parseLoop_dollar h
  have hopen : (Utf8.encode (before ++ ['$', '{'])).length = (Utf8.encode before).length + 2 := by
    rw [Utf8.encode_append, List.length_append]
    rfl
  have hfind : find '}' (body ++ '}' :: tail) = some (Utf8.encode body).length := by
    rw [find, splitOnce_append hbody]
    rfl
  have hstop := slice_encode (before ++ ['$', '{']) body ('}' :: tail)
  have hinput : before ++ ['$', '{'] ++ body ++ '}' :: tail = input.toList := by rw [h]; simp
  rw [hinput, Utf8.encode_append _ body, List.length_append, hopen] at hstop
  have hclose : (Utf8.encode (before ++ ['$', '{'] ++ body ++ ['}'])).length =
      (Utf8.encode before).length + 2 + (Utf8.encode body).length + 1 := by
    rw [encode_concat_length (before ++ ['$', '{'] ++ body) (c := '}') (by decide), Utf8.encode_append _ body,
      List.length_append, hopen]
  rw [parseLoop, dif_pos hlt]
  dsimp only
  rw [hbyte, if_neg (fun hand => by rw [hdollar] at hand; cases hand.2), if_pos ⟨rfl, hbrace.mpr rfl⟩,
    slice_after_open h]
  dsimp only
  rw [hfind]
  dsimp only
  rw [hstop, hclose]
  dsimp only
  cases parseRefBody body input <;> rfl

/-- A character that is no dollar sign is pushed byte by byte. -/
theorem parseLoop_char {input : String} {before rest : List Char} {c : Char}
    (h : input.toList = before ++ c :: rest) (hc : c ≠ '$') (buf : List Char) (out : List Segment) :
    parseLoop input (Utf8.encode input.toList) (Utf8.encode before).length buf out =
      parseLoop input (Utf8.encode input.toList) (Utf8.encode (before ++ [c])).length (buf ++ latin c) out := by
  have hbytes : Utf8.encode input.toList =
      Utf8.encode before ++ Utf8.encodeChar c ++ Utf8.encode rest := by
    rw [h, Utf8.encode_append, List.append_assoc]
    rfl
  have hbefore : Utf8.encode (before ++ [c]) = Utf8.encode before ++ Utf8.encodeChar c := by
    rw [Utf8.encode_append, Utf8.encode, Utf8.encode, List.flatMap_singleton]
  rw [hbytes, hbefore]
  apply parseLoop_push
  intro b hb heq
  apply hc
  rw [heq] at hb
  exact Char.toNat_inj.mp (Utf8.toNat_of_mem_encodeChar hb (by decide))

theorem parseLoop_eq_scan (input : String) (n : Nat) {cs before buf : List Char} {out : List Segment}
    (hn : cs.length ≤ n) (h : input.toList = before ++ cs) :
    parseLoop input (Utf8.encode input.toList) (Utf8.encode before).length buf out =
      some (scan input cs buf out) := by
  induction n generalizing cs before buf out with
  | zero =>
      obtain rfl := List.length_eq_zero_iff.mp (Nat.le_zero.mp hn)
      rw [h, List.append_nil, parseLoop, dif_neg (Nat.lt_irrefl _), scan_nil]
  | succ n ih =>
      cases cs with
      | nil => rw [h, List.append_nil, parseLoop, dif_neg (Nat.lt_irrefl _), scan_nil]
      | cons c rest =>
          rw [List.length_cons] at hn
          have hmore : input.toList = before ++ [c] ++ rest := by rw [h]; simp
          by_cases hc : c = '$'
          · subst hc
            obtain ⟨hlt, hbyte, hdollar, hbrace⟩ := parseLoop_dollar h
            by_cases hfirst : rest.head? = some '$'
            · obtain ⟨rest, rfl⟩ := List.head?_eq_some_iff.mp hfirst
              have hpair : input.toList = before ++ ['$', '$'] ++ rest := by rw [h]; simp
              have hlength : (Utf8.encode (before ++ ['$', '$'])).length =
                  (Utf8.encode before).length + 2 := by
                rw [Utf8.encode_append, List.length_append]
                rfl
              rw [List.length_cons] at hn
              rw [parseLoop, dif_pos hlt]
              dsimp only
              rw [hbyte, if_pos ⟨rfl, hdollar.mpr rfl⟩, scan_escape, ← hlength]
              exact ih (by omega) hpair
            by_cases hsecond : rest.head? = some '{'
            · obtain ⟨rest, rfl⟩ := List.head?_eq_some_iff.mp hsecond
              cases hsplit : splitOnce '}' rest with
              | none =>
                  have hrest := splitOnce_eq_none_iff.mp hsplit
                  rw [parseLoop_unclosed h hrest, scan_unclosed input hrest]
              | some found =>
                  obtain ⟨body, tail⟩ := found
                  obtain ⟨rfl, hbody⟩ := splitOnce_some hsplit
                  have hnext : input.toList = before ++ ['$', '{'] ++ body ++ ['}'] ++ tail := by
                    rw [h]
                    simp
                  simp only [List.length_cons, List.length_append] at hn
                  rw [parseLoop_closed h hbody, scan_closed input hbody]
                  cases parseRefBody body input with
                  | error e => rfl
                  | ok segment => exact ih (by omega) hnext
            · have hplain : Plain '$' rest := fun _ => ⟨hfirst, hsecond⟩
              rw [parseLoop, dif_pos hlt]
              dsimp only
              rw [hbyte, if_neg (fun hand => hfirst (hdollar.mp hand.2)),
                if_neg (fun hand => hsecond (hbrace.mp hand.2)), scan_plain input hplain,
                ← encode_concat_length before (c := '$') (by decide)]
              exact ih (by omega) hmore
          · have hplain : Plain c rest := fun heq => absurd heq hc
            rw [parseLoop_char h hc, scan_plain input hplain]
            exact ih (by omega) hmore

/-- The parser never panics, and does what the scanner does. -/
theorem parse_eq_scan (input : String) : parse input = some (scan input input.toList [] []) :=
  @parseLoop_eq_scan input input.toList.length input.toList [] [] [] (Nat.le_refl _) rfl

end Config

end Overacp
