import Overacp.Lib.Json.Extent
import Overacp.Lib.Json.Record

/-!
# Reading a text as a record

A record is read straight from its text. The members it names are read, by key or by place; of any other only the
grammar is looked at. So a surrogate without its half, or a value nested however deep, is an error only where it is
read.
-/

namespace Json

/-! ### Strings as they are spelt -/

/-- The rest of a string after its opening quote, as it is spelt; a surrogate is an escape like any other. -/
def spellingBody : List Char → Option (List Char × List Char)
  | [] => none
  | '"' :: cs => some ([], cs)
  | '\\' :: 'u' :: a :: b :: c :: d :: cs =>
      match hexValue4 a b c d with
      | none => none
      | some _ => (spellingBody cs).map fun p => ('\\' :: 'u' :: a :: b :: c :: d :: p.1, p.2)
  | '\\' :: c :: cs =>
      match unescape c with
      | none => none
      | some _ => (spellingBody cs).map fun p => ('\\' :: c :: p.1, p.2)
  | c :: cs => if c.toNat < 0x20 then none else (spellingBody cs).map fun p => (c :: p.1, p.2)

def spelling (cs : List Char) : Option (String × List Char) :=
  (spellingBody cs).map fun p => (String.ofList p.1, p.2)

/-- What a spelling stands for, if it is text. -/
def text (raw : String) : Option String :=
  match parseStringBody (raw.toList ++ ['"']) with
  | some (chars, []) => some (String.ofList chars)
  | _ => none

/-- A text as a value whose strings and keys are as they are spelt, which may be nested as deep as it is long. -/
def spelt (cs : List Char) : Option Json := parseWithin spelling cs.length cs

theorem spellingBody_unescape {c c' : Char} (h : unescape c = some c') (cs : List Char) :
    spellingBody ('\\' :: c :: cs) = (spellingBody cs).map fun p => ('\\' :: c :: p.1, p.2) := by
  rw [spellingBody.eq_def]
  split
  · rename_i heq
    cases heq
  · rename_i heq
    cases heq
  · rename_i heq
    cases heq
    rw [show unescape 'u' = none by decide] at h
    cases h
  · rename_i heq
    cases heq
    rw [h]
  · rename_i hescape heq
    cases heq
    exact absurd rfl (hescape c cs rfl)

theorem spellingBody_plain {c : Char} (hquote : c ≠ '"') (hslash : c ≠ '\\') (hc : ¬ c.toNat < 0x20) (cs : List Char) :
    spellingBody (c :: cs) = (spellingBody cs).map fun p => (c :: p.1, p.2) := by
  rw [spellingBody.eq_def]
  split
  · rename_i heq
    cases heq
  · rename_i heq
    cases heq
    exact absurd rfl hquote
  · rename_i heq
    cases heq
    exact absurd rfl hslash
  · rename_i heq
    cases heq
    exact absurd rfl hslash
  · rename_i heq
    cases heq
    rw [if_neg hc]

/-- The spelling ends at a quote before `rest`, and is the same whatever follows that quote. -/
def EndsAt (cs chars rest : List Char) : Prop :=
  cs = chars ++ '"' :: rest ∧ ∀ more, spellingBody (chars ++ '"' :: more) = some (chars, more)

theorem EndsAt.prepend {piece cs chars rest : List Char}
    (hread : ∀ more, spellingBody (piece ++ more) = (spellingBody more).map fun p => (piece ++ p.1, p.2))
    (h : (spellingBody cs).map (fun p => (piece ++ p.1, p.2)) = some (chars, rest))
    (hends : ∀ {chars'}, spellingBody cs = some (chars', rest) → EndsAt cs chars' rest) :
    EndsAt (piece ++ cs) chars rest := by
  obtain ⟨⟨chars', rest'⟩, hbody, heq⟩ := Option.map_eq_some_iff.mp h
  cases heq
  obtain ⟨rfl, hmore⟩ := hends hbody
  refine ⟨(List.append_assoc ..).symm, fun more => ?_⟩
  rw [List.append_assoc, hread, hmore, Option.map_some]

/-- What is spelt ends at the first quote that is not escaped. -/
theorem spellingBody_endsAt {cs chars rest : List Char} (h : spellingBody cs = some (chars, rest)) :
    EndsAt cs chars rest := by
  fun_induction spellingBody cs generalizing chars with
  | case1 => cases h
  | case2 cs =>
      cases h
      exact ⟨rfl, fun _ => rfl⟩
  | case3 => cases h
  | case4 a b c d cs n hhex ih =>
      refine @EndsAt.prepend ['\\', 'u', a, b, c, d] cs chars rest (fun more => ?_) h ih
      simp only [List.cons_append, List.nil_append, spellingBody, hhex]
  | case5 => cases h
  | case6 c cs hu c' hunescape ih =>
      exact @EndsAt.prepend ['\\', c] cs chars rest (spellingBody_unescape hunescape) h ih
  | case7 => cases h
  | case8 c cs hquote hu hescape hcontrol ih =>
      have hslash : c ≠ '\\' := by
        rintro rfl
        cases cs with
        | nil => cases h
        | cons d cs => exact hescape d cs rfl rfl
      exact @EndsAt.prepend [c] cs chars rest (spellingBody_plain hquote hslash hcontrol) h ih

theorem closing_spelling : Closing spelling := by
  intro cs rest s h
  obtain ⟨⟨chars, rest'⟩, hbody, heq⟩ := Option.map_eq_some_iff.mp h
  cases heq
  obtain ⟨hcs, hmore⟩ := spellingBody_endsAt hbody
  refine ⟨chars, '"', hcs, by decide, fun _ rest' _ _ => ?_⟩
  dsimp only
  rw [spelling, hmore rest', Option.map_some]

/-! ### What is text of a spelt value -/

mutual

/-- Each string as what it stands for: one that is no text is `null`, a key that is none is left out. -/
def loosely : Json → Json
  | string raw => match text raw with
      | some s => string s
      | none => null
  | array elems => array (looselyElems elems)
  | object members => object (looselyMembers members)
  | v => v

def looselyElems : List Json → List Json
  | [] => []
  | v :: vs => v.loosely :: looselyElems vs

def looselyMembers : List (String × Json) → List (String × Json)
  | [] => []
  | (raw, v) :: ms =>
      match text raw with
      | some key => (key, v.loosely) :: looselyMembers ms
      | none => looselyMembers ms

end

/-! ### What is read of a value -/

/-- What is read of a value: all of it, or something of each element, or something of the members that are named. -/
inductive Shape where
  | whole
  | list (elem : Shape)
  | record (fields : List (String × Shape))

namespace Shape

/-- The shapes of the first elements. -/
def elems : Shape → List Shape
  | record fields => fields.map Prod.snd
  | _ => []

/-- The shape of every other element. -/
def others : Shape → Shape
  | list elem => elem
  | _ => whole

/-- The shape of a member, `none` where it is passed over. -/
def member : Shape → String → Option Shape
  | record fields, key => (fields.find? fun field => field.1 = key).map Prod.snd
  | _, _ => some whole

end Shape

mutual

/-- The value without what the shape does not name. -/
def prune : Shape → Json → Json
  | shape, array elems => array (pruneElems shape.elems shape.others elems)
  | shape, object members => object (pruneMembers shape members)
  | _, v => v

def pruneElems : List Shape → Shape → List Json → List Json
  | _, _, [] => []
  | shapes, others, v :: vs => v.prune (shapes.headD others) :: pruneElems shapes.tail others vs

/-- A member that is passed over is `null`. -/
def pruneMembers : Shape → List (String × Json) → List (String × Json)
  | _, [] => []
  | shape, (key, v) :: ms =>
      (key, match shape.member key with
        | some shape => v.prune shape
        | none => null) :: pruneMembers shape ms

end

mutual

/-- Read of a spelt value what the shape names; `depth` is how many more arrays and objects may open. -/
def readAs : Shape → Nat → Json → Option Json
  | _, _, string raw => (text raw).map string
  | _, 0, array _ => none
  | shape, depth + 1, array elems => (readElems shape.elems shape.others depth elems).map array
  | _, 0, object _ => none
  | shape, depth + 1, object members => (readMembers shape depth members).map object
  | _, _, v => some v

def readElems : List Shape → Shape → Nat → List Json → Option (List Json)
  | _, _, _, [] => some []
  | shapes, others, depth, v :: vs =>
      (v.readAs (shapes.headD others) depth).bind fun v =>
        (readElems shapes.tail others depth vs).map (v :: ·)

def readMembers : Shape → Nat → List (String × Json) → Option (List (String × Json))
  | _, _, [] => some []
  | shape, depth, (raw, v) :: ms =>
      (text raw).bind fun key =>
        (match shape.member key with
          | some shape => v.readAs shape depth
          | none => some null).bind fun v =>
            (readMembers shape depth ms).map ((key, v) :: ·)

end

/-- Read of a text what the shape names. -/
def parseAs (shape : Shape) (cs : List Char) : Option Json := (spelt cs).bind (readAs shape maxNesting)

mutual

/-- What is read of a spelt value is what the shape names of its text. -/
theorem readAs_eq {shape : Shape} {depth : Nat} : ∀ {raw v : Json}, raw.readAs shape depth = some v →
    v = raw.loosely.prune shape
  | null, v, h => (Option.some.inj h).symm
  | bool _, v, h => (Option.some.inj h).symm
  | number _, v, h => (Option.some.inj h).symm
  | string raw, v, h => by
      obtain ⟨s, hs, rfl⟩ := Option.map_eq_some_iff.mp h
      rw [loosely, hs]
      rfl
  | array elems, v, h => by
      cases depth with
      | zero => cases h
      | succ depth =>
          obtain ⟨vs, hvs, rfl⟩ := Option.map_eq_some_iff.mp h
          rw [readElems_eq hvs]
          rfl
  | object members, v, h => by
      cases depth with
      | zero => cases h
      | succ depth =>
          obtain ⟨ms, hms, rfl⟩ := Option.map_eq_some_iff.mp h
          rw [readMembers_eq hms]
          rfl

theorem readElems_eq {shapes : List Shape} {others : Shape} {depth : Nat} :
    ∀ {raw vs : List Json}, readElems shapes others depth raw = some vs →
      vs = pruneElems shapes others (looselyElems raw)
  | [], vs, h => (Option.some.inj h).symm
  | raw :: raws, vs, h => by
      obtain ⟨v, hv, hmore⟩ := Option.bind_eq_some_iff.mp h
      obtain ⟨vs', hvs', rfl⟩ := Option.map_eq_some_iff.mp hmore
      rw [readAs_eq hv, readElems_eq hvs']
      rfl

theorem readMembers_eq {shape : Shape} {depth : Nat} : ∀ {raw ms : List (String × Json)},
    readMembers shape depth raw = some ms → ms = pruneMembers shape (looselyMembers raw)
  | [], ms, h => (Option.some.inj h).symm
  | (raw, v) :: raws, ms, h => by
      obtain ⟨key, hkey, hvalue⟩ := Option.bind_eq_some_iff.mp h
      obtain ⟨v', hv', hmore⟩ := Option.bind_eq_some_iff.mp hvalue
      obtain ⟨ms', hms', rfl⟩ := Option.map_eq_some_iff.mp hmore
      rw [looselyMembers, hkey, pruneMembers, readMembers_eq hms']
      cases hmember : shape.member key with
      | none =>
          rw [hmember] at hv'
          rw [← Option.some.inj hv']
      | some shape =>
          rw [hmember] at hv'
          rw [readAs_eq hv']

end

/-- What a shape names of a value is read through the spelling of the value. -/
theorem parseAs_eq_some {shape : Shape} {cs : List Char} {v : Json} (h : parseAs shape cs = some v) :
    ∃ raw, spelt cs = some raw ∧ v = raw.loosely.prune shape := by
  obtain ⟨raw, hraw, hread⟩ := Option.bind_eq_some_iff.mp h
  exact ⟨raw, hraw, readAs_eq hread⟩

/-! ### The members that a shape names -/

theorem pruneElems_nil (others : Shape) (elems : List Json) :
    pruneElems [] others elems = elems.map (prune others) := by
  induction elems with
  | nil => rfl
  | cons v vs ih => exact congrArg _ ih

theorem filter_pruneMembers {shape inner : Shape} {key : String} (h : shape.member key = some inner)
    (members : List (String × Json)) : (pruneMembers shape members).filter (fun m => m.1 = key) =
      (members.filter fun m => m.1 = key).map fun m => (m.1, m.2.prune inner) := by
  induction members with
  | nil => rfl
  | cons m ms ih =>
      obtain ⟨k, v⟩ := m
      rw [pruneMembers]
      by_cases hkey : k = key
      · subst hkey
        rw [List.filter_cons_of_pos (by simp), List.filter_cons_of_pos (by simp), ih, h]
        rfl
      · rw [List.filter_cons_of_neg (by simpa using hkey), List.filter_cons_of_neg (by simpa using hkey), ih]

theorem unique_pruneMembers {shape inner : Shape} {key : String} (h : shape.member key = some inner)
    (members : List (String × Json)) :
    unique (pruneMembers shape members) key = (unique members key).map (Option.map (prune inner)) := by
  unfold unique
  rw [filter_pruneMembers h]
  cases members.filter fun m => m.1 = key with
  | nil => rfl
  | cons m ms =>
      cases ms with
      | nil => rfl
      | cons m' ms => rfl

/-- What is written under a key that a shape names, where the key was read once. -/
theorem unique_of_prune {shape inner : Shape} {key : String} (h : shape.member key = some inner)
    {members : List (String × Json)} {value : Option Json}
    (hvalue : unique (pruneMembers shape members) key = some value) :
    ∃ written, unique members key = some written ∧ value = written.map (prune inner) := by
  rw [unique_pruneMembers h] at hvalue
  obtain ⟨written, hwritten, rfl⟩ := Option.map_eq_some_iff.mp hvalue
  exact ⟨written, hwritten, rfl⟩

theorem optional_asStr_prune (shape : Shape) (value : Option Json) :
    optional asStr (value.map (prune shape)) = optional asStr value := by
  cases value with
  | none => rfl
  | some v => cases v <;> rfl

end Json
