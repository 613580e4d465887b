import Mathlib.Algebra.GroupWithZero.Nat
import Mathlib.Data.List.Basic
import Mathlib.Data.Rat.Defs

/-!
# JSON values

A JSON text as it was written: numbers keep their lexeme, objects keep their members in the order
of the text, duplicates included. `collapse` is what is left once every object has been read into a
map ordered by key, and `fields` is how a record is read out of a text without going through a map.
-/

namespace Json

/-! ### Number lexemes -/

def isNumberChar (c : Char) : Bool :=
  c.isDigit || c = '-' || c = '+' || c = '.' || c = 'e' || c = 'E'

def digits : List Char → Bool
  | [] => false
  | [c] => c.isDigit
  | c :: cs => c.isDigit && digits cs

def isExponent : List Char → Bool
  | [] => true
  | c :: '+' :: cs | c :: '-' :: cs => (c = 'e' || c = 'E') && digits cs
  | c :: cs => (c = 'e' || c = 'E') && digits cs

def isFraction : List Char → Bool
  | '.' :: cs => digits (cs.takeWhile Char.isDigit) && isExponent (cs.dropWhile Char.isDigit)
  | cs => isExponent cs

/-- No leading zero, then an optional fraction and an optional exponent. -/
def isUnsigned : List Char → Bool
  | '0' :: cs => isFraction cs
  | cs => digits (cs.takeWhile Char.isDigit) && isFraction (cs.dropWhile Char.isDigit)

def isNumber (cs : List Char) : Bool :=
  cs.all isNumberChar && match cs with
    | '-' :: cs => isUnsigned cs
    | cs => isUnsigned cs

/-- A number, as it was written. -/
structure Number where
  lexeme : List Char
  valid : isNumber lexeme = true
  deriving DecidableEq, Repr

namespace Number

def natOfDigits (cs : List Char) : Nat := cs.foldl (fun n c => 10 * n + (c.toNat - '0'.toNat)) 0

/-- The value of a lexeme of digits that fits the width: what an unsigned field accepts. -/
def toUnsigned (n : Number) (width : Nat) : Option Nat :=
  if n.lexeme.all Char.isDigit ∧ natOfDigits n.lexeme < 2 ^ width then some (natOfDigits n.lexeme)
  else none

def scaled (mantissa : ℤ) : List Char → ℚ
  | '-' :: cs => mantissa / 10 ^ natOfDigits cs
  | '+' :: cs => mantissa * 10 ^ natOfDigits cs
  | cs => mantissa * 10 ^ natOfDigits cs

def unsignedValue (cs : List Char) : ℚ :=
  let whole := cs.takeWhile Char.isDigit
  let tail := cs.dropWhile Char.isDigit
  let frac := match tail with
    | '.' :: tail => tail.takeWhile Char.isDigit
    | _ => []
  let exponent := match tail with
    | '.' :: tail => tail.dropWhile Char.isDigit
    | tail => tail
  scaled (natOfDigits (whole ++ frac)) (exponent.drop 1) / 10 ^ frac.length

def toRat (n : Number) : ℚ :=
  match n.lexeme with
  | '-' :: cs => -unsignedValue cs
  | cs => unsignedValue cs

end Number

end Json

/-- A JSON value, object members in the order they were written. -/
inductive Json where
  | null
  | bool (value : Bool)
  | number (value : Json.Number)
  | string (value : String)
  | array (elems : List Json)
  | object (members : List (String × Json))
  deriving Repr

namespace Json

/-! ### Nesting -/

mutual

/-- How deep arrays and objects are nested. -/
def nesting : Json → Nat
  | array elems => nestingElems elems + 1
  | object members => nestingMembers members + 1
  | _ => 0

def nestingElems : List Json → Nat
  | [] => 0
  | v :: vs => max v.nesting (nestingElems vs)

def nestingMembers : List (String × Json) → Nat
  | [] => 0
  | (_, v) :: ms => max v.nesting (nestingMembers ms)

end

/-! ### Objects as maps -/

/-- Put a member into a list ordered by key, in the place of the one that has the key already. -/
def insertMember (key : String) (value : Json) : List (String × Json) → List (String × Json)
  | [] => [(key, value)]
  | (k, v) :: ms =>
      if key < k then (key, value) :: (k, v) :: ms
      else if key = k then (key, value) :: ms
      else (k, v) :: insertMember key value ms

theorem mem_insertMember {key : String} {value : Json} {map : List (String × Json)} {m : String × Json}
    (hm : m ∈ insertMember key value map) : m = (key, value) ∨ m ∈ map := by
  induction map with
  | nil => exact .inl (List.mem_singleton.mp hm)
  | cons m' ms ih =>
      obtain ⟨k, v⟩ := m'
      rw [insertMember] at hm
      split at hm
      · exact List.mem_cons.mp hm
      · split at hm
        · exact (List.mem_cons.mp hm).imp_right (List.mem_cons_of_mem _)
        · rcases List.mem_cons.mp hm with rfl | hrest
          · exact .inr List.mem_cons_self
          · exact (ih hrest).imp_right (List.mem_cons_of_mem _)

mutual

/-- Read every object into a map ordered by key, the last of several members with a key winning. -/
def collapse : Json → Json
  | array elems => array (collapseElems elems)
  | object members => object (collapseMembers members [])
  | v => v

def collapseElems : List Json → List Json
  | [] => []
  | v :: vs => v.collapse :: collapseElems vs

def collapseMembers : List (String × Json) → List (String × Json) → List (String × Json)
  | [], map => map
  | (k, v) :: ms, map => collapseMembers ms (insertMember k v.collapse map)

end

/-- The member of a map with the key. -/
def get (value : Json) (key : String) : Option Json :=
  match value with
  | object members => (members.find? fun m => m.1 = key).map Prod.snd
  | _ => none

def asStr : Json → Option String
  | string s => some s
  | _ => none

def asBool : Json → Option Bool
  | bool b => some b
  | _ => none

def asArray : Json → Option (List Json)
  | array elems => some elems
  | _ => none

/-! ### Records -/

/-- A field of a record: its key, and whether it may be left out of the positional form. -/
structure Field where
  key : String
  hasDefault : Bool

/-- The value a key has, `none` when it is written twice. -/
def unique (members : List (String × Json)) (key : String) : Option (Option Json) :=
  match members.filter fun m => m.1 = key with
  | [] => some none
  | [m] => some (some m.2)
  | _ => none

def positional : List Field → List Json → Option (List (Option Json))
  | [], [] => some []
  | [], _ :: _ => none
  | f :: fs, [] => if f.hasDefault then (positional fs []).map (none :: ·) else none
  | _ :: fs, v :: vs => (positional fs vs).map (some v :: ·)

/-- The fields of a record, in order: by key out of an object, unknown keys ignored, or by position
out of an array. -/
def fields (spec : List Field) : Json → Option (List (Option Json))
  | object members => spec.mapM fun f => unique members f.key
  | array elems => positional spec elems
  | _ => none

/-- A unit variant of an enumeration: its name, or an object with its name over `null`. -/
def unitVariant : Json → Option String
  | string s => some s
  | object [(s, null)] => some s
  | _ => none

def unsigned (width : Nat) : Json → Option Nat
  | number n => n.toUnsigned width
  | _ => none

/-- A floating point field holds what `readFloat` makes of a number. -/
def float (readFloat : Number → Option ℚ) : Json → Option ℚ
  | number n => readFloat n
  | _ => none

def listOf {α : Type} (decode : Json → Option α) : Json → Option (List α)
  | array elems => elems.mapM decode
  | _ => none

/-- An optional field: left out or `null`, or a value that decodes. -/
def optional {α : Type} (decode : Json → Option α) : Option Json → Option (Option α)
  | none | some null => some none
  | some v => (decode v).map some

/-- A field with a default: left out, or a value that decodes; `null` is no value here. -/
def withDefault {α : Type} (default : α) (decode : Json → Option α) : Option Json → Option α
  | none => some default
  | some v => decode v

end Json
