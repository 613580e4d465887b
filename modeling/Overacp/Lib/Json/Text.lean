import Overacp.Lib.Json.Value

/-!
# JSON texts

The compact printer and a parser with a limit on nesting. The printer writes no whitespace and
escapes what it must; the parser accepts any text of the grammar that is not nested deeper than the
limit. Parsing what was printed gives the value back exactly when the limit allows it.
-/

namespace Json

/-! ### Printing -/

def hexDigit (n : Nat) : Char := if n < 10 then Char.ofNat ('0'.toNat + n) else Char.ofNat ('a'.toNat + (n - 10))

def escapeChar (c : Char) : List Char :=
  if c = '"' then ['\\', '"']
  else if c = '\\' then ['\\', '\\']
  else if c = '\x08' then ['\\', 'b']
  else if c = '\x0c' then ['\\', 'f']
  else if c = '\n' then ['\\', 'n']
  else if c = '\r' then ['\\', 'r']
  else if c = '\t' then ['\\', 't']
  else if c.toNat < 0x20 then ['\\', 'u', '0', '0', hexDigit (c.toNat / 16), hexDigit (c.toNat % 16)]
  else [c]

def printString (s : String) : List Char := '"' :: (s.toList.flatMap escapeChar ++ ['"'])

mutual

def print : Json → List Char
  | null => ['n', 'u', 'l', 'l']
  | bool true => ['t', 'r', 'u', 'e']
  | bool false => ['f', 'a', 'l', 's', 'e']
  | number n => n.lexeme
  | string s => printString s
  | array [] => ['[', ']']
  | array (v :: vs) => '[' :: (v.print ++ printElems vs)
  | object [] => ['{', '}']
  | object ((k, v) :: ms) => '{' :: (printString k ++ ':' :: (v.print ++ printMembers ms))

/-- What follows an element: the others, each after a comma, and the bracket. -/
def printElems : List Json → List Char
  | [] => [']']
  | v :: vs => ',' :: (v.print ++ printElems vs)

def printMembers : List (String × Json) → List Char
  | [] => ['}']
  | (k, v) :: ms => ',' :: (printString k ++ ':' :: (v.print ++ printMembers ms))

end

/-! ### Parsing -/

def isWs (c : Char) : Bool := c = ' ' || c = '\n' || c = '\t' || c = '\r'

def skipWs (cs : List Char) : List Char := cs.dropWhile isWs

def hexValue (c : Char) : Option Nat :=
  if '0' ≤ c ∧ c ≤ '9' then some (c.toNat - '0'.toNat)
  else if 'a' ≤ c ∧ c ≤ 'f' then some (c.toNat - 'a'.toNat + 10)
  else if 'A' ≤ c ∧ c ≤ 'F' then some (c.toNat - 'A'.toNat + 10)
  else none

def hexValue4 (a b c d : Char) : Option Nat :=
  match hexValue a, hexValue b, hexValue c, hexValue d with
  | some a, some b, some c, some d => some (((a * 16 + b) * 16 + c) * 16 + d)
  | _, _, _, _ => none

def unescape (c : Char) : Option Char :=
  if c = '"' ∨ c = '\\' ∨ c = '/' then some c
  else if c = 'b' then some '\x08'
  else if c = 'f' then some '\x0c'
  else if c = 'n' then some '\n'
  else if c = 'r' then some '\r'
  else if c = 't' then some '\t'
  else none

/-- The rest of a string after its opening quote. A surrogate counts only as half of a pair. -/
def parseStringBody : List Char → Option (List Char × List Char)
  | [] => none
  | '"' :: cs => some ([], cs)
  | '\\' :: 'u' :: a :: b :: c :: d :: cs =>
      match hexValue4 a b c d with
      | none => none
      | some n =>
          if n < 0xD800 ∨ 0xE000 ≤ n then
            (parseStringBody cs).map fun p => (Char.ofNat n :: p.1, p.2)
          else match cs with
            | '\\' :: 'u' :: e :: f :: g :: h :: cs =>
                match hexValue4 e f g h with
                | none => none
                | some m =>
                    if n < 0xDC00 ∧ 0xDC00 ≤ m ∧ m < 0xE000 then
                      (parseStringBody cs).map fun p =>
                        (Char.ofNat (0x10000 + (n - 0xD800) * 0x400 + (m - 0xDC00)) :: p.1, p.2)
                    else none
            | _ => none
  | '\\' :: c :: cs =>
      match unescape c with
      | none => none
      | some c => (parseStringBody cs).map fun p => (c :: p.1, p.2)
  | c :: cs => if c.toNat < 0x20 then none else (parseStringBody cs).map fun p => (c :: p.1, p.2)

def parseString (cs : List Char) : Option (String × List Char) :=
  (parseStringBody cs).map fun p => (String.ofList p.1, p.2)

def parseNumber (cs : List Char) : Option (Json × List Char) :=
  if h : isNumber (cs.takeWhile isNumberChar) = true then
    some (number ⟨cs.takeWhile isNumberChar, h⟩, cs.dropWhile isNumberChar)
  else none

/-- The rest of a keyword after its first letter. -/
def keyword (letters : List Char) (value : Json) (cs : List Char) : Option (Json × List Char) :=
  if letters.isPrefixOf cs then some (value, cs.drop letters.length) else none

section

variable (readString : List Char → Option (String × List Char))

mutual

/-- Parse one value; `depth` is how many more arrays and objects may open, and `readString` reads the rest of a string
after its opening quote. -/
def parseValue : Nat → Nat → List Char → Option (Json × List Char)
  | 0, _, _ => none
  | fuel + 1, depth, cs =>
      match skipWs cs with
      | [] => none
      | c :: cs =>
          if c = 'n' then keyword ['u', 'l', 'l'] null cs
          else if c = 't' then keyword ['r', 'u', 'e'] (bool true) cs
          else if c = 'f' then keyword ['a', 'l', 's', 'e'] (bool false) cs
          else if c = '"' then (readString cs).map fun p => (string p.1, p.2)
          else if c = '[' then
            match depth with
            | 0 => none
            | depth + 1 => (parseArray fuel depth cs).map fun p => (array p.1, p.2)
          else if c = '{' then
            match depth with
            | 0 => none
            | depth + 1 => (parseObject fuel depth cs).map fun p => (object p.1, p.2)
          else parseNumber (c :: cs)
termination_by structural fuel => fuel

def parseArray : Nat → Nat → List Char → Option (List Json × List Char)
  | 0, _, _ => none
  | fuel + 1, depth, cs =>
      match skipWs cs with
      | ']' :: cs => some ([], cs)
      | cs =>
          (parseValue fuel depth cs).bind fun p =>
            (parseElems fuel depth p.2).map fun q => (p.1 :: q.1, q.2)
termination_by structural fuel => fuel

def parseElems : Nat → Nat → List Char → Option (List Json × List Char)
  | 0, _, _ => none
  | fuel + 1, depth, cs =>
      match skipWs cs with
      | ']' :: cs => some ([], cs)
      | ',' :: cs =>
          (parseValue fuel depth cs).bind fun p =>
            (parseElems fuel depth p.2).map fun q => (p.1 :: q.1, q.2)
      | _ => none
termination_by structural fuel => fuel

def parseMember : Nat → Nat → List Char → Option ((String × Json) × List Char)
  | 0, _, _ => none
  | fuel + 1, depth, cs =>
      match skipWs cs with
      | '"' :: cs =>
          (readString cs).bind fun p =>
            match skipWs p.2 with
            | ':' :: cs => (parseValue fuel depth cs).map fun q => ((p.1, q.1), q.2)
            | _ => none
      | _ => none
termination_by structural fuel => fuel

def parseObject : Nat → Nat → List Char → Option (List (String × Json) × List Char)
  | 0, _, _ => none
  | fuel + 1, depth, cs =>
      match skipWs cs with
      | '}' :: cs => some ([], cs)
      | cs =>
          (parseMember fuel depth cs).bind fun p =>
            (parseMembers fuel depth p.2).map fun q => (p.1 :: q.1, q.2)
termination_by structural fuel => fuel

def parseMembers : Nat → Nat → List Char → Option (List (String × Json) × List Char)
  | 0, _, _ => none
  | fuel + 1, depth, cs =>
      match skipWs cs with
      | '}' :: cs => some ([], cs)
      | ',' :: cs =>
          (parseMember fuel depth cs).bind fun p =>
            (parseMembers fuel depth p.2).map fun q => (p.1 :: q.1, q.2)
      | _ => none
termination_by structural fuel => fuel

end

end

/-- How deep a text may be nested. -/
def maxNesting : Nat := 127

/-- Parse a text that is one value and nothing else but whitespace. -/
def parse (cs : List Char) : Option Json :=
  match parseValue parseString (3 * cs.length + 1) maxNesting cs with
  | none => none
  | some (v, rest) => if skipWs rest = [] then some v else none

end Json
