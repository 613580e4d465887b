import Mathlib.Data.List.Forall2
import Overacp.Lib.Pieces

/-!
# Path patterns

A path is matched piece by piece, between its slashes, against literals and captures. Two patterns are apart if no
path matches both; in a table of patterns that are apart, a path that matches one of them finds it.
-/

namespace PathPattern

inductive Segment where
  | literal (text : List Char)
  | capture (name : String)
  deriving DecidableEq, Repr

abbrev Pattern := List Segment

/-- A capture takes any piece that is not empty. -/
def Segment.accepts : Segment → List Char → Bool
  | .literal text, piece => piece = text
  | .capture _, piece => piece ≠ []

def Segment.captured : Segment → List Char → List (List Char)
  | .literal _, _ => []
  | .capture _, piece => [piece]

/-- The captured pieces, if every piece is accepted. -/
def captureAll : Pattern → List (List Char) → Option (List (List Char))
  | [], [] => some []
  | segment :: pattern, piece :: pieces =>
      if segment.accepts piece then (captureAll pattern pieces).map (segment.captured piece ++ ·) else none
  | _, _ => none

def captures (pattern : Pattern) : List Char → Option (List (List Char))
  | '/' :: path => captureAll pattern (path.splitOn '/')
  | _ => none

/-- The first pattern of a table that matches the path, with what it captures. -/
def lookup {β : Type} (table : List (Pattern × β)) (path : List Char) : Option (β × List (List Char)) :=
  table.findSome? fun e => (captures e.1 path).map (e.2, ·)

def Segment.apart : Segment → Segment → Bool
  | .literal text, .literal text' => text ≠ text'
  | _, _ => false

/-- The patterns differ in length or in a literal. -/
def apart : Pattern → Pattern → Bool
  | [], [] => false
  | segment :: pattern, segment' :: pattern' => segment.apart segment' || apart pattern pattern'
  | _, _ => true

/-! ### One pattern -/

theorem captureAll_cons_eq_some {segment : Segment} {pattern : Pattern} {pieces captured : List (List Char)}
    (h : captureAll (segment :: pattern) pieces = some captured) :
    ∃ piece rest more, pieces = piece :: rest ∧ segment.accepts piece = true ∧ captureAll pattern rest = some more ∧
      captured = segment.captured piece ++ more := by
  cases pieces with
  | nil => cases h
  | cons piece rest =>
      rw [captureAll] at h
      split at h
      · rename_i haccepts
        obtain ⟨more, hmore, rfl⟩ := Option.map_eq_some_iff.mp h
        exact ⟨piece, rest, more, rfl, haccepts, hmore, rfl⟩
      · cases h

theorem Segment.length_of_accepts {text piece : List Char} (h : (Segment.literal text).accepts piece = true) :
    piece.length = text.length := by
  rw [of_decide_eq_true h]

/-- Segments and pieces go together one by one. -/
theorem accepts_of_captureAll {pattern : Pattern} {pieces captured : List (List Char)}
    (h : captureAll pattern pieces = some captured) :
    List.Forall₂ (fun segment piece => segment.accepts piece = true) pattern pieces := by
  induction pattern generalizing pieces captured with
  | nil =>
      cases pieces with
      | nil => exact .nil
      | cons piece rest => cases h
  | cons segment pattern ih =>
      obtain ⟨piece, rest, more, rfl, haccepts, hmore, -⟩ := captureAll_cons_eq_some h
      exact .cons haccepts (ih hmore)

/-- A pattern that begins with a literal and a capture: what is captured first stands between the second slash and
the next. -/
theorem captures_literal_capture {text path : List Char} {name : String} {pattern : Pattern}
    {captured : List (List Char)} (h : captures (.literal text :: .capture name :: pattern) path = some captured) :
    ∃ rest piece more, path = '/' :: (text ++ '/' :: rest) ∧ (rest.splitOn '/').head? = some piece ∧
      captured = piece :: more := by
  rw [captures.eq_def] at h
  split at h
  · rename_i path
    obtain ⟨piece₀, pieces, more₀, hsplit, htext, hpieces, rfl⟩ := captureAll_cons_eq_some h
    obtain ⟨piece, pieces', more, rfl, -, -, rfl⟩ := captureAll_cons_eq_some hpieces
    obtain rfl : piece₀ = text := of_decide_eq_true htext
    obtain ⟨rest, rfl, hrest⟩ := Pieces.splitOn_eq_cons hsplit (List.cons_ne_nil _ _)
    exact ⟨rest, piece, more, rfl, by rw [hrest]; rfl, rfl⟩
  · cases h

/-! ### A table -/

theorem Segment.not_accepts_of_apart {segment segment' : Segment} {piece : List Char}
    (hapart : segment.apart segment' = true) (h : segment.accepts piece = true) :
    segment'.accepts piece = false := by
  cases segment with
  | literal text =>
      cases segment' with
      | literal text' =>
          rw [of_decide_eq_true h]
          exact decide_eq_false (of_decide_eq_true hapart)
      | capture name => cases hapart
  | capture name => cases hapart

theorem captureAll_of_apart {pattern pattern' : Pattern} {pieces captured : List (List Char)}
    (hapart : apart pattern pattern' = true) (h : captureAll pattern pieces = some captured) :
    captureAll pattern' pieces = none := by
  induction pattern generalizing pattern' pieces captured with
  | nil =>
      cases pieces with
      | nil =>
          cases pattern' with
          | nil => cases hapart
          | cons segment' pattern' => rfl
      | cons piece rest => cases h
  | cons segment pattern ih =>
      obtain ⟨piece, rest, more, rfl, haccepts, hmore, -⟩ := captureAll_cons_eq_some h
      cases pattern' with
      | nil => rfl
      | cons segment' pattern' =>
          rw [captureAll]
          rcases Bool.or_eq_true_iff.mp hapart with hhere | hlater
          · rw [Segment.not_accepts_of_apart hhere haccepts, if_neg Bool.false_ne_true]
          · rw [ih hlater hmore, Option.map_none, ite_self]

theorem captures_of_apart {pattern pattern' : Pattern} {path : List Char} {captured : List (List Char)}
    (hapart : apart pattern pattern' = true) (h : captures pattern path = some captured) :
    captures pattern' path = none := by
  rw [captures.eq_def] at h ⊢
  split at h
  · exact captureAll_of_apart hapart h
  · cases h

variable {β : Type} {table : List (Pattern × β)} {path : List Char}

theorem mem_of_lookup {entry : β} {captured : List (List Char)} (h : lookup table path = some (entry, captured)) :
    ∃ pattern, (pattern, entry) ∈ table ∧ captures pattern path = some captured := by
  obtain ⟨e, he, hcaptures⟩ := List.exists_of_findSome?_eq_some h
  obtain ⟨_, hcaptured, heq⟩ := Option.map_eq_some_iff.mp hcaptures
  cases heq
  exact ⟨e.1, he, hcaptured⟩

/-- Where the patterns are apart, an entry whose pattern matches is found. -/
theorem lookup_of_mem {e : Pattern × β} {captured : List (List Char)}
    (hapart : table.Pairwise fun e e' => apart e'.1 e.1 = true) (hmem : e ∈ table)
    (hcaptures : captures e.1 path = some captured) : lookup table path = some (e.2, captured) := by
  induction table with
  | nil => cases hmem
  | cons first table ih =>
      obtain ⟨hfirst, htable⟩ := List.pairwise_cons.mp hapart
      rw [lookup, List.findSome?_cons]
      rcases List.mem_cons.mp hmem with rfl | hrest
      · rw [hcaptures, Option.map_some]
      · rw [captures_of_apart (hfirst e hrest) hcaptures, Option.map_none]
        exact ih htable hrest

end PathPattern
