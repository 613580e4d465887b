import Overacp.Loop.Observability

/-!
# The texts that are cut short

The two functions that cut a text down for a trace, as their loops run: back from the limit, one byte at a time, to
an index between characters. The loop is over after four tests at most and has not counted past zero, and what it
keeps is the longest prefix of the text within the limit.
-/

namespace Overacp

namespace Truncation

open AgenticLoop (isCharBoundary boundaryBelow lfTruncate)

/-- How the loop stands when its tests are used up: at an index, past zero, or still under way. -/
inductive Search where
  | found (index : Nat)
  | underflow
  | running
  deriving DecidableEq

def searchBack (bytes : List UInt8) : Nat → Nat → Search
  | 0, _ => .running
  | tests + 1, index =>
      if isCharBoundary bytes index then .found index
      else match index with
        | 0 => .underflow
        | index + 1 => searchBack bytes tests index

/-- `s[..end]`, which is not to be had inside a character. -/
def slice (bytes : List UInt8) (index : Nat) : Option (List Char) := Utf8.decode (bytes.take index)

def truncateWithin (tests max : Nat) (s : String) : Option String :=
  let bytes := Utf8.encode s.toList
  if bytes.length ≤ max then some s
  else match searchBack bytes tests max with
    | .found index => (slice bytes index).map fun kept => String.ofList kept ++ "…[truncated]"
    | .underflow => none
    | .running => none

def truncateStr (tests : Nat) (s : String) (max : Nat) : Option String := truncateWithin tests max s

def truncateForTrace (tests : Nat) (s : String) : Option String := truncateWithin tests lfTruncate s

/-! ### The search -/

theorem isCharBoundary_encode (text : List Char) (index : Nat) :
    isCharBoundary (Utf8.encode text) index = true ↔
      ∃ left, left <+: text ∧ (Utf8.encode left).length = index := by
  rw [Utf8.exists_prefix_length_iff, isCharBoundary]
  cases hbyte : (Utf8.encode text)[index]? with
  | none =>
      have hle := List.getElem?_eq_none_iff.mp hbyte
      simp only [decide_eq_true_eq, Option.mem_def, reduceCtorEq, false_implies, implies_true, and_true]
      omega
  | some b =>
      obtain ⟨hlt, -⟩ := List.getElem?_eq_some_iff.mp hbyte
      simp only [Bool.or_eq_true, decide_eq_true_eq, Bool.not_eq_true', Option.mem_def, Option.some.injEq,
        forall_eq']
      refine ⟨fun h => ⟨Nat.le_of_lt hlt, ?_⟩, fun h => .inr h.2⟩
      rcases h with rfl | h
      · exact (Utf8.exists_prefix_length_iff.mp ⟨[], List.nil_prefix, rfl⟩).2 b hbyte
      · exact h

theorem searchBack_of_boundary {bytes : List UInt8} {tests index : Nat} (h : isCharBoundary bytes index = true) :
    searchBack bytes (tests + 1) index = .found index := by
  cases index with
  | zero => rw [searchBack, if_pos h]
  | succ index => rw [searchBack, if_pos h]

theorem searchBack_of_not_boundary {bytes : List UInt8} {tests index : Nat}
    (h : ¬isCharBoundary bytes (index + 1) = true) :
    searchBack bytes (tests + 1) (index + 1) = searchBack bytes tests index := by
  rw [searchBack, if_neg h]

/-- A search that has a boundary within reach ends at the last one, where the function of the model is. -/
theorem searchBack_eq {bytes : List UInt8} {tests index reached : Nat} (hreached : isCharBoundary bytes reached = true)
    (hle : reached ≤ index) (hnear : index < reached + tests) :
    searchBack bytes tests index = .found (boundaryBelow bytes index) := by
  induction tests generalizing index with
  | zero => omega
  | succ tests ih =>
      by_cases hboundary : isCharBoundary bytes index = true
      · rw [searchBack_of_boundary hboundary]
        cases index with
        | zero => rfl
        | succ index => rw [boundaryBelow, if_pos hboundary]
      · cases index with
        | zero =>
            obtain rfl := Nat.le_zero.mp hle
            exact absurd hreached hboundary
        | succ index =>
            have hne : reached ≠ index + 1 := by
              rintro rfl
              exact hboundary hreached
            rw [searchBack_of_not_boundary hboundary, boundaryBelow, if_neg hboundary]
            exact ih (by omega) (by omega)

/-- In the last byte of a character of four the search takes all its tests. -/
example : searchBack (Utf8.encode ['a', '😀']) 4 4 = .found 1 ∧ searchBack (Utf8.encode ['a', '😀']) 3 4 = .running := by
  decide

/-- Where the search ends is a boundary, and no boundary is between it and the limit. -/
theorem boundaryBelow_spec {bytes : List UInt8} {index reached : Nat} (hreached : isCharBoundary bytes reached = true)
    (hle : reached ≤ index) :
    isCharBoundary bytes (boundaryBelow bytes index) = true ∧ reached ≤ boundaryBelow bytes index ∧
      boundaryBelow bytes index ≤ index := by
  induction index with
  | zero =>
      obtain rfl := Nat.le_zero.mp hle
      exact ⟨hreached, Nat.le_refl _, Nat.le_refl _⟩
  | succ index ih =>
      rw [boundaryBelow]
      by_cases hboundary : isCharBoundary bytes (index + 1) = true
      · rw [if_pos hboundary]
        exact ⟨hboundary, hle, Nat.le_refl _⟩
      · have hne : reached ≠ index + 1 := by
          rintro rfl
          exact hboundary hreached
        rw [if_neg hboundary]
        obtain ⟨hfound, hge, hbelow⟩ := ih (by omega)
        exact ⟨hfound, hge, Nat.le_succ_of_le hbelow⟩

/-! ### What is kept -/

/-- The longest prefix of a text within a limit on its bytes. -/
structure Kept (text : List Char) (limit : Nat) (kept : List Char) : Prop where
  isPrefix : kept <+: text
  within : (Utf8.encode kept).length ≤ limit
  longest : ∀ other, other <+: text → (Utf8.encode other).length ≤ limit → other <+: kept
  close : limit < (Utf8.encode kept).length + 4

theorem search_spec {text : List Char} {limit : Nat} (hlong : limit < (Utf8.encode text).length) (tests : Nat) :
    ∃ kept, Kept text limit kept ∧
      searchBack (Utf8.encode text) (tests + 4) limit = .found (Utf8.encode kept).length ∧
      slice (Utf8.encode text) (Utf8.encode kept).length = some kept := by
  obtain ⟨left, hleft, hwithin, hclose⟩ := Utf8.exists_prefix_within hlong
  have hreached : isCharBoundary (Utf8.encode text) (Utf8.encode left).length = true :=
    (isCharBoundary_encode text _).mpr ⟨left, hleft, rfl⟩
  have hsearch : searchBack (Utf8.encode text) (tests + 4) limit = .found (boundaryBelow (Utf8.encode text) limit) :=
    searchBack_eq hreached hwithin (by omega)
  obtain ⟨hfound, hge, hbelow⟩ := boundaryBelow_spec hreached hwithin
  obtain ⟨kept, hkept, hlength⟩ := (isCharBoundary_encode text _).mp hfound
  rw [← hlength] at hsearch hge hbelow
  refine ⟨kept, ⟨hkept, hbelow, ?_, by omega⟩, hsearch, ?_⟩
  · intro other hother hotherWithin
    have hboundary : isCharBoundary (Utf8.encode text) (Utf8.encode other).length = true :=
      (isCharBoundary_encode text _).mpr ⟨other, hother, rfl⟩
    have hlast := (boundaryBelow_spec hboundary hotherWithin).2.1
    rw [← hlength] at hlast
    exact Utf8.prefix_of_encode_length_le hother hkept hlast
  · obtain ⟨rest, rfl⟩ := hkept
    rw [slice, Utf8.encode_append, List.take_left, Utf8.decode_encode]

/-- The text itself, or its longest prefix within the limit with the marker. -/
def Shortened (s : String) (limit : Nat) (out : Option String) : Prop :=
  ((Utf8.encode s.toList).length ≤ limit → out = some s) ∧
    (limit < (Utf8.encode s.toList).length →
      ∃ kept, Kept s.toList limit kept ∧ out = some (String.ofList kept ++ "…[truncated]"))

theorem truncateWithin_shortened (tests limit : Nat) (s : String) :
    Shortened s limit (truncateWithin (tests + 4) limit s) := by
  constructor
  · intro hshort
    rw [truncateWithin, if_pos hshort]
  · intro hlong
    obtain ⟨kept, hkept, hsearch, hslice⟩ := search_spec hlong tests
    refine ⟨kept, hkept, ?_⟩
    rw [truncateWithin, if_neg (Nat.not_le.mpr hlong)]
    simp only [hsearch, hslice, Option.map_some]

/-- The function of the model, which says nothing of tests, gives what the loop gives. -/
theorem truncateStr_eq (tests : Nat) (s : String) (limit : Nat) :
    truncateStr (tests + 4) s limit = some (Preview.truncateStr s limit) := by
  by_cases hshort : (Utf8.encode s.toList).length ≤ limit
  · rw [truncateStr, truncateWithin, if_pos hshort, Preview.truncateStr, if_pos hshort]
  · obtain ⟨kept, hkept, hsearch, hslice⟩ := search_spec (Nat.not_le.mp hshort) tests
    have hreached : isCharBoundary (Utf8.encode s.toList) (Utf8.encode kept).length = true :=
      (isCharBoundary_encode _ _).mpr ⟨kept, hkept.isPrefix, rfl⟩
    have hclose := hkept.close
    have hindex : searchBack (Utf8.encode s.toList) (tests + 4) limit =
        .found (boundaryBelow (Utf8.encode s.toList) limit) := searchBack_eq hreached hkept.within (by omega)
    rw [hsearch, Search.found.injEq] at hindex
    obtain ⟨rest, hrest⟩ := hkept.isPrefix
    rw [truncateStr, truncateWithin, if_neg hshort, Preview.truncateStr, if_neg hshort, ← hindex]
    simp only [hsearch, hslice, Option.map_some]
    rw [← hrest, Utf8.encode_append, List.take_left, Utf8.decodeLossy_encode]

theorem truncateForTrace_eq (tests : Nat) (s : String) :
    truncateForTrace (tests + 4) s = some (AgenticLoop.truncateForTrace s) := by
  rw [Preview.truncateForTrace_eq, ← truncateStr_eq tests s lfTruncate]
  rfl

/-- Both functions return, however long the text and whatever the limit. -/
theorem truncate_spec (tests : Nat) (s : String) :
    (∀ max, Shortened s max (truncateStr (tests + 4) s max)) ∧
      Shortened s lfTruncate (truncateForTrace (tests + 4) s) :=
  ⟨fun max => truncateWithin_shortened tests max s, truncateWithin_shortened tests lfTruncate s⟩

end Truncation

end Overacp
