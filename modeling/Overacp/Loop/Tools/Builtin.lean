import Overacp.Loop.Tools.Registry

/-!
# Reading a file by windows

`read` takes the number of a line to start behind and a number of lines from the language model, both
of any size, and forms their sum in a `usize` before it cuts it down to the lines there are.
-/

namespace Overacp

namespace Builtin

/-! ### Machine integers and slices -/

/-- `a + b` in a `usize` of 64 bits; `none` is the panic of a build that checks for overflow. -/
def usizeAdd (checks : Bool) (a b : Nat) : Option Nat :=
  if a + b < 2 ^ 64 then some (a + b) else if checks then none else some ((a + b) % 2 ^ 64)

/-- `&xs[first..last]`; `none` is the panic of a range that is no range of the slice. -/
def slice {α : Type} (xs : List α) (first last : Nat) : Option (List α) :=
  if first ≤ last ∧ last ≤ xs.length then some ((xs.take last).drop first) else none

/-! ### Lines -/

/-- A line, in reverse, without the carriage return of a line ending. -/
def stripReturn : List Char → List Char
  | '\r' :: cs => cs
  | cs => cs

/-- The lines of a text behind a part of its first line, in reverse. The last line may lack its
ending, and then keeps a carriage return. -/
def linesFrom (line : List Char) : List Char → List String
  | [] => if line = [] then [] else [String.ofList line.reverse]
  | '\n' :: cs => String.ofList (stripReturn line).reverse :: linesFrom [] cs
  | c :: cs => linesFrom (c :: line) cs

/-- `str::lines`. -/
def lines (content : String) : List String := linesFrom [] content.toList

/-! ### The tool -/

def argStr (args : Json) (key : String) : Except String String :=
  match (args.get key).bind Json.asStr with
  | some s => .ok s
  | none => .error s!"missing required argument: {key}"

def offsetArg (args : Json) : Nat := ((args.get "offset").bind (Json.unsigned 64)).getD 0

def limitArg (args : Json) : Nat := ((args.get "limit").bind (Json.unsigned 64)).getD 2000

/-- A line with its number. -/
def numberedLine (number : Nat) (line : String) : String := s!"{number}\t{line}"

/-- `tool_read`, given how overflow is treated and what reading a file gives; the outer `none` is a
panic. -/
def toolRead (checks : Bool) (readToString : String → Except String String) (args : Json) :
    Option (Except String ToolOutput) :=
  match argStr args "path" with
  | .error e => some (.error e)
  | .ok path =>
      match readToString path with
      | .error e => some (.error s!"read {path}: {e}")
      | .ok content => do
          let lines := lines content
          let start := min (offsetArg args) lines.length
          let sum ← usizeAdd checks start (limitArg args)
          let window ← slice lines start (min sum lines.length)
          let numbered := window.zipIdx.map fun line => numberedLine (start + line.2 + 1) line.1
          return .ok (.text (String.intercalate "\n" numbered))

/-! ### Windows of a text -/

/-- The lines with their numbers, from one on. -/
def numbered (lines : List String) : List (String × Nat) := lines.zipIdx 1

/-- The lines after the offset, no more of them than the limit, by their numbers. -/
def window (lines : List String) (offset limit : Nat) : List (String × Nat) :=
  (numbered lines).filter fun line => offset < line.2 ∧ line.2 ≤ offset + limit

/-- Windows of the given sizes, each behind the one before. -/
def consecutive (lines : List String) : Nat → List Nat → List (List (String × Nat))
  | _, [] => []
  | offset, size :: sizes => window lines offset size :: consecutive lines (offset + size) sizes

theorem drop_zipIdx {α : Type} (xs : List α) (first count : Nat) :
    (xs.zipIdx first).drop count = (xs.drop count).zipIdx (first + count) := by
  induction xs generalizing first count with
  | nil => simp
  | cons x xs ih =>
      cases count with
      | zero => rfl
      | succ count =>
          rw [List.zipIdx_cons, List.drop_succ_cons, List.drop_succ_cons, ih, Nat.add_assoc, Nat.add_comm 1]

theorem take_zipIdx {α : Type} (xs : List α) (first count : Nat) :
    (xs.zipIdx first).take count = (xs.take count).zipIdx first := by
  induction xs generalizing first count with
  | nil => simp
  | cons x xs ih =>
      cases count with
      | zero => rfl
      | succ count => rw [List.zipIdx_cons, List.take_succ_cons, ih, List.take_succ_cons, List.zipIdx_cons]

theorem filter_above {α : Type} (xs : List α) (first count : Nat) :
    (xs.zipIdx (first + 1)).filter (fun x => first + count < x.2) = (xs.zipIdx (first + 1)).drop count := by
  induction xs generalizing first count with
  | nil => simp
  | cons x xs ih =>
      cases count with
      | zero =>
          rw [List.drop_zero, List.filter_eq_self]
          intro entry hentry
          have := List.le_snd_of_mem_zipIdx hentry
          simp only [decide_eq_true_eq]
          omega
      | succ count =>
          have hhead : ¬ (first + (count + 1) < first + 1) := by omega
          have hshift : first + (count + 1) = first + 1 + count := by omega
          rw [List.zipIdx_cons, List.filter_cons_of_neg (by simpa only [decide_eq_true_eq] using hhead),
            List.drop_succ_cons, hshift, ih]

theorem filter_upto {α : Type} (xs : List α) (first count : Nat) :
    (xs.zipIdx (first + 1)).filter (fun x => x.2 ≤ first + count) = (xs.zipIdx (first + 1)).take count := by
  induction xs generalizing first count with
  | nil => simp
  | cons x xs ih =>
      cases count with
      | zero =>
          rw [List.take_zero, List.filter_eq_nil_iff]
          intro entry hentry
          have := List.le_snd_of_mem_zipIdx hentry
          simp only [decide_eq_true_eq]
          omega
      | succ count =>
          have hhead : first + 1 ≤ first + (count + 1) := by omega
          have hshift : first + (count + 1) = first + 1 + count := by omega
          rw [List.zipIdx_cons, List.filter_cons_of_pos (by simpa only [decide_eq_true_eq] using hhead),
            List.take_succ_cons, hshift, ih]

/-- A window holds the numbers of a range. -/
theorem window_eq (lines : List String) (offset limit : Nat) :
    window lines offset limit = ((numbered lines).drop offset).take limit := by
  have habove : (numbered lines).filter (fun line => 0 + offset < line.2) = (numbered lines).drop offset :=
    filter_above lines 0 offset
  have hupto := filter_upto (lines.drop offset) offset limit
  rw [Nat.add_comm offset 1, ← drop_zipIdx] at hupto
  have hboth : window lines offset limit =
      ((numbered lines).filter fun line => 0 + offset < line.2).filter fun line => line.2 ≤ offset + limit := by
    rw [List.filter_filter, window]
    refine List.filter_congr fun line _ => ?_
    rw [Bool.decide_and, Bool.and_comm, Nat.zero_add]
  rw [hboth, habove]
  exact hupto

/-- Windows that follow each other tile the text. -/
theorem flatten_consecutive (lines : List String) (offset : Nat) (sizes : List Nat) :
    (consecutive lines offset sizes).flatten = ((numbered lines).drop offset).take sizes.sum := by
  induction sizes generalizing offset with
  | nil => simp [consecutive]
  | cons size sizes ih =>
      rw [consecutive, List.flatten_cons, ih, window_eq, List.sum_cons, List.take_add, List.drop_drop]

/-! ### What the tool returns -/

theorem limitArg_lt (args : Json) : limitArg args < 2 ^ 64 := by
  unfold limitArg
  cases hlimit : (args.get "limit").bind (Json.unsigned 64) with
  | none => decide
  | some limit =>
      obtain ⟨value, -, hvalue⟩ := Option.bind_eq_some_iff.mp hlimit
      cases value with
      | number n =>
          have hunsigned : n.toUnsigned 64 = some limit := hvalue
          unfold Json.Number.toUnsigned at hunsigned
          split at hunsigned
          · rename_i hfits
            obtain rfl := Option.some.inj hunsigned
            exact hfits.2
          · cases hunsigned
      | _ => cases hvalue

/-- Cut down to the lines there are, the slice is the window. -/
theorem slice_window (lines : List String) (offset limit : Nat) :
    slice lines (min offset lines.length) (min (min offset lines.length + limit) lines.length) =
      some ((lines.drop offset).take limit) := by
  have hrange : min offset lines.length ≤ min (min offset lines.length + limit) lines.length ∧
      min (min offset lines.length + limit) lines.length ≤ lines.length := by omega
  have hdrop : lines.drop (min offset lines.length) = lines.drop offset := by
    rcases Nat.le_total offset lines.length with hle | hge
    · rw [Nat.min_eq_left hle]
    · rw [Nat.min_eq_right hge, List.drop_length, List.drop_eq_nil_of_le hge]
  rw [slice, if_pos hrange, List.drop_take, hdrop, Option.some.injEq, List.take_eq_take_iff, List.length_drop]
  omega

theorem numberedLine_slice (lines : List String) (offset limit : Nat) :
    (((lines.drop offset).take limit).zipIdx.map fun line =>
        numberedLine (min offset lines.length + line.2 + 1) line.1) =
      (window lines offset limit).map fun line => numberedLine line.2 line.1 := by
  have hnumbers : window lines offset limit =
      ((lines.drop offset).take limit).zipIdx.map fun line => (line.1, 1 + offset + line.2) := by
    rw [window_eq, numbered, drop_zipIdx, take_zipIdx, List.zipIdx_eq_map_add]
  rw [hnumbers, List.map_map]
  refine List.map_congr_left fun line hline => ?_
  have hlt := List.snd_lt_of_mem_zipIdx hline
  rw [List.length_take, List.length_drop] at hlt
  have hnumber : min offset lines.length + line.2 + 1 = 1 + offset + line.2 := by omega
  rw [hnumber]
  rfl

/-- The tool returns the lines of the window with their numbers. -/
def Reads (checks : Bool) (readToString : String → Except String String) (args : Json) (content : String) : Prop :=
  toolRead checks readToString args = some (.ok (.text (String.intercalate "\n"
    ((window (lines content) (offsetArg args) (limitArg args)).map fun line => numberedLine line.2 line.1))))

theorem reads_of_fits (checks : Bool) {readToString : String → Except String String} {args : Json}
    {path content : String} (hpath : argStr args "path" = .ok path) (hread : readToString path = .ok content)
    (hfits : min (offsetArg args) (lines content).length + limitArg args < 2 ^ 64) :
    Reads checks readToString args content := by
  unfold Reads toolRead
  rw [hpath]
  simp only [hread, usizeAdd, if_pos hfits, Option.bind_eq_bind, Option.bind_some, slice_window,
    numberedLine_slice]
  rfl

/-- A sum that wraps around is smaller than the start, and then no range ends behind its start. -/
theorem panics_of_overflow (checks : Bool) {readToString : String → Except String String} {args : Json}
    {path content : String} (hpath : argStr args "path" = .ok path) (hread : readToString path = .ok content)
    (hover : ¬ min (offsetArg args) (lines content).length + limitArg args < 2 ^ 64) :
    toolRead checks readToString args = none := by
  have hlimit := limitArg_lt args
  unfold toolRead
  rw [hpath]
  simp only [hread, usizeAdd, if_neg hover, Option.bind_eq_bind]
  cases checks with
  | true => rfl
  | false =>
      have hrange : ¬ (min (offsetArg args) (lines content).length ≤
          min ((min (offsetArg args) (lines content).length + limitArg args) % 2 ^ 64) (lines content).length ∧
        min ((min (offsetArg args) (lines content).length + limitArg args) % 2 ^ 64) (lines content).length ≤
          (lines content).length) := by
        omega
      simp only [Bool.false_eq_true, ↓reduceIte, Option.bind_some, slice, if_neg hrange, Option.bind_none]

/-- For every file and arguments, with and without overflow checks: the tool returns its window just
where start and limit add up in a `usize`. Consecutive windows hold the lines in order, each once, up
to the sum of their sizes. -/
theorem reads_iff_fits (checks : Bool) {readToString : String → Except String String} {args : Json}
    {path content : String} (hpath : argStr args "path" = .ok path) (hread : readToString path = .ok content) :
    (Reads checks readToString args content ↔
      min (offsetArg args) (lines content).length + limitArg args < 2 ^ 64) ∧
    ∀ sizes : List Nat, (consecutive (lines content) 0 sizes).flatten = (numbered (lines content)).take sizes.sum := by
  refine ⟨⟨fun hreads => ?_, reads_of_fits checks hpath hread⟩, fun sizes => flatten_consecutive _ 0 sizes⟩
  by_contra hover
  rw [Reads, panics_of_overflow checks hpath hread hover] at hreads
  cases hreads

/-- A call of `read` with an offset and a limit. -/
private def readArgs (offset limit : String) (hoffset : Json.isNumber offset.toList = true)
    (hlimit : Json.isNumber limit.toList = true) : Json :=
  .object [("limit", .number ⟨limit.toList, hlimit⟩), ("offset", .number ⟨offset.toList, hoffset⟩),
    ("path", .string "/tmp/lines.txt")]

private def tenLines : String :=
  "line 1\nline 2\nline 3\nline 4\nline 5\nline 6\nline 7\nline 8\nline 9\nline 10\n"

theorem reads_tenLines :
    Reads true (fun _ => .ok tenLines) (readArgs "3" "2" (by decide) (by decide)) tenLines ∧
      toolRead true (fun _ => .ok tenLines) (readArgs "3" "2" (by decide) (by decide)) =
        some (.ok (.text "4\tline 4\n5\tline 5")) :=
  ⟨(@reads_iff_fits true _ _ "/tmp/lines.txt" tenLines rfl rfl).1.mpr (by decide), by decide +kernel⟩

theorem read_largest_limit_panics :
    ¬ ∀ checks readToString args path content, argStr args "path" = .ok path → readToString path = .ok content →
      Reads checks readToString args content := by
  intro h
  have hreads := h true (fun _ => .ok tenLines)
    (readArgs "1" "18446744073709551615" (by decide) (by decide)) "/tmp/lines.txt" tenLines rfl rfl
  have hpanics : toolRead true (fun _ => .ok tenLines)
      (readArgs "1" "18446744073709551615" (by decide) (by decide)) = none :=
    panics_of_overflow true rfl rfl (by decide)
  rw [Reads, hpanics] at hreads
  cases hreads

end Builtin

end Overacp
