import Overacp.Lib.Json.Extent
import Overacp.Lib.Utf8
import Overacp.Loop.Llm.Types

/-!
# Reading a streamed response

`process_stream` takes the response chunk by chunk. Each chunk is decoded on its own, with
replacement, and appended to a buffer; the complete lines of the buffer are then handled one after
the other until `[DONE]`, which leaves the inner loop only.
-/

namespace Overacp

open Llm

/-! ### Text -/

/-- The characters of the Unicode property `White_Space`. -/
def isWhitespace (c : Char) : Bool :=
  let n := c.toNat
  (0x09 ≤ n && n ≤ 0x0D) || n = 0x20 || n = 0x85 || n = 0xA0 || n = 0x1680 ||
    (0x2000 ≤ n && n ≤ 0x200A) || n = 0x2028 || n = 0x2029 || n = 0x202F || n = 0x205F || n = 0x3000

def trim (cs : List Char) : List Char :=
  ((cs.dropWhile isWhitespace).reverse.dropWhile isWhitespace).reverse

theorem isWhitespace_of_isWs {c : Char} (h : Json.isWs c = true) : isWhitespace c = true := by
  simp only [Json.isWs, Bool.or_eq_true, decide_eq_true_eq] at h
  rcases h with ((rfl | rfl) | rfl) | rfl <;> decide

theorem isWhitespace_of_ascii {c : Char} (h : 0x20 < c.toNat ∧ c.toNat < 0x80) : isWhitespace c = false := by
  simp only [isWhitespace, Bool.or_eq_false_iff, Bool.and_eq_false_iff, decide_eq_false_iff_not]
  omega

theorem isWhitespace_of_isFinal {c : Char} (h : Json.isFinal c = true) : isWhitespace c = false :=
  isWhitespace_of_ascii (Json.toNat_of_isFinal h)

/-- What is trimmed is a value still, for no value begins or ends with whitespace. -/
theorem parseWithin_trim {readString : List Char → Option (String × List Char)} (hclosing : Json.Closing readString)
    {limit : Nat} {cs : List Char} {v : Json} (h : Json.parseWithin readString limit cs = some v) :
    Json.parseWithin readString limit (trim cs) = some v := by
  obtain ⟨before, core, after, rfl, hbefore, hafter, hhead, ⟨used, c, rfl, hfinal⟩, hcore⟩ :=
    Json.parseWithin_core hclosing h
  have hleft : (before ++ (used ++ [c] ++ after)).dropWhile isWhitespace = used ++ [c] ++ after := by
    rw [List.dropWhile_append_of_pos fun x hx => isWhitespace_of_isWs (hbefore x hx)]
    cases used with
    | nil =>
        rw [List.nil_append, List.singleton_append]
        exact List.dropWhile_cons_of_neg (by rw [isWhitespace_of_isFinal hfinal]; decide)
    | cons d used =>
        have hd := isWhitespace_of_ascii (Json.toNat_of_isInitial (hhead d rfl))
        exact List.dropWhile_cons_of_neg (by rw [hd]; decide)
  have htrim : trim (before ++ (used ++ [c] ++ after)) = used ++ [c] := by
    rw [trim, hleft, List.reverse_append, List.reverse_append, List.reverse_singleton,
      List.dropWhile_append_of_pos fun x hx => isWhitespace_of_isWs (hafter x (List.mem_reverse.mp hx)),
      List.singleton_append, List.dropWhile_cons_of_neg (by rw [isWhitespace_of_isFinal hfinal]; decide),
      List.reverse_cons, List.reverse_reverse]
  rw [htrim]
  exact hcore

/-- The text before the first line feed and the text after it. -/
def findLine : List Char → Option (List Char × List Char)
  | [] => none
  | c :: cs => if c = '\n' then some ([], cs) else (findLine cs).map fun p => (c :: p.1, p.2)

/-! ### Events -/

structure PartialToolCall where
  id : String
  name : String
  arguments : String
  deriving DecidableEq, Repr

namespace PartialToolCall

def empty : PartialToolCall := ⟨"", "", ""⟩

def update (entry : PartialToolCall) (delta : ToolCallDelta) : PartialToolCall where
  id := delta.id.getD entry.id
  name := (delta.function.bind FunctionCallDelta.name).getD entry.name
  arguments := entry.arguments ++ (delta.function.bind FunctionCallDelta.arguments).getD ""

end PartialToolCall

/-- Fill up to the index with empty calls, then update the one at the index. -/
def updateCall (calls : List PartialToolCall) (delta : ToolCallDelta) : List PartialToolCall :=
  let filled := calls ++ List.replicate (delta.index + 1 - calls.length) .empty
  filled.modify delta.index fun entry => entry.update delta

section

variable (host : Host)

/-- `none` where so many calls cannot be held: the loop that pushes them ends with the process. -/
def accumulateToolCall (calls : List PartialToolCall) (delta : ToolCallDelta) : Option (List PartialToolCall) :=
  if delta.index < host.maxCalls then some (updateCall calls delta) else none

end

/-- What `process_stream` has assembled, the texts it passed to `on_text`, and `emitted`; once the process has ended
there are no tool calls. -/
structure Assembly where
  content : String
  toolCalls : Option (List PartialToolCall)
  finishReason : Option StopReason
  usage : Option Usage
  texts : List String
  emitted : Bool
  deriving DecidableEq, Repr

namespace Assembly

def empty : Assembly := ⟨"", some [], none, none, [], false⟩

def setUsage (asm : Assembly) : Option Usage → Assembly
  | some u => { asm with usage := some u }
  | none => asm

def setFinishReason (asm : Assembly) : Option StopReason → Assembly
  | some reason => { asm with finishReason := some reason }
  | none => asm

def pushText (asm : Assembly) : Option String → Assembly
  | some text =>
      { asm with content := asm.content ++ text, texts := asm.texts ++ [text], emitted := true }
  | none => asm

section

variable (host : Host)

def pushToolCalls (asm : Assembly) : Option (List ToolCallDelta) → Assembly
  | some deltas =>
      { asm with
        toolCalls := asm.toolCalls.bind fun calls => deltas.foldlM (accumulateToolCall host) calls
        emitted := true }
  | none => asm

/-- Nothing is done any more once the process has ended. -/
def applyChoice (asm : Assembly) (choice : Choice) : Assembly :=
  match asm.toolCalls with
  | none => asm
  | some _ =>
      ((asm.setFinishReason choice.finishReason).pushText (choice.delta.bind Delta.content)).pushToolCalls host
        (choice.delta.bind Delta.toolCalls)

def applyEvent (asm : Assembly) (event : StreamEvent) : Assembly :=
  event.choices.foldl (applyChoice host) (asm.setUsage event.usage)

end

end Assembly

/-! ### Lines -/

/-- What a line is to the loop. -/
inductive SseLine where
  | skip
  | done
  | event (event : StreamEvent)

section

variable (host : Host)

def sseLine (line : List Char) : SseLine :=
  let line := trim line
  if line = [] ∨ line.head? = some ':' then .skip
  else match "data: ".toList.isPrefixOf? line with
    | none => .skip
    | some data =>
        let data := trim data
        if data = "[DONE]".toList then .done
        else match StreamEvent.ofText host data with
          | none => .skip
          | some event => .event event

/-- The inner loop; a `[DONE]` line is taken out of the buffer and ends it. -/
def drainLines : Nat → Assembly → List Char → Assembly × List Char
  | 0, asm, buffer => (asm, buffer)
  | fuel + 1, asm, buffer =>
      match findLine buffer with
      | none => (asm, buffer)
      | some (line, rest) =>
          match sseLine host line with
          | .skip => drainLines fuel asm rest
          | .done => (asm, rest)
          | .event event => drainLines fuel (asm.applyEvent host event) rest

/-- One turn of the outer loop. -/
def processChunk (state : Assembly × List Char) (chunk : List UInt8) : Assembly × List Char :=
  let buffer := state.2 ++ Utf8.decodeLossy chunk
  drainLines host (buffer.length + 1) state.1 buffer

end

structure StreamedResponse where
  message : Message
  finishReason : Option StopReason
  usage : Option Usage

def Assembly.responseOf (asm : Assembly) (calls : List PartialToolCall) : StreamedResponse where
  message := {
    role := .assistant
    content := if asm.content = "" then none else some (.text asm.content)
    toolCalls :=
      if calls = [] then none
      else some (calls.map fun ptc => ⟨ptc.id, "function", ptc.name, ptc.arguments⟩)
    toolCallId := none }
  finishReason := asm.finishReason
  usage := asm.usage

/-- `none` if the process has ended. -/
def Assembly.response (asm : Assembly) : Option StreamedResponse := asm.toolCalls.map asm.responseOf

section

variable (host : Host) {ε : Type}

/-- The outer loop: a chunk that fails ends it with its classified error. -/
def processChunks : Assembly × List Char → List (Except ε (List UInt8)) → Option ε × Assembly
  | state, [] => (none, state.1)
  | state, .error e :: _ => (some e, state.1)
  | state, .ok chunk :: chunks => processChunks (processChunk host state chunk) chunks

/-- The response or the error, `none` if the process has ended before; the texts passed to `on_text`, and whether
anything was emitted. -/
def processStream (chunks : List (Except ε (List UInt8))) :
    Option (Except ε StreamedResponse) × List String × Bool :=
  let outcome := processChunks host (.empty, []) chunks
  (outcome.2.response.map fun response => outcome.1.elim (.ok response) .error, outcome.2.texts, outcome.2.emitted)

end

end Overacp
