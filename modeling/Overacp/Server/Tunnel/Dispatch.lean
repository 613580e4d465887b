import Overacp.Lib.Json.Literals
import Overacp.Lib.Json.Read
import Overacp.Protocol.Messages

/-!
# Frames from the agent

A text frame is looked at twice: the read loop looks for four patterns in the raw text and publishes the
frame if it finds one, and `handle_message` parses it and dispatches on its method. The two agree exactly
when what the literals of the frame spell allows it.
-/

namespace Overacp

open Protocol

/-! ### The hooks of the operator -/

inductive BootError where
  | notFound (agent : String)
  | internal (msg : String)
  deriving DecidableEq, Repr

namespace BootError

def toString : BootError → String
  | notFound agent => "no boot state for agent " ++ agent
  | internal msg => "boot provider failed: " ++ msg

end BootError

inductive ToolError where
  | notFound (name : String)
  | denied (msg : String)
  | execution (msg : String)
  | internal (msg : String)
  deriving DecidableEq, Repr

namespace ToolError

def toString : ToolError → String
  | notFound name => "tool not found: " ++ name
  | denied msg => "tool denied: " ++ msg
  | execution msg => "tool execution failed: " ++ msg
  | internal msg => "tool host failed: " ++ msg

end ToolError

inductive QuotaError where
  | internal (msg : String)
  deriving DecidableEq, Repr

namespace QuotaError

def toString : QuotaError → String
  | internal msg => "quota policy failed: " ++ msg

end QuotaError

/-- What the operator answers to the agent of the tunnel at one moment. -/
structure Hooks where
  boot : Except BootError Json
  toolsList : Except ToolError Json
  toolsCall : Json → Except ToolError Json
  quotaCheck : Except QuotaError Bool
  quotaRecord : Json → Except QuotaError Unit

namespace Dispatch

def codeNotFound : Int := 1404

def codeInternal : Int := 1500

def codeExecutionFailed : Int := 1502

def codeDenied : Int := 1603

def codeMethodNotFound : Int := -32601

def bootErr : BootError → Int × String
  | .notFound agent => (codeNotFound, (BootError.notFound agent).toString)
  | .internal msg => (codeInternal, (BootError.internal msg).toString)

def toolErr : ToolError → Int × String
  | .notFound name => (codeNotFound, (ToolError.notFound name).toString)
  | .denied msg => (codeDenied, (ToolError.denied msg).toString)
  | .execution msg => (codeExecutionFailed, (ToolError.execution msg).toString)
  | .internal msg => (codeInternal, (ToolError.internal msg).toString)

def quotaErr : QuotaError → Int × String
  | .internal msg => (codeInternal, (QuotaError.internal msg).toString)

/-- A response: the id of the request, and a result or an error with its code. -/
structure Response where
  id : Json
  result : Except (Int × String) Json

/-! ### Dispatch -/

/-- The methods that get no response. -/
def notificationMethods : List String :=
  [Methods.streamTextDelta, Methods.streamActivity, Methods.streamToolCall, Methods.streamToolResult,
    Methods.turnEnd, Methods.contextCompacted, Methods.heartbeat]

variable (readNumber : Json.Number → Option Json.Number)

/-- The method a frame is dispatched on. -/
def methodOf (text : List Char) : Option String :=
  (Json.read readNumber text).bind fun parsed => (parsed.get "method").bind Json.asStr

/-- A request without an id is dropped before its hook is asked; an unknown method is an error where there
is an id. -/
def handleMessage (hooks : Hooks) (text : List Char) : Option Response :=
  match Json.read readNumber text with
  | none => none
  | some parsed =>
      match (parsed.get "method").bind Json.asStr with
      | none => none
      | some method =>
          let id := parsed.get "id"
          let params := (parsed.get "params").getD .null
          if method = Methods.initializeAgent then
            id.map fun id => ⟨id, hooks.boot.mapError bootErr⟩
          else if method = Methods.toolsList then
            id.map fun id => ⟨id, hooks.toolsList.mapError toolErr⟩
          else if method = Methods.toolsCall then
            id.map fun id => ⟨id, (hooks.toolsCall params).mapError toolErr⟩
          else if method = Methods.quotaCheck then
            id.map fun id =>
              ⟨id, (hooks.quotaCheck.map fun allowed => .object [("allowed", .bool allowed)]).mapError quotaErr⟩
          else if method = Methods.quotaUpdate then
            id.map fun id => ⟨id, ((hooks.quotaRecord params).map fun _ => .object []).mapError quotaErr⟩
          else if method ∈ notificationMethods then none
          else id.map fun id => ⟨id, .error (codeMethodNotFound, "method not found: " ++ method)⟩

/-- What the read loop looks for in the raw text. -/
def fanOutPatterns : List String := ["\"stream/", "\"turn/end\"", "\"context/compacted\"", "\"heartbeat\""]

/-- `text.contains(..)`, for one pattern or another. -/
def fansOut (text : List Char) : Bool := fanOutPatterns.any fun pattern => decide (pattern.toList <:+: text)

/-- What the read loop does with a text frame: the frame it publishes, and the response it sends. -/
structure Handled where
  published : Option (List Char)
  response : Option Response

def readText (hooks : Hooks) (text : List Char) : Handled :=
  ⟨if fansOut text then some text else none, handleMessage readNumber hooks text⟩

/-- The frame is dispatched as a notification. -/
def IsNotification (text : List Char) : Prop := ∃ method ∈ methodOf readNumber text, method ∈ notificationMethods

variable {readNumber} in
/-- A notification is not answered. -/
theorem notification_unanswered {text : List Char} (hooks : Hooks) (h : IsNotification readNumber text) :
    handleMessage readNumber hooks text = none := by
  obtain ⟨method, hmethod, hmem⟩ := h
  obtain ⟨parsed, hread, hget⟩ := Option.bind_eq_some_iff.mp hmethod
  have hrequests : ∀ m ∈ [Methods.initializeAgent, Methods.toolsList, Methods.toolsCall, Methods.quotaCheck,
      Methods.quotaUpdate], m ∉ notificationMethods := by decide
  have hne : ∀ m ∈ [Methods.initializeAgent, Methods.toolsList, Methods.toolsCall, Methods.quotaCheck,
      Methods.quotaUpdate], method ≠ m := by
    rintro m hm rfl
    exact hrequests method hm hmem
  unfold handleMessage
  rw [hread]
  dsimp only
  rw [hget]
  dsimp only
  rw [if_neg (hne _ (by decide)), if_neg (hne _ (by decide)), if_neg (hne _ (by decide)),
    if_neg (hne _ (by decide)), if_neg (hne _ (by decide)), if_pos hmem]

/-! ### The patterns as quoted words -/

def patterns : List Json.QuotedWord :=
  [⟨'s', "tream/".toList, by decide, by decide⟩, ⟨'t', "urn/end\"".toList, by decide, by decide⟩,
    ⟨'c', "ontext/compacted\"".toList, by decide, by decide⟩,
    ⟨'h', "eartbeat\"".toList, by decide, by decide⟩]

theorem patterns_text : patterns.map Json.QuotedWord.text = fanOutPatterns.map String.toList := by
  simp [patterns, fanOutPatterns, Json.QuotedWord.text]

theorem fansOut_iff {text : List Char} : fansOut text = true ↔ ∃ w ∈ patterns, w.text <:+: text := by
  have hmap : (∃ t ∈ patterns.map Json.QuotedWord.text, t <:+: text) ↔ ∃ w ∈ patterns, w.text <:+: text := by
    simp only [List.mem_map, exists_exists_and_eq_and]
  rw [← hmap, patterns_text, fansOut, List.any_eq_true]
  simp only [List.mem_map, exists_exists_and_eq_and, decide_eq_true_eq]

/-- What a string must be for its literal, spelt without escapes, to have the frame published. -/
def Named (s : String) : Prop :=
  "stream/".toList <+: s.toList ∨ s = Methods.turnEnd ∨ s = Methods.contextCompacted ∨ s = Methods.heartbeat

theorem named_of_mem {method : String} (h : method ∈ notificationMethods) : Named method := by
  have hall : ∀ m ∈ notificationMethods, "stream/".toList <+: m.toList ∨ m = Methods.turnEnd ∨
      m = Methods.contextCompacted ∨ m = Methods.heartbeat := by decide
  exact hall method h

theorem fansOut_quote_iff {s : String} (hquote : '"' ∉ s.toList) :
    fansOut (Json.quote s.toList) = true ↔ Named s := by
  have hclosed : ∀ word : String, word.toList ++ ['"'] <+: s.toList ++ ['"'] ↔ s = word := fun word => by
    rw [Json.QuotedWord.closed_prefix_iff hquote, String.toList_inj, eq_comm]
  rw [fansOut_iff]
  simp only [patterns, List.mem_cons, List.not_mem_nil, or_false, exists_eq_or_imp, exists_eq_left,
    Json.QuotedWord.infix_quote_of_plain _ hquote]
  have hopen := @Json.QuotedWord.open_prefix_iff "stream/".toList s.toList (by decide)
  have hturnEnd := hclosed Methods.turnEnd
  have hcompacted := hclosed Methods.contextCompacted
  have hheartbeat := hclosed Methods.heartbeat
  simp only [Methods.turnEnd, Methods.contextCompacted, Methods.heartbeat, String.reduceToList,
    List.cons_append, List.nil_append] at hopen hturnEnd hcompacted hheartbeat
  simp only [Named, Methods.turnEnd, Methods.contextCompacted, Methods.heartbeat, String.reduceToList,
    hopen, hturnEnd, hcompacted, hheartbeat]

/-! ### Where the two agree -/

/-- A frame that is JSON is a notification if and only if one of its literals, as it is spelt, has a pattern
in it; and a text that is not JSON has none. -/
def LiteralsAgree (text : List Char) : Prop :=
  match Json.parse text with
  | some _ => IsNotification readNumber text ↔ ∃ raw ∈ Json.literals text, fansOut (Json.quote raw) = true
  | none => fansOut text = false

theorem fansOut_iff_literal {text : List Char} {v : Json} (h : Json.parse text = some v) :
    fansOut text = true ↔ ∃ raw ∈ Json.literals text, fansOut (Json.quote raw) = true := by
  simp only [fansOut_iff, Json.quotedWord_iff h]
  constructor
  · rintro ⟨w, hw, raw, hraw, hfound⟩
    exact ⟨raw, hraw, w, hw, hfound⟩
  · rintro ⟨raw, hraw, w, hw, hfound⟩
    exact ⟨w, hw, raw, hraw, hfound⟩

theorem published_iff (hooks : Hooks) (text : List Char) :
    (readText readNumber hooks text).published = some text ↔ fansOut text = true := by
  unfold readText
  cases fansOut text <;> simp

/-- A frame that is dispatched has been parsed. -/
theorem IsNotification.parsed {text : List Char} (h : IsNotification readNumber text) :
    ∃ v, Json.parse text = some v ∧ ∃ method ∈ notificationMethods, method ∈ v.strings := by
  obtain ⟨method, hmethod, hmem⟩ := h
  obtain ⟨parsed, hread, hget⟩ := Option.bind_eq_some_iff.mp hmethod
  obtain ⟨v, hparse, -, rfl⟩ := Json.read_eq_some hread
  rw [Json.asStr_get_asRead] at hget
  obtain ⟨value, hvalue, hstr⟩ := Option.bind_eq_some_iff.mp hget
  obtain rfl : value = .string method := by
    cases value <;> cases hstr
    rfl
  exact ⟨v, hparse, method, hmem, Json.strings_collapse v (Json.mem_strings_of_get hvalue)⟩

/-- The read loop publishes the frames that are dispatched as notifications and no others, exactly as far as
the literals of the frame have it so. -/
theorem published_iff_notification_iff (hooks : Hooks) (text : List Char) :
    ((readText readNumber hooks text).published = some text ↔ IsNotification readNumber text) ↔
      LiteralsAgree readNumber text := by
  rw [published_iff, LiteralsAgree]
  cases hparse : Json.parse text with
  | none =>
      have hnot : ¬ IsNotification readNumber text := by
        intro h
        obtain ⟨v, hv, _⟩ := IsNotification.parsed readNumber h
        rw [hparse] at hv
        cases hv
      rw [iff_false_right hnot, Bool.not_eq_true]
  | some v =>
      rw [fansOut_iff_literal hparse]
      exact iff_comm

/-- A request to call a tool whose name is one of the methods. -/
def leaking : List Char :=
  "\x7b\"jsonrpc\":\"2.0\",\"id\":1,\"method\":\"tools/call\",\"params\":\x7b\"name\":\"heartbeat\"\x7d\x7d".toList

/-- A notification whose method is spelt with an escape. -/
def escaped : List Char := "\x7b\"jsonrpc\":\"2.0\",\"method\":\"turn\\/end\"\x7d".toList

/-- A tool call is published to subscribers, and the end of a turn is not. -/
theorem tool_call_published :
    ¬ (∀ (readNumber : Json.Number → Option Json.Number) (hooks : Hooks) (text : List Char),
        (readText readNumber hooks text).published = some text ↔ IsNotification readNumber text) ∧
      fansOut leaking = true ∧ methodOf some leaking = some Methods.toolsCall ∧
      fansOut escaped = false ∧ methodOf some escaped = some Methods.turnEnd := by
  have hleaks : fansOut leaking = true := by decide +kernel
  have hcall : methodOf some leaking = some Methods.toolsCall := by decide +kernel
  refine ⟨fun h => ?_, hleaks, hcall, by decide +kernel, by decide +kernel⟩
  have hooks : Hooks := ⟨.ok .null, .ok .null, fun _ => .ok .null, .ok true, fun _ => .ok ()⟩
  obtain ⟨method, hmethod, hmem⟩ :=
    (h some hooks leaking).mp ((published_iff some hooks leaking).mpr hleaks)
  obtain rfl : Methods.toolsCall = method := Option.some.inj (hcall.symm.trans hmethod)
  revert hmem
  decide

/-- Without a backslash no notification is missed, and a frame is published for the strings it holds,
wherever they stand. -/
theorem unescaped_published_iff (hooks : Hooks) {text : List Char} {v : Json}
    (hparse : Json.parse text = some v) (htext : '\\' ∉ text) :
    ((readText readNumber hooks text).published = some text ↔ ∃ s ∈ v.strings, Named s) ∧
      (IsNotification readNumber text → (readText readNumber hooks text).published = some text) := by
  have hiff : (readText readNumber hooks text).published = some text ↔ ∃ s ∈ v.strings, Named s := by
    rw [published_iff, fansOut_iff_literal hparse, Json.literals_eq_strings hparse htext]
    simp only [List.mem_map, exists_exists_and_eq_and]
    refine exists_congr fun s => and_congr_right fun hs => fansOut_quote_iff ?_
    refine (Json.literals_plain text htext s.toList ?_).2
    rw [Json.literals_eq_strings hparse htext]
    exact List.mem_map_of_mem hs
  refine ⟨hiff, fun h => hiff.mpr ?_⟩
  obtain ⟨v', hparse', method, hmem, hstring⟩ := IsNotification.parsed readNumber h
  obtain rfl : v = v' := Option.some.inj (hparse.symm.trans hparse')
  exact ⟨method, hstring, named_of_mem hmem⟩

end Dispatch

end Overacp
