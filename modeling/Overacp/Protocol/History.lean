import Overacp.Lib.Json.Integer
import Overacp.Lib.Json.Record
import Overacp.Protocol.Messages

/-!
# Messages of a conversation on the wire

The protocol's own form of a message: blocks of content and tool calls are opaque values. It is what
`context/compacted` carries to the operator.
-/

namespace Overacp

namespace Protocol

def Role.toValue : Role → Json
  | system => .string "system"
  | user => .string "user"
  | assistant => .string "assistant"
  | tool => .string "tool"

/-- A flat string or a list of opaque blocks. -/
inductive Content where
  | text (text : String)
  | blocks (blocks : List Json)
  deriving Repr

namespace Content

def ofValue : Json → Option Content
  | .string s => some (text s)
  | .array elems => some (blocks elems)
  | _ => none

def toValue : Content → Json
  | text s => .string s
  | blocks bs => .array bs

end Content

structure Message where
  role : Role
  content : Option Content
  toolCalls : Option Json
  toolCallId : Option String
  deriving Repr

/-- The fields of a message; a positional form has all of them. -/
def messageFields : List Json.Field :=
  [⟨"role", false⟩, ⟨"content", false⟩, ⟨"tool_calls", false⟩, ⟨"tool_call_id", false⟩]

namespace Message

def ofValue (value : Json) : Option Message :=
  match Json.fields messageFields value with
  | some [some role, content, toolCalls, toolCallId] => do
      let role ← Role.ofValue role
      let content ← Json.optional Content.ofValue content
      let toolCalls ← Json.optional some toolCalls
      let toolCallId ← Json.optional Json.asStr toolCallId
      return ⟨role, content, toolCalls, toolCallId⟩
  | _ => none

def toValue (m : Message) : Json :=
  Json.record [("content", m.content.map Content.toValue), ("role", some m.role.toValue),
    ("tool_call_id", m.toolCallId.map .string), ("tool_calls", m.toolCalls)]

end Message

structure Usage where
  inputTokens : Nat
  outputTokens : Nat
  deriving DecidableEq, Repr

def number (n : Nat) : Json := .number (Json.Number.ofInt n)

def Usage.toValue (usage : Usage) : Json :=
  .object [("input_tokens", number usage.inputTokens), ("output_tokens", number usage.outputTokens)]

structure ContextCompactedParams where
  summary : String
  messages : List Message
  usage : Usage

def ContextCompactedParams.toValue (params : ContextCompactedParams) : Json :=
  .object [("messages", .array (params.messages.map Message.toValue)), ("summary", .string params.summary),
    ("usage", params.usage.toValue)]

/-- A notification as the agent sends it. -/
def notification (method : String) (params : Json) : Json :=
  .object [("jsonrpc", .string "2.0"), ("method", .string method), ("params", params)]

/-- Four fields that were written are read back, whichever of them are there. -/
theorem messageFields_record (content toolCallId toolCalls : Option Json) (role : Json) :
    Json.fields messageFields (Json.record [("content", content), ("role", some role),
      ("tool_call_id", toolCallId), ("tool_calls", toolCalls)]) =
        some [some role, content, toolCalls, toolCallId] := by
  refine Json.fields_record ?_ ?_
  · show ["content", "role", "tool_call_id", "tool_calls"].Nodup
    decide
  · exact .cons (by simp) (.cons (by simp) (.cons (by simp) (.cons (by simp) .nil)))

end Protocol

end Overacp
