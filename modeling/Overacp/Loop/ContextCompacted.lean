import Overacp.Loop.Llm.Types
import Overacp.Protocol.History

/-!
# What `context/compacted` sends

The agent keeps messages in its own types, and turns them into the protocol's by way of JSON: its own
form is written as a value, and the value is read as the protocol's. Two codecs have to agree on every
message for this not to fail and not to change what goes to the operator.
-/

namespace Overacp

namespace Llm

/-! ### The agent's codec -/

def Role.toValue : Role → Json
  | system => .string "system"
  | user => .string "user"
  | assistant => .string "assistant"
  | tool => .string "tool"

def FunctionCall.toValue (call : FunctionCall) : Json :=
  .object [("arguments", .string call.arguments), ("name", .string call.name)]

def ToolCall.toValue (call : ToolCall) : Json :=
  .object [("function", call.function.toValue), ("id", .string call.id), ("type", .string call.callType)]

namespace Message

def toValue (m : Message) : Json :=
  Json.record [("content", m.content.map Content.toValue), ("role", some m.role.toValue),
    ("tool_call_id", m.toolCallId.map .string),
    ("tool_calls", m.toolCalls.map fun calls => .array (calls.map ToolCall.toValue))]

/-- `from_value`, as `initialize` uses it. -/
def ofValue (value : Json) : Option Message :=
  match Json.fields Protocol.messageFields value with
  | some [some role, content, toolCalls, toolCallId] => do
      let role ← Role.ofText role
      let content ← Json.optional Content.ofValue content
      let toolCalls ← Json.optional (Json.listOf ToolCall.ofText) toolCalls
      let toolCallId ← Json.optional Json.asStr toolCallId
      return ⟨role, content, toolCalls, toolCallId⟩
  | _ => none

/-- Blocks that were not recognised hold nothing that would be: what the decoder guarantees. -/
def Decoded (m : Message) : Prop :=
  ∀ blocks, m.content = some (.blocks blocks) → ∀ v, TypedBlock.unknown v ∈ blocks → ContentBlock.ofValue v = none

end Message

/-! ### Reading what was written -/

theorem Role.ofText_toValue (role : Role) : Role.ofText role.toValue = some role := by
  cases role <;> rfl

theorem ToolCall.ofText_toValue (call : ToolCall) : ToolCall.ofText call.toValue = some call := rfl

theorem ContentBlock.ofValue_toValue (block : ContentBlock) : ContentBlock.ofValue block.toValue = some block := by
  cases block <;> rfl

theorem TypedBlock.ofValue_toValue {block : TypedBlock}
    (h : ∀ v, block = .unknown v → ContentBlock.ofValue v = none) : TypedBlock.ofValue block.toValue = block := by
  cases block with
  | known block => rw [toValue, ofValue, ContentBlock.ofValue_toValue]
  | unknown v => rw [toValue, ofValue, h v rfl]

theorem Content.toValue_ne_null (content : Content) : content.toValue ≠ .null := by
  cases content with
  | text s => exact Json.string_ne_null s
  | blocks bs => exact Json.array_ne_null _

theorem Content.ofValue_toValue {content : Content}
    (h : ∀ blocks, content = .blocks blocks → ∀ v, TypedBlock.unknown v ∈ blocks → ContentBlock.ofValue v = none) :
    Content.ofValue content.toValue = some content := by
  cases content with
  | text s => rfl
  | blocks blocks =>
      have hblocks : (blocks.map TypedBlock.toValue).map TypedBlock.ofValue = blocks := by
        rw [List.map_map]
        refine (List.map_congr_left fun block hblock => ?_).trans (List.map_id blocks)
        exact TypedBlock.ofValue_toValue fun v heq => h blocks rfl v (heq ▸ hblock)
      rw [toValue, ofValue, hblocks]

/-- The agent reads its own messages back. -/
theorem Message.ofValue_toValue {m : Message} (h : m.Decoded) : Message.ofValue m.toValue = some m := by
  have hcontent : Json.optional Content.ofValue (m.content.map Content.toValue) = some (m.content.map id) :=
    Json.optional_map fun content hcontent => ⟨content.toValue_ne_null,
      Content.ofValue_toValue fun blocks heq => h blocks (by rw [Option.mem_def.mp hcontent, heq])⟩
  have hcalls : Json.optional (Json.listOf ToolCall.ofText)
      (m.toolCalls.map fun calls => .array (calls.map ToolCall.toValue)) = some (m.toolCalls.map id) := by
    refine Json.optional_map fun calls _ => ⟨Json.array_ne_null _, ?_⟩
    rw [Json.listOf_map (f := id) fun call _ => ToolCall.ofText_toValue call, List.map_id]
    rfl
  have hid : Json.optional Json.asStr (m.toolCallId.map .string) = some (m.toolCallId.map id) :=
    Json.optional_map fun id _ => ⟨Json.string_ne_null id, rfl⟩
  unfold ofValue toValue
  rw [Protocol.messageFields_record]
  simp only [Role.ofText_toValue, hcontent, hcalls, hid, Option.map_id_fun, id_eq]
  rfl

end Llm

/-! ### Into the protocol's types -/

namespace ContextCompacted

open Llm

def role : Role → Protocol.Role
  | .system => .system
  | .user => .user
  | .assistant => .assistant
  | .tool => .tool

def content : Content → Protocol.Content
  | .text s => .text s
  | .blocks bs => .blocks (bs.map TypedBlock.toValue)

/-- The protocol's form of a message. -/
def message (m : Message) : Protocol.Message where
  role := role m.role
  content := m.content.map content
  toolCalls := m.toolCalls.map fun calls => .array (calls.map ToolCall.toValue)
  toolCallId := m.toolCallId

theorem toValue_message (m : Message) : (message m).toValue = m.toValue := by
  have hrole : (role m.role).toValue = m.role.toValue := by
    cases m.role <;> rfl
  have hcontent : (m.content.map content).map Protocol.Content.toValue = m.content.map Content.toValue := by
    rw [Option.map_map]
    refine Option.map_congr fun c _ => ?_
    cases c <;> rfl
  unfold Protocol.Message.toValue Message.toValue
  simp only [message, hrole, hcontent]

/-- Whatever a message holds, the protocol's codec reads it. -/
theorem ofValue_toValue (m : Message) : Protocol.Message.ofValue m.toValue = some (message m) := by
  have hrole : Protocol.Role.ofValue m.role.toValue = some (role m.role) := by
    cases m.role <;> rfl
  have hcontent : Json.optional Protocol.Content.ofValue (m.content.map Content.toValue) =
      some (m.content.map content) := by
    refine Json.optional_map fun c _ => ⟨c.toValue_ne_null, ?_⟩
    cases c <;> rfl
  have hcalls : Json.optional some (m.toolCalls.map fun calls => .array (calls.map ToolCall.toValue)) =
      some (m.toolCalls.map fun calls => .array (calls.map ToolCall.toValue)) :=
    Json.optional_map fun calls _ => ⟨Json.array_ne_null _, rfl⟩
  have hid : Json.optional Json.asStr (m.toolCallId.map .string) = some (m.toolCallId.map id) :=
    Json.optional_map fun id _ => ⟨Json.string_ne_null id, rfl⟩
  unfold Protocol.Message.ofValue Message.toValue
  rw [Protocol.messageFields_record]
  simp only [hrole, hcontent, hcalls, hid, Option.map_id_fun, id_eq]
  rfl

/-- `context_compacted`: the notification that is written, or the error of the conversion. -/
def contextCompacted (summary : String) (messages : List Message) (usage : Usage) : Except String Json :=
  match Json.listOf Protocol.Message.ofValue (.array (messages.map Message.toValue)) with
  | none => .error "convert llm::Message to protocol::Message for context/compacted"
  | some protoMessages =>
      let params : Protocol.ContextCompactedParams :=
        ⟨summary, protoMessages, ⟨usage.promptTokens, usage.completionTokens⟩⟩
      .ok (Protocol.notification Protocol.Methods.contextCompacted params.toValue)

/-- The messages of a notification that was sent. -/
def sentMessages (notification : Json) : Option Json :=
  (notification.get "params").bind fun params => params.get "messages"

theorem contextCompacted_eq (summary : String) (messages : List Message) (usage : Usage) :
    ∃ notification, contextCompacted summary messages usage = .ok notification ∧
      sentMessages notification = some (.array (messages.map Message.toValue)) := by
  have hconvert : Json.listOf Protocol.Message.ofValue (.array (messages.map Message.toValue)) =
      some (messages.map message) := Json.listOf_map fun m _ => ofValue_toValue m
  have hvalues : (messages.map message).map Protocol.Message.toValue = messages.map Message.toValue := by
    rw [List.map_map]
    exact List.map_congr_left fun m _ => toValue_message m
  refine ⟨_, by rw [contextCompacted, hconvert], ?_⟩
  rw [← hvalues]
  rfl

/-- The conversion does not fail, the JSON of the messages goes out as it is, and it reads back as
messages with the same JSON. -/
theorem contextCompacted_keeps_messages (summary : String) {messages : List Message}
    (h : ∀ m ∈ messages, m.Decoded) (usage : Usage) :
    ∃ notification sent back, contextCompacted summary messages usage = .ok notification ∧
      sentMessages notification = some sent ∧ sent = .array (messages.map Message.toValue) ∧
      Json.listOf Message.ofValue sent = some back ∧ .array (back.map Message.toValue) = sent := by
  obtain ⟨notification, hok, hsent⟩ := contextCompacted_eq summary messages usage
  have hback : Json.listOf Message.ofValue (.array (messages.map Message.toValue)) = some (messages.map id) :=
    Json.listOf_map fun m hm => Message.ofValue_toValue (h m hm)
  rw [List.map_id] at hback
  exact ⟨notification, _, messages, hok, hsent, rfl, hback, rfl⟩

/-- Text, a block of an unknown type and a call of a tool. -/
private def mixed : Message where
  role := .assistant
  content := some (.blocks [.known (.text "see"), .unknown (.object [("type", .string "video")])])
  toolCalls := some [⟨"call_1", "function", "read", "none"⟩]
  toolCallId := none

private theorem decoded_mixed : mixed.Decoded := by
  intro blocks hblocks v hv
  cases hblocks
  rcases List.mem_cons.mp hv with heq | hrest
  · cases heq
  · cases List.mem_singleton.mp hrest
    rfl

theorem contextCompacted_mixed :
    ∃ notification sent back, contextCompacted "so far" [mixed] ⟨200, 80, 280, 0, 0, 0⟩ = .ok notification ∧
      sentMessages notification = some sent ∧ sent = .array ([mixed].map Message.toValue) ∧
      Json.listOf Message.ofValue sent = some back ∧ .array (back.map Message.toValue) = sent :=
  contextCompacted_keeps_messages "so far" (fun _ hm => List.mem_singleton.mp hm ▸ decoded_mixed) _

end ContextCompacted

end Overacp
