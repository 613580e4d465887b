import Mathlib.Algebra.Order.Ring.Rat
import Overacp.Lib.Json.Shape

/-!
# Messages of the language model

The chat vocabulary of the agentic loop: roles, message content, content blocks, tool calls and tool
definitions, and how each is decoded from a JSON value.
-/

namespace Overacp

namespace Llm

inductive Role where
  | system
  | user
  | assistant
  | tool
  deriving DecidableEq, Repr

inductive ContentBlock where
  | text (text : String)
  | imageUrl (imageUrl : Json)
  | image (source : Json)
  | inputAudio (inputAudio : Json)
  deriving Repr

namespace ContentBlock

/-- The variant with a tag, out of its field. -/
def ofTag (tag : String) (field : String → Option Json) : Option ContentBlock :=
  match tag with
  | "text" => ((field "text").bind Json.asStr).map text
  | "image_url" => (field "image_url").map imageUrl
  | "image" => (field "source").map image
  | "input_audio" => (field "input_audio").map inputAudio
  | _ => none

/-- `#[serde(tag = "type")]`: an object, of which members a variant does not name are ignored, or an array
of the tag and the one field. -/
def ofValue : Json → Option ContentBlock
  | .array [.string tag, value] => ofTag tag fun _ => some value
  | value => ((value.get "type").bind Json.asStr).bind fun tag => ofTag tag value.get

/-- The object with its tag, members in the order of a map. -/
def toValue : ContentBlock → Json
  | text t => .object [("text", .string t), ("type", .string "text")]
  | imageUrl v => .object [("image_url", v), ("type", .string "image_url")]
  | image v => .object [("source", v), ("type", .string "image")]
  | inputAudio v => .object [("input_audio", v), ("type", .string "input_audio")]

end ContentBlock

/-- A block that was recognised, or the JSON of one that was not. -/
inductive TypedBlock where
  | known (block : ContentBlock)
  | unknown (value : Json)
  deriving Repr

namespace TypedBlock

def ofValue (value : Json) : TypedBlock :=
  match ContentBlock.ofValue value with
  | some block => known block
  | none => unknown value

def toValue : TypedBlock → Json
  | known block => block.toValue
  | unknown value => value

def asText : TypedBlock → Option String
  | known (.text text) => some text
  | _ => none

def estimateTokens : TypedBlock → Nat
  | known (.text text) => text.utf8ByteSize / 4
  | known (.imageUrl _) | known (.image _) => 765
  | known (.inputAudio _) | unknown _ => 0

end TypedBlock

inductive Content where
  | text (text : String)
  | blocks (blocks : List TypedBlock)
  deriving Repr

namespace Content

/-- `#[serde(untagged)]`: a string, else a list of blocks. -/
def ofValue : Json → Option Content
  | .string s => some (text s)
  | .array elems => some (blocks (elems.map TypedBlock.ofValue))
  | _ => none

def toValue : Content → Json
  | text s => .string s
  | blocks bs => .array (bs.map TypedBlock.toValue)

def asText : Content → Option String
  | text s => some s
  | blocks _ => none

def extractText : Content → Option String
  | text s => some s
  | blocks bs =>
      match bs.filterMap TypedBlock.asText with
      | [] => none
      | texts => some (String.intercalate "\n" texts)

def estimateTokens : Content → Nat
  | text s => s.utf8ByteSize / 4
  | blocks bs => (bs.map TypedBlock.estimateTokens).sum

end Content

structure FunctionCall where
  name : String
  arguments : String
  deriving DecidableEq, Repr

structure ToolCall where
  id : String
  callType : String
  function : FunctionCall
  deriving DecidableEq, Repr

structure Message where
  role : Role
  content : Option Content
  toolCalls : Option (List ToolCall)
  toolCallId : Option String
  deriving Repr

/-- A piece of content returned by a tool. -/
inductive ToolContent where
  | text (text : String)
  | imageBase64 (data mimeType : String)
  deriving DecidableEq, Repr

structure FunctionDef where
  name : String
  description : String
  parameters : Json
  deriving Repr

structure ToolDefinition where
  toolType : String
  function : FunctionDef
  deriving Repr

/-! ### Responses -/

inductive StopReason where
  | stop
  | toolCalls
  | length
  | contentFilter
  deriving DecidableEq, Repr

structure FunctionCallDelta where
  name : Option String
  arguments : Option String
  deriving DecidableEq, Repr

structure ToolCallDelta where
  index : Nat
  id : Option String
  function : Option FunctionCallDelta
  deriving DecidableEq, Repr

structure Delta where
  role : Option Role
  content : Option String
  toolCalls : Option (List ToolCallDelta)
  deriving DecidableEq, Repr

structure Choice where
  message : Option Message
  delta : Option Delta
  finishReason : Option StopReason
  deriving Repr

/-- The cost is the number that the floating point field holds. -/
structure Usage where
  promptTokens : Nat
  completionTokens : Nat
  totalTokens : Nat
  cost : ℚ
  cacheReadTokens : Nat
  cacheCreationTokens : Nat
  deriving DecidableEq, Repr

structure CompletionResponse where
  choices : List Choice
  usage : Option Usage
  deriving Repr

structure StreamEvent where
  choices : List Choice
  usage : Option Usage
  deriving Repr

/-- What decoding and assembling a response take from outside: what a floating point field makes of a number, `none`
where it is out of range, and how many calls a `Vec` can hold before memory runs out. -/
structure Host where
  readFloat : Json.Number → Option ℚ
  maxCalls : Nat
  maxCalls_lt : maxCalls < 2 ^ 63

/-! ### Decoding responses

Records are decoded straight from the text: a field that is written twice is an error, an unknown one
is passed over. -/

def Role.ofText (value : Json) : Option Role :=
  match value.unitVariant with
  | some "system" => some .system
  | some "user" => some .user
  | some "assistant" => some .assistant
  | some "tool" => some .tool
  | _ => none

def StopReason.ofText (value : Json) : Option StopReason :=
  match value.unitVariant with
  | some "stop" => some .stop
  | some "tool_calls" => some .toolCalls
  | some "length" => some .length
  | some "content_filter" => some .contentFilter
  | _ => none

def FunctionCall.ofText (value : Json) : Option FunctionCall :=
  match Json.fields [⟨"name", false⟩, ⟨"arguments", false⟩] value with
  | some [some (.string name), some (.string arguments)] => some ⟨name, arguments⟩
  | _ => none

def ToolCall.ofText (value : Json) : Option ToolCall :=
  match Json.fields [⟨"id", false⟩, ⟨"type", false⟩, ⟨"function", false⟩] value with
  | some [some (.string id), some (.string callType), some function] =>
      (FunctionCall.ofText function).map fun function => ⟨id, callType, function⟩
  | _ => none

def Message.ofText (value : Json) : Option Message :=
  match Json.fields [⟨"role", false⟩, ⟨"content", false⟩, ⟨"tool_calls", false⟩, ⟨"tool_call_id", false⟩]
      value with
  | some [some role, content, toolCalls, toolCallId] => do
      let role ← Role.ofText role
      let content ← Json.optional (fun v => Content.ofValue v.collapse) content
      let toolCalls ← Json.optional (Json.listOf ToolCall.ofText) toolCalls
      let toolCallId ← Json.optional Json.asStr toolCallId
      some ⟨role, content, toolCalls, toolCallId⟩
  | _ => none

def FunctionCallDelta.ofText (value : Json) : Option FunctionCallDelta :=
  match Json.fields [⟨"name", true⟩, ⟨"arguments", true⟩] value with
  | some [name, arguments] => do
      some ⟨← Json.optional Json.asStr name, ← Json.optional Json.asStr arguments⟩
  | _ => none

def ToolCallDelta.ofText (value : Json) : Option ToolCallDelta :=
  match Json.fields [⟨"index", false⟩, ⟨"id", true⟩, ⟨"function", true⟩] value with
  | some [some index, id, function] => do
      some ⟨← Json.unsigned 64 index, ← Json.optional Json.asStr id,
        ← Json.optional FunctionCallDelta.ofText function⟩
  | _ => none

def Delta.ofText (value : Json) : Option Delta :=
  match Json.fields [⟨"role", true⟩, ⟨"content", true⟩, ⟨"tool_calls", true⟩] value with
  | some [role, content, toolCalls] => do
      some ⟨← Json.optional Role.ofText role, ← Json.optional Json.asStr content,
        ← Json.optional (Json.listOf ToolCallDelta.ofText) toolCalls⟩
  | _ => none

/-! What is read of each record; the content of a message is read whole. -/

def FunctionCall.shape : Json.Shape := .record [("name", .whole), ("arguments", .whole)]

def ToolCall.shape : Json.Shape := .record [("id", .whole), ("type", .whole), ("function", FunctionCall.shape)]

def Message.shape : Json.Shape :=
  .record [("role", .whole), ("content", .whole), ("tool_calls", .list ToolCall.shape), ("tool_call_id", .whole)]

def FunctionCallDelta.shape : Json.Shape := .record [("name", .whole), ("arguments", .whole)]

def ToolCallDelta.shape : Json.Shape :=
  .record [("index", .whole), ("id", .whole), ("function", FunctionCallDelta.shape)]

def Delta.shape : Json.Shape :=
  .record [("role", .whole), ("content", .whole), ("tool_calls", .list ToolCallDelta.shape)]

def Choice.shape : Json.Shape :=
  .record [("message", Message.shape), ("delta", Delta.shape), ("finish_reason", .whole)]

def Usage.shape : Json.Shape :=
  .record [("prompt_tokens", .whole), ("completion_tokens", .whole), ("total_tokens", .whole), ("cost", .whole),
    ("cache_read_input_tokens", .whole), ("cache_creation_input_tokens", .whole),
    ("prompt_tokens_details", .record [("cached_tokens", .whole)])]

def StreamEvent.shape : Json.Shape := .record [("choices", .list Choice.shape), ("usage", Usage.shape)]

section

variable (host : Host)

/-- A message in a response: its content is read as a value first, whose numbers have to be in range. -/
def Message.ofResponse (value : Json) : Option Message :=
  if value.numbers.all fun n => (host.readFloat n).isSome then Message.ofText value else none

def Choice.ofText (value : Json) : Option Choice :=
  match Json.fields [⟨"message", false⟩, ⟨"delta", false⟩, ⟨"finish_reason", false⟩] value with
  | some [message, delta, finishReason] => do
      some ⟨← Json.optional (Message.ofResponse host) message, ← Json.optional Delta.ofText delta,
        ← Json.optional StopReason.ofText finishReason⟩
  | _ => none

/-- The tokens of `prompt_tokens_details`, zero where there are none. -/
def cachedTokens (value : Json) : Option Nat :=
  match Json.fields [⟨"cached_tokens", true⟩] value with
  | some [cached] => Json.withDefault 0 (Json.unsigned 64) cached
  | _ => none

/-- Both shapes of cache accounting collapse into one: the larger of the two read counts. -/
def Usage.ofText (value : Json) : Option Usage :=
  match Json.fields [⟨"prompt_tokens", true⟩, ⟨"completion_tokens", true⟩, ⟨"total_tokens", true⟩,
      ⟨"cost", true⟩, ⟨"cache_read_input_tokens", true⟩, ⟨"cache_creation_input_tokens", true⟩,
      ⟨"prompt_tokens_details", true⟩] value with
  | some [prompt, completion, total, cost, cacheRead, cacheCreation, details] => do
      let cacheRead ← Json.withDefault 0 (Json.unsigned 64) cacheRead
      let details ← Json.optional cachedTokens details
      some {
        promptTokens := ← Json.withDefault 0 (Json.unsigned 64) prompt
        completionTokens := ← Json.withDefault 0 (Json.unsigned 64) completion
        totalTokens := ← Json.withDefault 0 (Json.unsigned 64) total
        cost := ← Json.withDefault 0 (Json.float host.readFloat) cost
        cacheReadTokens := max cacheRead (details.getD 0)
        cacheCreationTokens := ← Json.withDefault 0 (Json.unsigned 64) cacheCreation }
  | _ => none

def StreamEvent.ofValue (value : Json) : Option StreamEvent :=
  match Json.fields [⟨"choices", true⟩, ⟨"usage", true⟩] value with
  | some [choices, usage] => do
      some ⟨← Json.withDefault [] (Json.listOf (Choice.ofText host)) choices,
        ← Json.optional (Usage.ofText host) usage⟩
  | _ => none

/-- `serde_json::from_str::<StreamEvent>`. -/
def StreamEvent.ofText (text : List Char) : Option StreamEvent :=
  (Json.parseAs StreamEvent.shape text).bind (StreamEvent.ofValue host)

end

end Llm

end Overacp
