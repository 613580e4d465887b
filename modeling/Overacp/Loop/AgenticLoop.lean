import Overacp.Lib.Prog
import Overacp.Lib.Utf8
import Overacp.Loop.Compaction
import Overacp.Loop.Llm.Stream
import Overacp.Loop.Tools.Registry

/-!
# The agentic loop

`run` as a program over the state of one turn. Everything outside (the clock, the broker, the language
model, the tools) is an environment whose answers may depend on all that has happened before, which
the state keeps as a trace.
-/

namespace Overacp

open Llm

namespace AgenticLoop

/-! ### What happens in a turn -/

/-- Nanoseconds, of an instant or of a duration. -/
abbrev Nanos := Nat

inductive InputPreview where
  | snapshot (messages : List Message)
  | messageCount (count : Nat)

structure GenerationParams where
  model : String
  messageCount : Nat
  inputPreview : InputPreview
  outputText : Option String
  stopReason : String
  promptTokens : Nat
  completionTokens : Nat
  cost : ℚ
  cacheReadTokens : Nat
  cacheCreationTokens : Nat
  level : Option String
  statusMessage : Option String

structure ToolSpanParams where
  name : String
  input : String
  output : String
  isError : Bool

inductive Event where
  | clock
  | heartbeat
  | quotaCheck
  | quotaUpdate (inputTokens outputTokens : Nat)
  | streamTextDelta (text : String)
  | streamActivity (activity : String)
  | streamToolCall (id name : String) (arguments : Json)
  | streamToolResult (id : String) (content : Json) (isError : Bool)
  | contextCompacted (summary : String) (messages : List Message) (usage : Usage)
  | turnEnd (usage : Usage)
  | complete (messages : List Message)
  | streamCompletion (messages : List Message) (tools : List ToolDefinition)
  | toolsCall (name : String) (arguments : Json)
  | execute (name : String) (arguments : Json)
  | recordGeneration (params : GenerationParams)
  | recordToolSpan (params : ToolSpanParams)
  | finalize (totalTokens : Nat) (cost : ℚ) (toolCount : Nat) (responseText : String)

/-- An error of the language model: what it displays, alone and with its causes. -/
structure LlmError where
  message : String
  chain : String

/-- The answers of everything outside; each is given the trace, whose last event is the question. Reading a number
gives the number that comes of it, `none` where it is out of range. The last two say whether a line logged at that
level has its arguments computed. -/
structure Environment where
  now : List Event → Nanos
  quotaCheck : List Event → Except String Bool
  quotaUpdate : List Event → Except String Unit
  notify : List Event → Except String Unit
  complete : List Event → Except String CompletionResponse
  streamCompletion : List Event → List String × Except LlmError StreamedResponse
  definitions : List Event → List ToolDefinition
  isAcpTool : String → Bool
  toolsCall : List Event → Except String Json
  execute : List Event → Except String ToolOutput
  readNumber : Json.Number → Option Json.Number
  argumentError : String → String → String
  infoEnabled : Bool
  warnEnabled : Bool

/-- `overThreshold n` is the comparison of `n` tokens with the threshold, in floating point. -/
structure LoopConfig where
  maxIterations : Nat
  timeout : Nanos
  model : String
  contextWindow : Nat
  overThreshold : Nat → Bool
  compactionKeepRecent : Nat
  maxCompactions : Nat
  langfuseCaptureInput : Bool

structure State where
  trace : List Event
  messages : List Message
  start : Nanos
  totalUsage : Usage
  silentTurns : Nat
  lastHeartbeat : Nanos
  responseText : String
  toolCount : Nat
  compactionCount : Nat

abbrev Loop := Prog State String

/-- Put a question to the environment. -/
def ask {α : Type} (event : Event) (answer : List Event → α) : Loop α := fun s =>
  .next (answer (s.trace ++ [event])) { s with trace := s.trace ++ [event] }

/-- A call whose answer is not looked at. -/
def tell (event : Event) : Loop Unit := ask event fun _ => ()

variable (env : Environment) (config : LoopConfig)

/-- `acp.notification(..)?`. -/
def notifyOrFail (event : Event) : Loop Unit := do
  match ← ask event env.notify with
  | .ok () => pure ()
  | .error e => Prog.fail e

def pushMessage (msg : Message) : Loop Unit := Prog.modify fun s => { s with messages := s.messages ++ [msg] }

def systemMsg (text : String) : Message := ⟨.system, some (.text text), none, none⟩

/-! ### Before the call -/

def heartbeatInterval : Nanos := 30000000000

def windDownIters : Nat := 5

def silenceNudge : String :=
  "You haven't produced any output. Please respond to the user or explain what you're working on."

def checkTimeout : Loop Unit := do
  let s ← Prog.get
  let now ← ask .clock env.now
  if now - s.start ≥ config.timeout then
    notifyOrFail env (.streamTextDelta "\n\n[Session timed out]")
    Prog.stop

def checkHeartbeat : Loop Unit := do
  let s ← Prog.get
  let now ← ask .clock env.now
  if now - s.lastHeartbeat ≥ heartbeatInterval then
    tell .heartbeat
    let now ← ask .clock env.now
    Prog.modify fun s => { s with lastHeartbeat := now }

def checkQuota : Loop Unit := do
  let answer ← ask .quotaCheck env.quotaCheck
  match answer with
  | .ok false =>
      notifyOrFail env (.streamTextDelta "\n\n[Quota exhausted]")
      Prog.stop
  | _ => pure ()

/-- `compact_messages`, with the call of the language model. -/
def compactMessages (messages : List Message) (keepRecent : Nat) : Loop Compaction.CompactionResult := do
  match Compaction.toCompact messages keepRecent with
  | none => pure (Compaction.unchanged messages)
  | some slice =>
      match ← ask (.complete (Compaction.summaryMessages slice)) env.complete with
      | .error e => Prog.fail e
      | .ok response =>
          match Compaction.summaryOf response with
          | .error e => Prog.fail e
          | .ok summary => pure (Compaction.compacted messages keepRecent summary)

/-- The percentage of a log line divides by the context window. -/
def logPercentage (enabled : Bool) : Loop Unit :=
  if enabled = true ∧ config.contextWindow = 0 then Prog.panic else pure ()

/-- What the loop makes of the result: announced and counted unless its summary is empty. -/
def adopt (result : Compaction.CompactionResult) : Loop Unit := do
  let s ← Prog.get
  if result.summary ≠ "" then
    tell (.contextCompacted result.summary result.canonicalMessages s.totalUsage)
    Prog.modify fun s => { s with compactionCount := s.compactionCount + 1 }
  Prog.modify fun s => { s with messages := result.workingMessages }

def checkCompaction : Loop Unit := do
  let s ← Prog.get
  if config.overThreshold (Compaction.estimateTokens s.messages) = true then
    if s.compactionCount < config.maxCompactions then
      logPercentage config env.infoEnabled
      let result ← compactMessages env s.messages config.compactionKeepRecent
      adopt result
    else logPercentage config env.warnEnabled

def windDown (iteration : Nat) : Loop Unit :=
  let remaining := config.maxIterations - iteration
  if remaining = windDownIters then
    pushMessage (systemMsg s!"[System: {remaining} iterations remaining. Wrap up your work.]")
  else pure ()

def nudge : Loop Unit := do
  let s ← Prog.get
  if s.silentTurns ≥ 3 then
    pushMessage (systemMsg silenceNudge)
    Prog.modify fun s => { s with silentTurns := 0 }

/-! ### The call -/

def stopReasonStr : Option StopReason → String
  | some .stop => "stop"
  | some .toolCalls => "tool_calls"
  | some .length => "length"
  | some .contentFilter => "content_filter"
  | none => "unknown"

def failedGeneration (count : Nat) (preview : InputPreview) (e : LlmError) : GenerationParams :=
  ⟨config.model, count, preview, none, "error", 0, 0, 0, 0, 0, some "ERROR", some e.chain⟩

def generation (count : Nat) (preview : InputPreview) (text : String) (streamed : StreamedResponse) :
    GenerationParams where
  model := config.model
  messageCount := count
  inputPreview := preview
  outputText := if text = "" then none else some text
  stopReason := stopReasonStr streamed.finishReason
  promptTokens := (streamed.usage.map Usage.promptTokens).getD 0
  completionTokens := (streamed.usage.map Usage.completionTokens).getD 0
  cost := (streamed.usage.map Usage.cost).getD 0
  cacheReadTokens := (streamed.usage.map Usage.cacheReadTokens).getD 0
  cacheCreationTokens := (streamed.usage.map Usage.cacheCreationTokens).getD 0
  level := none
  statusMessage := none

/-- The streaming call: its deltas go to the broker, its failure ends the turn. -/
def callLlm : Loop StreamedResponse := do
  let s ← Prog.get
  let tools := env.definitions s.trace
  let preview := if config.langfuseCaptureInput then InputPreview.snapshot s.messages
    else .messageCount s.messages.length
  let answer ← ask (.streamCompletion s.messages tools) env.streamCompletion
  Prog.forEach answer.1 fun delta => if delta ≠ "" then tell (.streamTextDelta delta) else pure ()
  match answer.2 with
  | .error e =>
      tell (.recordGeneration (failedGeneration config s.messages.length preview e))
      notifyOrFail env (.streamTextDelta s!"\n\n[LLM error: {e.message}]")
      Prog.stop
  | .ok streamed =>
      let text := String.join answer.1
      tell (.recordGeneration (generation config s.messages.length preview text streamed))
      Prog.modify fun s => { s with responseText := s.responseText ++ text }
      pure streamed

/-! ### After the call -/

def addUsage (total usage : Usage) : Usage where
  promptTokens := total.promptTokens + usage.promptTokens
  completionTokens := total.completionTokens + usage.completionTokens
  totalTokens := total.totalTokens + usage.totalTokens
  cost := total.cost + usage.cost
  cacheReadTokens := total.cacheReadTokens + usage.cacheReadTokens
  cacheCreationTokens := total.cacheCreationTokens + usage.cacheCreationTokens

def trackUsage : Option Usage → Loop Unit
  | none => pure ()
  | some usage => do
      Prog.modify fun s => { s with totalUsage := addUsage s.totalUsage usage }
      tell (.quotaUpdate usage.promptTokens usage.completionTokens)

def trackSilence (message : Message) : Loop Unit :=
  Prog.modify fun s =>
    { s with silentTurns := if message.content.isSome || message.toolCalls.isSome then 0 else s.silentTurns + 1 }

def lfTruncate : Nat := 4096

/-- `is_char_boundary`. -/
def isCharBoundary (bytes : List UInt8) (index : Nat) : Bool :=
  match bytes[index]? with
  | some b => index = 0 || !Utf8.isContinuation b
  | none => index = bytes.length

/-- Back from an index to the character boundary at or before it. -/
def boundaryBelow (bytes : List UInt8) : Nat → Nat
  | 0 => 0
  | index + 1 => if isCharBoundary bytes (index + 1) then index + 1 else boundaryBelow bytes index

def truncateForTrace (s : String) : String :=
  let bytes := Utf8.encode s.toList
  if bytes.length ≤ lfTruncate then s
  else String.ofList (Utf8.decodeLossy (bytes.take (boundaryBelow bytes lfTruncate))) ++ "…[truncated]"

def toolOutputToContent : ToolOutput → Content
  | .text s => .text s
  | .blocks blocks => .blocks (blocks.map fun
      | .text t => .known (.text t)
      | .imageBase64 data mimeType =>
          .known (.imageUrl (.object [("url", .string s!"data:{mimeType};base64,{data}")])))

def extractAcpToolResult (value : Json) : Except String ToolOutput :=
  let isError := ((value.get "isError").bind Json.asBool).getD false
  let outcome (text : String) : Except String ToolOutput := if isError then .error text else .ok (.text text)
  let text := ((value.get "content").bind Json.asArray).map fun content =>
    String.intercalate "\n" (content.filterMap fun block =>
      if (block.get "type").bind Json.asStr = some "text" then (block.get "text").bind Json.asStr else none)
  if text.getD "" ≠ "" then outcome (text.getD "") else outcome (String.ofList value.print)

def toolMessage (id : String) (content : Content) : Message := ⟨.tool, some content, none, some id⟩

/-- The call goes to the operator if it has a tool of that name, to the registry otherwise. -/
def invoke (name : String) (arguments : Json) : Loop (Except String ToolOutput) :=
  if env.isAcpTool name then do
    let answer ← ask (.toolsCall name arguments) env.toolsCall
    pure (match answer with
      | .ok value => extractAcpToolResult value
      | .error e => .error e)
  else ask (.execute name arguments) env.execute

def handleToolCall (tc : ToolCall) : Loop Unit := do
  let name := tc.function.name
  match Json.read env.readNumber tc.function.arguments.toList with
  | none =>
      tell (.streamActivity s!"Invalid tool arguments: {name}")
      tell (.streamToolCall tc.id name .null)
      let content := Content.text (env.argumentError name tc.function.arguments)
      tell (.streamToolResult tc.id content.toValue true)
      pushMessage (toolMessage tc.id content)
  | some args =>
      tell (.streamActivity s!"Running tool: {name}")
      tell (.streamToolCall tc.id name args)
      let result ← invoke env name args
      let outcome : Content × Bool := match result with
        | .ok output => (toolOutputToContent output, false)
        | .error err => (.text s!"Error: {err}", true)
      let contentValue := outcome.1.toValue
      tell (.recordToolSpan ⟨name, truncateForTrace (String.ofList args.print),
        truncateForTrace (String.ofList contentValue.print), outcome.2⟩)
      Prog.modify fun s => { s with toolCount := s.toolCount + 1 }
      tell (.streamToolResult tc.id contentValue outcome.2)
      pushMessage (toolMessage tc.id outcome.1)

def finish : Option StopReason → Loop Unit
  | some .stop | none => Prog.stop
  | some .length => do
      notifyOrFail env (.streamTextDelta "\n\n[Response truncated due to length limit]")
      Prog.stop
  | some .contentFilter => do
      notifyOrFail env (.streamTextDelta "\n\n[Content filtered]")
      Prog.stop
  | some .toolCalls => pure ()

/-! ### The turn -/

/-- An iteration up to its compaction check. -/
def preamble : Loop Unit := do
  checkTimeout env config
  checkHeartbeat env
  checkQuota env

/-- An iteration from its compaction check on. -/
def rest (iteration : Nat) : Loop Unit := do
  windDown config iteration
  nudge
  let streamed ← callLlm env config
  trackUsage streamed.usage
  trackSilence streamed.message
  pushMessage streamed.message
  match streamed.message.toolCalls with
  | some toolCalls => Prog.forEach toolCalls (handleToolCall env)
  | none => finish env streamed.finishReason

def iterate (iteration : Nat) : Loop Unit := do
  preamble env config
  checkCompaction env config
  rest env config iteration

/-- The iterations from one on, as many as are left. -/
def iterations : Nat → Nat → Loop Unit
  | 0, _ => pure ()
  | left + 1, iteration => do
      iterate env config iteration
      iterations left (iteration + 1)

/-- What is left to do once the loop has been left. -/
def epilogue : Loop Unit := do
  let s ← Prog.get
  tell (.turnEnd s.totalUsage)
  tell (.finalize s.totalUsage.totalTokens s.totalUsage.cost s.toolCount s.responseText)

def noUsage : Usage := ⟨0, 0, 0, 0, 0, 0⟩

/-- The clock is read for `start` and again for `last_heartbeat`. -/
def initial (trace : List Event) (messages : List Message) : State :=
  let trace := trace ++ [.clock]
  let start := env.now trace
  let trace := trace ++ [.clock]
  ⟨trace, messages, start, noUsage, 0, env.now trace, "", 0, 0⟩

/-- `run` on a history, after the given events. -/
def run (trace : List Event) (messages : List Message) : Outcome State String Unit :=
  match iterations env config config.maxIterations 0 (initial env trace messages) with
  | .next () s | .stop s => epilogue s
  | .fail e s => .fail e s
  | .panic s => .panic s

end AgenticLoop

end Overacp
