import Overacp.Loop.CompactionRounds

/-!
# A round of tool calls

What the loop does with a response that carries tool calls: it answers every one of them, in their
order, with one tool message, and announces each call and its result. How a call ended is read off the
answers of the environment here, not off what the loop made of them.
-/

namespace Overacp

open Llm

namespace AgenticLoop

/-! ### How a call ended -/

/-- The arguments did not parse, or the operator or the registry was asked and answered. -/
inductive CallAnswer where
  | badArguments
  | acp (answer : Except String Json)
  | registry (answer : Except String ToolOutput)

/-- An operator's tool fails by an error, or by a result that says it is one. -/
inductive CallAnswer.Failed : CallAnswer → Prop where
  | badArguments : Failed .badArguments
  | acpError (e : String) : Failed (.acp (.error e))
  | acpResult (value : Json) (h : value.get "isError" = some (.bool true)) : Failed (.acp (.ok value))
  | registryError (e : String) : Failed (.registry (.error e))

/-- The events that open a call. -/
def opening (env : Environment) (tc : ToolCall) : List Event :=
  match Json.read env.readNumber tc.function.arguments.toList with
  | none => [.streamActivity s!"Invalid tool arguments: {tc.function.name}",
      .streamToolCall tc.id tc.function.name .null]
  | some args => [.streamActivity s!"Running tool: {tc.function.name}",
      .streamToolCall tc.id tc.function.name args]

def answerOf (env : Environment) (asked : List Event) (name : String) (arguments : Json) : CallAnswer :=
  if env.isAcpTool name then .acp (env.toolsCall (asked ++ [.toolsCall name arguments]))
  else .registry (env.execute (asked ++ [.execute name arguments]))

/-- The answer to a call that is handled after the given events. -/
def answerTo (env : Environment) (before : List Event) (tc : ToolCall) : CallAnswer :=
  match Json.read env.readNumber tc.function.arguments.toList with
  | none => .badArguments
  | some args => answerOf env (before ++ opening env tc) tc.function.name args

theorem extractAcpToolResult_error_iff (value : Json) :
    (∃ e, extractAcpToolResult value = .error e) ↔ value.get "isError" = some (.bool true) := by
  have hflag : ((value.get "isError").bind Json.asBool).getD false = true ↔
      value.get "isError" = some (.bool true) := by
    cases value.get "isError" with
    | none => simp
    | some flag => cases flag <;> simp [Json.asBool]
  rw [← hflag]
  unfold extractAcpToolResult
  dsimp only
  split <;> split <;> simp_all

/-- The tool is asked once, nothing else changes, and an error comes back just where the call failed. -/
theorem invoke_answered (env : Environment) (name : String) (arguments : Json) (s : State) :
    ∃ result event, invoke env name arguments s = .next result { s with trace := s.trace ++ [event] } ∧
      event.routine = true ∧
      ((∃ e, result = .error e) ↔ (answerOf env s.trace name arguments).Failed) := by
  unfold invoke answerOf
  by_cases hacp : env.isAcpTool name = true
  · simp only [if_pos hacp]
    refine ⟨_, .toolsCall name arguments, rfl, rfl, ?_⟩
    cases env.toolsCall (s.trace ++ [.toolsCall name arguments]) with
    | error e => exact ⟨fun _ => .acpError e, fun _ => ⟨e, rfl⟩⟩
    | ok value =>
        rw [extractAcpToolResult_error_iff]
        constructor
        · exact CallAnswer.Failed.acpResult value
        · intro h
          cases h with
          | acpResult _ h => exact h
  · simp only [if_neg hacp]
    refine ⟨_, .execute name arguments, rfl, rfl, ?_⟩
    cases env.execute (s.trace ++ [.execute name arguments]) with
    | error e => exact ⟨fun _ => .registryError e, fun _ => ⟨e, rfl⟩⟩
    | ok output =>
        constructor
        · intro h
          obtain ⟨e, he⟩ := h
          cases he
        · intro h
          cases h

/-! ### Replies -/

/-- A call that was handled after the events `before`, and what the loop made of it. -/
structure Reply (env : Environment) where
  call : ToolCall
  before : List Event
  content : Content
  isError : Bool
  isError_iff : isError = true ↔ (answerTo env before call).Failed

inductive ToolNotice where
  | call (id name : String) (arguments : Json)
  | result (id : String) (content : Json) (isError : Bool)

/-- The arguments a call is announced with. -/
def announcedArguments (env : Environment) (tc : ToolCall) : Json :=
  (Json.read env.readNumber tc.function.arguments.toList).getD .null

namespace Reply

variable {env : Environment}

def message (r : Reply env) : Message := toolMessage r.call.id r.content

def notices (r : Reply env) : List ToolNotice :=
  [.call r.call.id r.call.function.name (announcedArguments env r.call),
    .result r.call.id r.content.toValue r.isError]

end Reply

def Event.toolNotice? : Event → Option ToolNotice
  | streamToolCall id name arguments => some (.call id name arguments)
  | streamToolResult id content isError => some (.result id content isError)
  | _ => none

def toolNotices (s : State) : List ToolNotice := s.trace.filterMap Event.toolNotice?

theorem Event.toolNotice_of_routine (event : Event) (h : event.routine = true) :
    event.toolNotice? = none := by
  cases event <;> first | rfl | exact absurd h nofun

/-- From one state to another the replies were given, one after the other, and nothing else was said
to the language model or about tools. -/
structure Replied (env : Environment) (s t : State) (replies : List (Reply env)) : Prop where
  messages : t.messages = s.messages ++ replies.map Reply.message
  notices : toolNotices t = toolNotices s ++ replies.flatMap Reply.notices
  trace : s.trace <+: t.trace
  placed : ∀ r ∈ replies, s.trace <+: r.before ∧ r.before ++ opening env r.call <+: t.trace

theorem Replied.nil (env : Environment) (s : State) : Replied env s s [] where
  messages := by simp
  notices := by simp
  trace := List.prefix_refl _
  placed := by simp

theorem Replied.append {env : Environment} {s t u : State} {rs rs' : List (Reply env)}
    (h : Replied env s t rs) (h' : Replied env t u rs') : Replied env s u (rs ++ rs') where
  messages := by rw [h'.messages, h.messages, List.map_append, List.append_assoc]
  notices := by rw [h'.notices, h.notices, List.flatMap_append, List.append_assoc]
  trace := h.trace.trans h'.trace
  placed := by
    intro r hr
    rcases List.mem_append.mp hr with hr | hr
    · obtain ⟨hbefore, hplaced⟩ := h.placed r hr
      exact ⟨hbefore, hplaced.trans h'.trace⟩
    · obtain ⟨hbefore, hplaced⟩ := h'.placed r hr
      exact ⟨h.trace.trans hbefore, hplaced⟩

theorem toolNotices_opening (env : Environment) (tc : ToolCall) :
    (opening env tc).filterMap Event.toolNotice? = [.call tc.id tc.function.name (announcedArguments env tc)] := by
  unfold opening announcedArguments
  cases Json.read env.readNumber tc.function.arguments.toList <;> rfl

/-! ### One call -/

/-- A call is opened, something that is not about tools may happen, and its result closes it. -/
theorem Replied.single {env : Environment} {s t : State} {r : Reply env} {quiet : List Event}
    (hbefore : r.before = s.trace) (hquiet : ∀ event ∈ quiet, event.routine = true)
    (htrace : t.trace = s.trace ++ opening env r.call ++ quiet ++
      [.streamToolResult r.call.id r.content.toValue r.isError])
    (hmessages : t.messages = s.messages ++ [r.message]) : Replied env s t [r] where
  messages := hmessages
  notices := by
    have hnone : quiet.filterMap Event.toolNotice? = [] := by
      rw [List.filterMap_eq_nil_iff]
      intro event hevent
      exact event.toolNotice_of_routine (hquiet event hevent)
    unfold toolNotices
    rw [htrace, List.filterMap_append, List.filterMap_append, List.filterMap_append, hnone,
      toolNotices_opening, List.append_nil, List.append_assoc]
    rfl
  trace := by
    rw [htrace, List.append_assoc, List.append_assoc]
    exact List.prefix_append _ _
  placed := by
    intro r' hr'
    obtain rfl := List.mem_singleton.mp hr'
    refine ⟨by rw [hbefore], ?_⟩
    rw [hbefore, htrace, List.append_assoc _ quiet]
    exact List.prefix_append _ _

theorem handleToolCall_bad {env : Environment} {tc : ToolCall}
    (h : Json.read env.readNumber tc.function.arguments.toList = none) (s : State) :
    handleToolCall env tc s = .next () { s with
      trace := s.trace ++ opening env tc ++ [] ++ [.streamToolResult tc.id
        (Content.text (env.argumentError tc.function.name tc.function.arguments)).toValue true]
      messages := s.messages ++
        [toolMessage tc.id (.text (env.argumentError tc.function.name tc.function.arguments))] } := by
  simp only [handleToolCall, h, opening, Prog.run_bind, tell, ask, Outcome.andThen, pushMessage,
    Prog.run_modify, List.append_assoc, List.cons_append, List.nil_append]

/-- What the loop makes of a result. -/
def contentOf : Except String ToolOutput → Content × Bool
  | .ok output => (toolOutputToContent output, false)
  | .error err => (.text s!"Error: {err}", true)

theorem contentOf_error_iff (result : Except String ToolOutput) :
    (contentOf result).2 = true ↔ ∃ e, result = .error e := by
  cases result with
  | ok output => simp [contentOf]
  | error e => simp [contentOf]

theorem handleToolCall_asked {env : Environment} {tc : ToolCall} {args : Json}
    {result : Except String ToolOutput} {event : Event} (s : State)
    (h : Json.read env.readNumber tc.function.arguments.toList = some args)
    (hinvoke : invoke env tc.function.name args { s with trace := s.trace ++ opening env tc } =
      .next result { s with trace := s.trace ++ opening env tc ++ [event] }) :
    ∃ span, handleToolCall env tc s = .next () { s with
      trace := s.trace ++ opening env tc ++ [event, .recordToolSpan span] ++
        [.streamToolResult tc.id (contentOf result).1.toValue (contentOf result).2]
      messages := s.messages ++ [toolMessage tc.id (contentOf result).1]
      toolCount := s.toolCount + 1 } := by
  refine ⟨⟨tc.function.name, truncateForTrace (String.ofList args.print),
    truncateForTrace (String.ofList (contentOf result).1.toValue.print), (contentOf result).2⟩, ?_⟩
  simp only [opening, h, List.append_assoc, List.cons_append, List.nil_append] at hinvoke
  simp only [handleToolCall, h, opening, Prog.run_bind, tell, ask, Outcome.andThen, pushMessage,
    Prog.run_modify, List.append_assoc, List.cons_append, List.nil_append, hinvoke]
  rfl

theorem handleToolCall_replied (env : Environment) (tc : ToolCall) (s : State) :
    ∃ t r, handleToolCall env tc s = .next () t ∧ r.call = tc ∧ Replied env s t [r] := by
  cases hread : Json.read env.readNumber tc.function.arguments.toList with
  | none =>
      have hanswer : answerTo env s.trace tc = .badArguments := by simp only [answerTo, hread]
      let r : Reply env := ⟨tc, s.trace, .text (env.argumentError tc.function.name tc.function.arguments),
        true, by
          rw [hanswer]
          exact ⟨fun _ => .badArguments, fun _ => rfl⟩⟩
      exact ⟨_, r, handleToolCall_bad hread s, rfl, .single rfl (by simp) rfl rfl⟩
  | some args =>
      obtain ⟨result, event, hinvoke, hroutine, hfailed⟩ := invoke_answered env tc.function.name args
        { s with trace := s.trace ++ opening env tc }
      obtain ⟨span, hrun⟩ := handleToolCall_asked s hread hinvoke
      have hanswer : answerTo env s.trace tc =
          answerOf env (s.trace ++ opening env tc) tc.function.name args := by
        simp only [answerTo, hread]
      let r : Reply env := ⟨tc, s.trace, (contentOf result).1, (contentOf result).2, by
        rw [hanswer, contentOf_error_iff]
        exact hfailed⟩
      refine ⟨_, r, hrun, rfl, .single rfl ?_ rfl rfl⟩
      intro e he
      rcases List.mem_cons.mp he with rfl | he
      · exact hroutine
      · obtain rfl := List.mem_singleton.mp he
        rfl

/-! ### All calls of a response -/

theorem forEach_replied (env : Environment) (calls : List ToolCall) (s : State) :
    ∃ t rs, Prog.forEach calls (handleToolCall env) s = .next () t ∧ rs.map Reply.call = calls ∧
      Replied env s t rs := by
  induction calls generalizing s with
  | nil => exact ⟨s, [], rfl, rfl, .nil env s⟩
  | cons tc calls ih =>
      obtain ⟨t, r, hrun, hcall, hreplied⟩ := handleToolCall_replied env tc s
      obtain ⟨u, rs, hrest, hcalls, hreplied'⟩ := ih t
      refine ⟨u, r :: rs, ?_, ?_, hreplied.append hreplied'⟩
      · show (handleToolCall env tc s).andThen _ = _
        rw [hrun]
        exact hrest
      · rw [List.map_cons, hcall, hcalls]

/-- An iteration up to the answer of the language model. -/
def response (env : Environment) (config : LoopConfig) (iteration : Nat) : Loop StreamedResponse := do
  preamble env config
  checkCompaction env config
  windDown config iteration
  nudge
  callLlm env config

/-- An iteration from the answer of the language model on. -/
def respond (env : Environment) (streamed : StreamedResponse) : Loop Unit := do
  trackUsage streamed.usage
  afterUsage env streamed

theorem iterate_eq (env : Environment) (config : LoopConfig) (iteration : Nat) :
    iterate env config iteration = response env config iteration >>= respond env := by
  simp only [iterate, rest, response, Prog.bind_assoc]
  rfl

theorem response_notices (env : Environment) (config : LoopConfig) (iteration : Nat) (s : State) :
    toolNotices (response env config iteration s).state = toolNotices s := by
  let P : Event → Prop := fun event => event.toolNotice? = none
  have hsteps := steps_emits (P := P) env Event.toolNotice_of_routine
  have hemits : Prog.Relates (Emits P) (response env config iteration) := by
    apply (frame_emits P).bind hsteps.preamble
    intro _
    apply (frame_emits P).bind (checkCompaction_emits (fun _ => rfl) fun _ _ _ => rfl)
    intro _
    apply (frame_emits P).bind (hsteps.windDown iteration)
    intro _
    apply (frame_emits P).bind hsteps.nudge
    intro _
    exact hsteps.callLlm hsteps.text fun _ _ => ask_emits (P := P) rfl _
  exact (hemits s).filterMap_eq

theorem trackUsage_next (usage : Option Usage) (s : State) :
    ∃ t, trackUsage usage s = .next () t ∧ t.messages = s.messages ∧ toolNotices t = toolNotices s ∧
      s.trace <+: t.trace := by
  cases usage with
  | none => exact ⟨s, rfl, rfl, rfl, List.prefix_refl _⟩
  | some usage =>
      refine ⟨_, rfl, rfl, ?_, List.prefix_append _ _⟩
      show (s.trace ++ [_]).filterMap Event.toolNotice? = _
      rw [List.filterMap_append]
      exact List.append_nil _

/-- In every iteration whose response carries tool calls, whatever the state, the environment and the
answers of the tools. -/
theorem tool_calls_answered (env : Environment) (config : LoopConfig) (iteration : Nat)
    {s s' : State} {streamed : StreamedResponse} {toolCalls : List ToolCall}
    (hresponse : response env config iteration s = .next streamed s')
    (hcalls : streamed.message.toolCalls = some toolCalls) :
    ∃ t, ∃ replies : List (Reply env), iterate env config iteration s = .next () t ∧
      replies.map Reply.call = toolCalls ∧
      t.messages = s'.messages ++ streamed.message :: replies.map Reply.message ∧
      toolNotices t = toolNotices s ++ replies.flatMap Reply.notices ∧
      ∀ r ∈ replies, s'.trace <+: r.before ∧ r.before ++ opening env r.call <+: t.trace := by
  obtain ⟨s₁, husage, hmessages, hnotices, htrace⟩ := trackUsage_next streamed.usage s'
  let s₂ : State := { s₁ with
    silentTurns := if streamed.message.content.isSome || streamed.message.toolCalls.isSome then 0
      else s₁.silentTurns + 1
    messages := s₁.messages ++ [streamed.message] }
  obtain ⟨t, replies, hrun, hcall, hreplied⟩ := forEach_replied env toolCalls s₂
  refine ⟨t, replies, ?_, hcall, ?_, ?_, ?_⟩
  · rw [iterate_eq, Prog.run_bind, hresponse]
    simp only [Outcome.andThen, respond, afterUsage, Prog.run_bind, husage, hcalls]
    exact hrun
  · rw [hreplied.messages, ← hmessages, List.append_assoc]
    rfl
  · have hbefore := response_notices env config iteration s
    rw [hresponse] at hbefore
    rw [hreplied.notices, ← hbefore]
    exact congrArg (· ++ _) hnotices
  · intro r hr
    obtain ⟨hbegins, hplaced⟩ := hreplied.placed r hr
    exact ⟨htrace.trans hbegins, hplaced⟩

def brokenCall : ToolCall := ⟨"call-1", "function", ⟨"write", "\x7b\"path\": \"notes"⟩⟩

def readCall : ToolCall := ⟨"call-2", "function", ⟨"read", "\x7b\"path\": \"notes.md\"\x7d"⟩⟩

def callingResponse : StreamedResponse :=
  ⟨⟨.assistant, none, some [brokenCall, readCall], none⟩, some .toolCalls, none⟩

/-- The language model calls two tools, one of them with arguments that were cut off. -/
def calling : Environment :=
  { speechless with
    streamCompletion _ := ([], .ok callingResponse)
    execute _ := .ok (.text "shopping list")
    argumentError _ _ := "tool arguments were truncated" }

theorem two_calls_answered :
    ∃ t, ∃ replies : List (Reply calling), iterate calling tight 0 (initial calling [] []) = .next () t ∧
      replies.map Reply.call = [brokenCall, readCall] ∧
      t.messages = (response calling tight 0 (initial calling [] [])).state.messages ++
        callingResponse.message :: replies.map Reply.message ∧
      toolNotices t = toolNotices (initial calling [] []) ++ replies.flatMap Reply.notices ∧
      ∀ r ∈ replies, (response calling tight 0 (initial calling [] [])).state.trace <+: r.before ∧
        r.before ++ opening calling r.call <+: t.trace :=
  @tool_calls_answered calling tight 0 (initial calling [] [])
    (response calling tight 0 (initial calling [] [])).state callingResponse [brokenCall, readCall] rfl rfl

end AgenticLoop

end Overacp
