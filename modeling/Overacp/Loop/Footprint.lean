import Overacp.Loop.AgenticLoop

/-!
# The parts of the loop

A property of programs that composition keeps holds of a part of the loop when it holds of the few things
that part does. `Routine` and `Steps` say what those are, so that each property goes through the loop
once. The first of them is the footprint in the trace: every part adds events, and each adds events of
few kinds only.
-/

namespace Overacp

namespace AgenticLoop

open Llm

/-! ### What the parts do -/

/-- The clock, the broker's housekeeping, text for the user, what is recorded, and the questions to the
tools. -/
def Event.routine : Event → Bool
  | clock | heartbeat | quotaCheck | streamTextDelta _ | streamActivity _ | toolsCall .. | execute ..
  | recordGeneration _ | recordToolSpan _ | finalize .. => true
  | _ => false

/-- What a property needs for the parts that leave the messages and the usage alone. -/
structure Routine (env : Environment) (Q : ∀ α : Type, Loop α → Prop) : Prop extends Prog.Closed Q where
  ask : ∀ {α : Type} {event : Event}, event.routine = true → ∀ answer : List Event → α,
    Q α (AgenticLoop.ask event answer)
  notify : ∀ {event : Event}, event.routine = true → Q Unit (notifyOrFail env event)
  heartbeat : ∀ now, Q Unit (Prog.modify fun s => { s with lastHeartbeat := now })

/-- What it needs, besides, for the parts from the compaction check on, except for `trackUsage`; what
a part asks or announces itself is a hypothesis of its rule. -/
structure Steps (env : Environment) (Q : ∀ α : Type, Loop α → Prop) : Prop extends Routine env Q where
  push : ∀ msg, Q Unit (pushMessage msg)
  nudged : Q Unit (Prog.modify fun s => { s with silentTurns := 0 })
  text : ∀ text, Q Unit (Prog.modify fun s => { s with responseText := s.responseText ++ text })
  silence : ∀ message, Q Unit (trackSilence message)
  counted : Q Unit (Prog.modify fun s => { s with toolCount := s.toolCount + 1 })

/-- `callLlm` from the answer of the language model on. -/
def reportAnswer (env : Environment) (config : LoopConfig) (messages : List Message)
    (answer : List String × Except LlmError StreamedResponse) : Loop StreamedResponse := do
  let preview := if config.langfuseCaptureInput then InputPreview.snapshot messages
    else .messageCount messages.length
  Prog.forEach answer.1 fun delta => if delta ≠ "" then tell (.streamTextDelta delta) else pure ()
  match answer.2 with
  | .error e =>
      tell (.recordGeneration (failedGeneration config messages.length preview e))
      notifyOrFail env (.streamTextDelta s!"\n\n[LLM error: {e.message}]")
      Prog.stop
  | .ok streamed =>
      let text := String.join answer.1
      tell (.recordGeneration (generation config messages.length preview text streamed))
      Prog.modify fun s => { s with responseText := s.responseText ++ text }
      pure streamed

/-- An iteration once the usage of the response has been taken down. -/
def afterUsage (env : Environment) (streamed : StreamedResponse) : Loop Unit := do
  trackSilence streamed.message
  pushMessage streamed.message
  match streamed.message.toolCalls with
  | some toolCalls => Prog.forEach toolCalls (handleToolCall env)
  | none => finish env streamed.finishReason

variable {env : Environment} {config : LoopConfig} {Q : ∀ α : Type, Loop α → Prop}

/-! ### One rule for each part -/

theorem Routine.checkTimeout (h : Routine env Q) : Q Unit (checkTimeout env config) := by
  apply h.bind h.get
  intro s
  apply h.bind (h.ask rfl _)
  intro now
  split
  · apply h.bind (h.notify rfl)
    intro _
    exact h.stop
  · exact h.pure ()

theorem Routine.checkHeartbeat (h : Routine env Q) : Q Unit (checkHeartbeat env) := by
  apply h.bind h.get
  intro s
  apply h.bind (h.ask rfl _)
  intro now
  split
  · apply h.bind (h.ask rfl _)
    intro _
    apply h.bind (h.ask rfl _)
    intro now
    exact h.heartbeat now
  · exact h.pure ()

theorem Routine.checkQuota (h : Routine env Q) : Q Unit (checkQuota env) := by
  apply h.bind (h.ask rfl _)
  intro answer
  split
  · apply h.bind (h.notify rfl)
    intro _
    exact h.stop
  · exact h.pure ()

theorem Routine.preamble (h : Routine env Q) : Q Unit (preamble env config) := by
  apply h.bind h.checkTimeout
  intro _
  apply h.bind h.checkHeartbeat
  intro _
  exact h.checkQuota

theorem Routine.invoke (h : Routine env Q) (name : String) (arguments : Json) :
    Q _ (invoke env name arguments) := by
  unfold AgenticLoop.invoke
  split
  · apply h.bind (h.ask rfl _)
    intro answer
    exact h.pure _
  · exact h.ask rfl _

theorem Routine.reportAnswer (h : Routine env Q)
    (htext : ∀ text, Q Unit (Prog.modify fun s => { s with responseText := s.responseText ++ text }))
    (messages : List Message) (answer : List String × Except LlmError StreamedResponse) :
    Q StreamedResponse (reportAnswer env config messages answer) := by
  unfold AgenticLoop.reportAnswer
  dsimp only
  apply h.bind
  · apply h.forEach
    intro delta
    split
    · exact h.ask rfl _
    · exact h.pure ()
  intro _
  split
  · apply h.bind (h.ask rfl _)
    intro _
    apply h.bind (h.notify rfl)
    intro _
    exact h.stop
  · apply h.bind (h.ask rfl _)
    intro _
    apply h.bind (htext _)
    intro _
    exact h.pure _

theorem Routine.callLlm (h : Routine env Q)
    (htext : ∀ text, Q Unit (Prog.modify fun s => { s with responseText := s.responseText ++ text }))
    (hstream : ∀ messages tools, Q _ (AgenticLoop.ask (.streamCompletion messages tools) env.streamCompletion)) :
    Q StreamedResponse (callLlm env config) := by
  apply h.bind h.get
  intro s
  apply h.bind (hstream _ _)
  intro answer
  exact h.reportAnswer htext s.messages answer

theorem Routine.finish (h : Routine env Q) (reason : Option StopReason) : Q Unit (finish env reason) := by
  unfold AgenticLoop.finish
  split
  · exact h.stop
  · exact h.stop
  · apply h.bind (h.notify rfl)
    intro _
    exact h.stop
  · apply h.bind (h.notify rfl)
    intro _
    exact h.stop
  · exact h.pure ()

theorem Steps.windDown (h : Steps env Q) (iteration : Nat) : Q Unit (windDown config iteration) := by
  unfold AgenticLoop.windDown
  dsimp only
  split
  · exact h.push _
  · exact h.pure ()

theorem Steps.nudge (h : Steps env Q) : Q Unit nudge := by
  apply h.bind h.get
  intro s
  split
  · apply h.bind (h.push _)
    intro _
    exact h.nudged
  · exact h.pure ()

theorem Steps.handleToolCall (h : Steps env Q)
    (hcall : ∀ id name arguments, Q Unit (tell (.streamToolCall id name arguments)))
    (hresult : ∀ id content isError, Q Unit (tell (.streamToolResult id content isError))) (tc : ToolCall) :
    Q Unit (handleToolCall env tc) := by
  unfold AgenticLoop.handleToolCall
  dsimp only
  split
  · apply h.bind (h.ask rfl _)
    intro _
    apply h.bind (hcall _ _ _)
    intro _
    apply h.bind (hresult _ _ _)
    intro _
    exact h.push _
  · apply h.bind (h.ask rfl _)
    intro _
    apply h.bind (hcall _ _ _)
    intro _
    apply h.bind (h.invoke _ _)
    intro result
    apply h.bind (h.ask rfl _)
    intro _
    apply h.bind h.counted
    intro _
    apply h.bind (hresult _ _ _)
    intro _
    exact h.push _

theorem Steps.afterUsage (h : Steps env Q)
    (hcall : ∀ id name arguments, Q Unit (tell (.streamToolCall id name arguments)))
    (hresult : ∀ id content isError, Q Unit (tell (.streamToolResult id content isError)))
    (streamed : StreamedResponse) : Q Unit (afterUsage env streamed) := by
  apply h.bind (h.silence _)
  intro _
  apply h.bind (h.push _)
  intro _
  split
  · exact h.forEach _ (h.handleToolCall hcall hresult)
  · exact h.finish _

theorem Steps.rest (h : Steps env Q)
    (hstream : ∀ messages tools, Q _ (AgenticLoop.ask (.streamCompletion messages tools) env.streamCompletion))
    (husage : ∀ usage, Q Unit (trackUsage usage))
    (hcall : ∀ id name arguments, Q Unit (tell (.streamToolCall id name arguments)))
    (hresult : ∀ id content isError, Q Unit (tell (.streamToolResult id content isError)))
    (iteration : Nat) : Q Unit (rest env config iteration) := by
  apply h.bind (h.windDown iteration)
  intro _
  apply h.bind h.nudge
  intro _
  apply h.bind (h.callLlm h.text hstream)
  intro streamed
  apply h.bind (husage _)
  intro _
  exact h.afterUsage hcall hresult streamed

theorem notifyOrFail_relates {R : State → State → Prop} (h : Prog.Frame R) {event : Event}
    (hask : Prog.Relates R (ask event env.notify)) : Prog.Relates R (notifyOrFail env event) := by
  apply h.bind hask
  intro answer
  cases answer with
  | ok _ => exact h.pure ()
  | error e => exact h.fail e

/-! ### The footprint in the trace -/

/-- Events were added to the trace, all of them of the given kind. -/
def Emits (P : Event → Prop) (s t : State) : Prop :=
  ∃ events, t.trace = s.trace ++ events ∧ ∀ event ∈ events, P event

variable {P : Event → Prop}

theorem Emits.of_trace_eq {s t : State} (h : t.trace = s.trace) : Emits P s t :=
  ⟨[], by rw [h, List.append_nil], by simp⟩

theorem frame_emits (P : Event → Prop) : Prog.Frame (Emits P) where
  refl _ := .of_trace_eq rfl
  trans s t u hst htu := by
    obtain ⟨es, hes, hP⟩ := hst
    obtain ⟨es', hes', hP'⟩ := htu
    refine ⟨es ++ es', by rw [hes', hes, List.append_assoc], ?_⟩
    intro event hevent
    rcases List.mem_append.mp hevent with hevent | hevent
    · exact hP event hevent
    · exact hP' event hevent

/-- What reads nothing from the events that were added reads the same as before. -/
theorem Emits.filterMap_eq {α : Type} {f : Event → Option α} {s t : State}
    (h : Emits (fun event => f event = none) s t) : t.trace.filterMap f = s.trace.filterMap f := by
  obtain ⟨es, hes, hnone⟩ := h
  rw [hes, List.filterMap_append, List.filterMap_eq_nil_iff.mpr hnone, List.append_nil]

theorem ask_emits {α : Type} {event : Event} (h : P event) (answer : List Event → α) :
    Prog.Relates (Emits P) (ask event answer) := by
  intro s
  refine ⟨[event], rfl, ?_⟩
  intro e he
  obtain rfl := List.mem_singleton.mp he
  exact h

theorem modify_emits {f : State → State} (h : ∀ s, (f s).trace = s.trace) :
    Prog.Relates (Emits P) (Prog.modify f : Loop Unit) :=
  Prog.relates_modify fun s => .of_trace_eq (h s)

theorem routine_emits (env : Environment) (h : ∀ event, event.routine = true → P event) :
    Routine env fun α (m : Loop α) => Prog.Relates (Emits P) m where
  toClosed := (frame_emits P).closed
  ask hevent answer := ask_emits (h _ hevent) answer
  notify hevent := notifyOrFail_relates (frame_emits P) (ask_emits (h _ hevent) _)
  heartbeat _ := modify_emits fun _ => rfl

theorem steps_emits (env : Environment) (h : ∀ event, event.routine = true → P event) :
    Steps env fun α (m : Loop α) => Prog.Relates (Emits P) m where
  toRoutine := routine_emits env h
  push _ := modify_emits fun _ => rfl
  nudged := modify_emits fun _ => rfl
  text _ := modify_emits fun _ => rfl
  silence _ := modify_emits fun _ => rfl
  counted := modify_emits fun _ => rfl

theorem trackUsage_emits (h : ∀ input output, P (.quotaUpdate input output)) (usage : Option Usage) :
    Prog.Relates (Emits P) (trackUsage usage) := by
  cases usage with
  | none => exact (frame_emits P).pure ()
  | some usage =>
      apply (frame_emits P).bind
      · exact modify_emits fun _ => rfl
      · intro _
        exact ask_emits (h _ _) _

/-! ### The compaction check -/

theorem compactMessages_emits (h : ∀ messages, P (.complete messages)) (messages : List Message)
    (keepRecent : Nat) : Prog.Relates (Emits P) (compactMessages env messages keepRecent) := by
  unfold compactMessages
  split
  · exact (frame_emits P).pure _
  · apply (frame_emits P).bind (ask_emits (h _) _)
    intro answer
    split
    · exact (frame_emits P).fail _
    · split
      · exact (frame_emits P).fail _
      · exact (frame_emits P).pure _

theorem adopt_emits (h : ∀ summary messages usage, P (.contextCompacted summary messages usage))
    (result : Compaction.CompactionResult) : Prog.Relates (Emits P) (adopt result) := by
  apply (frame_emits P).bind (frame_emits P).get
  intro s
  dsimp only
  split
  · apply (frame_emits P).bind (ask_emits (h _ _ _) _)
    intro _
    apply (frame_emits P).bind
    · exact modify_emits fun _ => rfl
    intro _
    exact modify_emits fun _ => rfl
  · exact modify_emits fun _ => rfl

theorem logPercentage_emits (enabled : Bool) : Prog.Relates (Emits P) (logPercentage config enabled) := by
  unfold logPercentage
  split
  · exact (frame_emits P).panic
  · exact (frame_emits P).pure ()

theorem checkCompaction_emits (hcomplete : ∀ messages, P (.complete messages))
    (hcompacted : ∀ summary messages usage, P (.contextCompacted summary messages usage)) :
    Prog.Relates (Emits P) (checkCompaction env config) := by
  apply (frame_emits P).bind (frame_emits P).get
  intro s
  split
  · split
    · apply (frame_emits P).bind (logPercentage_emits _)
      intro _
      apply (frame_emits P).bind (compactMessages_emits hcomplete _ _)
      intro result
      exact adopt_emits hcompacted result
    · exact logPercentage_emits _
  · exact (frame_emits P).pure ()

end AgenticLoop

end Overacp
