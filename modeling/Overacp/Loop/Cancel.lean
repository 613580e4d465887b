import Overacp.Lib.Along
import Overacp.Lib.ProgEnsures
import Overacp.Loop.Pushes
import Overacp.Loop.UsageAccount

/-!
# Cancelling a turn

The loop over the client it talks through. A `session/cancel` that comes while a request waits for its response
is set aside like every notification, and nothing looks at it before the turn has ended.
-/

namespace Overacp

open Llm

namespace AgenticLoop

/-! ### The loop over a connection -/

/-- The request that an event of the loop sends, if it sends one. -/
def Event.request? : Event → Option Request
  | quotaCheck => some .quotaCheck
  | quotaUpdate inputTokens outputTokens => some (.quotaUpdate inputTokens outputTokens)
  | toolsCall name arguments => some (.toolsCall name arguments)
  | _ => none

/-- A completion of the language model is started, or the execution of a tool. -/
def Event.starts : Event → Bool
  | complete _ | streamCompletion .. | toolsCall .. | execute .. => true
  | _ => false

end AgenticLoop

def NextPush.isCancel : NextPush → Bool
  | cancel => true
  | message _ => false

/-- A `session/cancel` was read, and is set aside. -/
def AcpClient.CancelRead (client : AcpClient) : Prop :=
  ∃ buf ∈ client.pendingNotifications, (AcpClient.pushOf buf).any NextPush.isCancel = true

instance (client : AcpClient) : Decidable client.CancelRead := inferInstanceAs (Decidable (∃ buf ∈ _, _))

/-- How lines are read, and how the writing of the request that is the event of that number in the trace ends. -/
structure Wiring where
  readNumber : Json.Number → Option Json.Number
  written : Nat → Written

namespace Wiring

open AgenticLoop

variable (W : Wiring)

/-- The connection after an event, the trace before which is that long. -/
def exchange (c : Connection) (number : Nat) (event : Event) : Connection :=
  match event.request? with
  | some request => (c.call W.readNumber request (W.written number)).2
  | none => c

/-- The connection after some events. -/
def replay (c : Connection) (number : Nat) : List Event → Connection
  | [] => c
  | event :: events => replay (W.exchange c number event) (number + 1) events

/-- What the request that is the last event of the trace returns, to a turn that began with this connection after
so many events. -/
def reply (c : Connection) (start : Nat) (trace : List Event) : Except String Reply :=
  match trace.getLast?.bind Event.request? with
  | some request => ((W.replay c start (trace.drop start).dropLast).call W.readNumber request
      (W.written (trace.length - 1))).1
  | none => .error "no request"

/-- The environment of a turn whose requests go through a connection. -/
def wire (env : Environment) (c : Connection) (start : Nat) : Environment :=
  { env with
    quotaCheck := fun trace => (W.reply c start trace).map fun
      | .allowed allowed => allowed
      | _ => true
    quotaUpdate := fun trace => (W.reply c start trace).map fun _ => ()
    toolsCall := fun trace => (W.reply c start trace).map fun
      | .value value => value
      | _ => .null }

theorem replay_append (c : Connection) (number : Nat) (events more : List Event) :
    W.replay c number (events ++ more) = W.replay (W.replay c number events) (number + events.length) more := by
  induction events generalizing c number with
  | nil => rfl
  | cons event events ih =>
      rw [List.cons_append, replay, replay, ih, List.length_cons, Nat.add_right_comm, Nat.add_assoc]

/-- Only requests touch what is read. -/
theorem replay_eq_self {events : List Event} (h : ∀ event ∈ events, event.request? = none) (c : Connection)
    (number : Nat) : W.replay c number events = c := by
  induction events generalizing number with
  | nil => rfl
  | cons event events ih =>
      rw [replay, exchange, h event List.mem_cons_self]
      exact ih (fun e he => h e (List.mem_cons_of_mem _ he)) (number + 1)

end Wiring

/-! ### The outer loop over a connection -/

namespace Wiring

open AgenticLoop

structure Live where
  session : Session
  connection : Connection

variable (W : Wiring) (S : Session.Setting)

/-- The setting of a turn that begins in this state. -/
def setting (s : Live) (client : AcpClient) : Session.Setting :=
  { S with env := W.wire S.env { s.connection with client := client } s.session.trace.length }

/-- One round of the outer loop: the next push, and the turn that a message starts. -/
def step (s : Live) (_ : Unit) : Option Live :=
  if s.session.alive then
    match s.connection.client.nextPush with
    | (.ok (.message userMsg), client) =>
        let outcome := Session.turn (W.setting S s client) s.session userMsg
        some ⟨⟨outcome.state.trace, outcome.state.messages, !Session.panicked outcome⟩,
          W.replay { s.connection with client := client } s.session.trace.length
            (outcome.state.trace.drop s.session.trace.length)⟩
    | (.ok .cancel, client) | (.error _, client) =>
        some ⟨{ s.session with alive := false }, { s.connection with client := client }⟩
  else none

/-- A process that comes to its outer loop with this connection. -/
def system (c : Connection) : Transition.System Live Unit where
  init := ⟨(Session.system S).init, c⟩
  step := W.step S

end Wiring

/-! ### Abandoning the turn -/

namespace AgenticLoop

/-- What the language model answered to the last call of a trace, given from its end. -/
def lastStreamed (env : Environment) : List Event → Option StreamedResponse
  | [] => none
  | event :: events =>
      match event with
      | .streamCompletion .. => (env.streamCompletion (events.reverse ++ [event])).2.toOption
      | _ => lastStreamed env events

def lastResponse (env : Environment) (trace : List Event) : Option StreamedResponse :=
  lastStreamed env trace.reverse

/-- The turn ends with this response: it has no tool calls and is not said to stop for them. -/
def Final (streamed : StreamedResponse) : Prop :=
  streamed.message.toolCalls = none ∧ streamed.finishReason ≠ some .toolCalls

instance (streamed : StreamedResponse) : Decidable (Final streamed) := inferInstanceAs (Decidable (_ ∧ _))

/-- After these events the turn ends with the request that comes next: a quota check that is answered no, or the
quota update for a response that ends the turn. -/
inductive Closing (env : Environment) (before : List Event) : Event → Prop
  | exhausted (h : env.quotaCheck (before ++ [.quotaCheck]) = .ok false) : Closing env before .quotaCheck
  | answered {inputTokens outputTokens : Nat} {streamed : StreamedResponse}
      (hresponse : lastResponse env before = some streamed) (hfinal : Final streamed) :
      Closing env before (.quotaUpdate inputTokens outputTokens)

/-- Whether the request that comes next closes the turn, computed. -/
def closes (env : Environment) (before : List Event) : Event → Bool
  | .quotaCheck => (env.quotaCheck (before ++ [.quotaCheck])).toOption = some false
  | .quotaUpdate .. => (lastResponse env before).any fun streamed => Final streamed
  | _ => false

theorem closes_iff {env : Environment} {before : List Event} {event : Event} :
    closes env before event = true ↔ Closing env before event := by
  constructor
  · intro h
    unfold closes at h
    split at h
    · refine .exhausted ?_
      cases hanswer : env.quotaCheck (before ++ [.quotaCheck]) with
      | error e =>
          rw [hanswer] at h
          cases h
      | ok allowed =>
          rw [hanswer] at h
          rw [Option.some.inj (of_decide_eq_true h)]
    · obtain ⟨streamed, hresponse, hfinal⟩ := (Option.any_eq_true _ _).mp h
      exact .answered hresponse (of_decide_eq_true hfinal)
    · cases h
  · intro h
    cases h with
    | exhausted h => rw [closes, h]; rfl
    | answered hresponse hfinal => rw [closes, hresponse]; exact decide_eq_true hfinal

instance (env : Environment) (before : List Event) (event : Event) : Decidable (Closing env before event) :=
  decidable_of_iff _ closes_iff

end AgenticLoop

namespace Wiring

open AgenticLoop

/-- A turn: its environment, and the connection and the trace it begins with. -/
structure Turn where
  env : Environment
  connection : Connection
  start : List Event

variable (W : Wiring) (T : Turn)

/-- No cancel has been read when the turn has come to these events. -/
def Calm (events : List Event) : Prop := ¬ (W.replay T.connection T.start.length events).client.CancelRead

/-- Nothing is started once a cancel has been read. -/
def Abandons (events : List Event) : Prop :=
  Along (fun before event => event.starts = true → W.Calm T before) events

/-- No cancel has been read when the turn begins, and a request of the turn that reads the first one ends it. -/
structure Timely (events : List Event) : Prop where
  start : W.Calm T []
  reads : Along (fun before event => W.Calm T before → ¬ W.Calm T (before ++ [event]) →
    Closing T.env (T.start ++ before) event) events

instance (events : List Event) : Decidable (W.Calm T events) := inferInstanceAs (Decidable (¬ _))

instance (events : List Event) : Decidable (W.Abandons T events) := inferInstanceAs (Decidable (Along _ _))

instance (events : List Event) : Decidable (W.Timely T events) :=
  decidable_of_iff (W.Calm T [] ∧ Along (fun before event => W.Calm T before → ¬ W.Calm T (before ++ [event]) →
    Closing T.env (T.start ++ before) event) events) ⟨fun h => ⟨h.1, h.2⟩, fun h => ⟨h.start, h.reads⟩⟩

/-! ### What is kept up to the end -/

/-- The trace is that of the turn, and the condition holds of its events if the cancels are timely. -/
def Holds (P : List Event → Prop) (s : State) : Prop :=
  ∃ events, s.trace = T.start ++ events ∧ (W.Timely T events → P events)

/-- Nothing was started after a cancel, and none has been read. -/
def Before : State → Prop := W.Holds T fun events => W.Abandons T events ∧ W.Calm T events

/-- Nothing was started after a cancel. -/
def After : State → Prop := W.Holds T (W.Abandons T)

variable {W T}

theorem Timely.of_append {events more : List Event} (h : W.Timely T (events ++ more)) : W.Timely T events :=
  ⟨h.start, h.reads.of_append⟩

theorem Before.after {s : State} (h : W.Before T s) : W.After T s := by
  obtain ⟨events, htrace, hholds⟩ := h
  exact ⟨events, htrace, fun htimely => (hholds htimely).1⟩

/-- What one more event keeps, up to the cancel it may read. -/
theorem Before.concat {s : State} (h : W.Before T s) (event : Event) :
    W.Holds T (fun events => W.Abandons T events ∧ (W.Calm T events ∨ Closing T.env s.trace event))
      { s with trace := s.trace ++ [event] } := by
  obtain ⟨events, htrace, hholds⟩ := h
  refine ⟨events ++ [event], by rw [← List.append_assoc, ← htrace], ?_⟩
  intro htimely
  obtain ⟨habandons, hcalm⟩ := hholds htimely.of_append
  refine ⟨Along.concat_iff.mpr ⟨habandons, fun _ => hcalm⟩, ?_⟩
  by_cases hnext : W.Calm T (events ++ [event])
  · exact .inl hnext
  · right
    rw [htrace]
    exact (Along.concat_iff.mp htimely.reads).2 hcalm hnext

/-- Events that ask nothing of the client and start nothing. -/
def Inert (event : Event) : Prop := event.request? = none ∧ event.starts = false

theorem calm_append {events more : List Event} (h : ∀ event ∈ more, event.request? = none) :
    W.Calm T (events ++ more) ↔ W.Calm T events := by
  rw [Calm, Calm, replay_append, W.replay_eq_self h]

theorem abandons_append {events more : List Event} (h : W.Abandons T events)
    (hmore : ∀ event ∈ more, event.starts = false) : W.Abandons T (events ++ more) := by
  refine Along.append h fun event hevent before hstarts => ?_
  rw [hmore event hevent] at hstarts
  cases hstarts

theorem Before.emits {s t : State} (h : W.Before T s) (hemits : Emits Inert s t) : W.Before T t := by
  obtain ⟨events, htrace, hholds⟩ := h
  obtain ⟨more, htrace', hmore⟩ := hemits
  refine ⟨events ++ more, by rw [htrace', htrace, List.append_assoc], ?_⟩
  intro htimely
  obtain ⟨habandons, hcalm⟩ := hholds htimely.of_append
  exact ⟨abandons_append habandons fun event hevent => (hmore event hevent).2,
    (calm_append fun event hevent => (hmore event hevent).1).mpr hcalm⟩

theorem After.emits {s t : State} (h : W.After T s) (hemits : Emits Inert s t) : W.After T t := by
  obtain ⟨events, htrace, hholds⟩ := h
  obtain ⟨more, htrace', hmore⟩ := hemits
  refine ⟨events ++ more, by rw [htrace', htrace, List.append_assoc], ?_⟩
  intro htimely
  exact abandons_append (hholds htimely.of_append) fun event hevent => (hmore event hevent).2

/-! ### The inert parts -/

section

variable {env : Environment} {config : LoopConfig}

theorem notifyOrFail_inert {event : Event} (h : Inert event) :
    Prog.Relates (Emits Inert) (notifyOrFail env event) :=
  notifyOrFail_relates (frame_emits Inert) (ask_emits h _)

theorem ending_inert (text : String) :
    Prog.Relates (Emits Inert) (notifyOrFail env (.streamTextDelta text) >>= fun _ => Prog.stop : Loop Unit) := by
  apply (frame_emits Inert).bind (notifyOrFail_inert ⟨rfl, rfl⟩)
  intro _
  exact (frame_emits Inert).stop

theorem checkTimeout_inert : Prog.Relates (Emits Inert) (checkTimeout env config) := by
  apply (frame_emits Inert).bind (frame_emits Inert).get
  intro s
  apply (frame_emits Inert).bind (ask_emits ⟨rfl, rfl⟩ _)
  intro now
  split
  · exact ending_inert _
  · exact (frame_emits Inert).pure ()

theorem checkHeartbeat_inert : Prog.Relates (Emits Inert) (checkHeartbeat env) := by
  apply (frame_emits Inert).bind (frame_emits Inert).get
  intro s
  apply (frame_emits Inert).bind (ask_emits ⟨rfl, rfl⟩ _)
  intro now
  split
  · apply (frame_emits Inert).bind (ask_emits ⟨rfl, rfl⟩ _)
    intro _
    apply (frame_emits Inert).bind (ask_emits ⟨rfl, rfl⟩ _)
    intro now
    exact modify_emits fun _ => rfl
  · exact (frame_emits Inert).pure ()

theorem windDown_inert (iteration : Nat) : Prog.Relates (Emits Inert) (windDown config iteration) := by
  unfold windDown
  dsimp only
  split
  · exact modify_emits fun _ => rfl
  · exact (frame_emits Inert).pure ()

theorem nudge_inert : Prog.Relates (Emits Inert) nudge := by
  apply (frame_emits Inert).bind (frame_emits Inert).get
  intro s
  split
  · apply (frame_emits Inert).bind
    · exact modify_emits fun _ => rfl
    intro _
    exact modify_emits fun _ => rfl
  · exact (frame_emits Inert).pure ()

/-- Events that say nothing of the model, besides. -/
def Reports (event : Event) : Prop := Inert event ∧ ∀ messages tools, event ≠ .streamCompletion messages tools

theorem reportAnswer_reports (messages : List Message)
    (answer : List String × Except LlmError StreamedResponse) :
    Prog.Relates (Emits Reports) (reportAnswer env config messages answer) := by
  have htext : ∀ text, Reports (.streamTextDelta text) := fun _ => ⟨⟨rfl, rfl⟩, nofun⟩
  have hrecord : ∀ params, Reports (.recordGeneration params) := fun _ => ⟨⟨rfl, rfl⟩, nofun⟩
  unfold reportAnswer
  dsimp only
  apply (frame_emits Reports).bind
  · apply (frame_emits Reports).forEach
    intro delta
    split
    · exact ask_emits (htext _) _
    · exact (frame_emits Reports).pure ()
  intro _
  split
  · apply (frame_emits Reports).bind (ask_emits (hrecord _) _)
    intro _
    apply (frame_emits Reports).bind (notifyOrFail_relates (frame_emits Reports) (ask_emits (htext _) _))
    intro _
    exact (frame_emits Reports).stop
  · apply (frame_emits Reports).bind (ask_emits (hrecord _) _)
    intro _
    apply (frame_emits Reports).bind
    · exact modify_emits fun _ => rfl
    intro _
    exact (frame_emits Reports).pure _

theorem epilogue_inert : Prog.Relates (Emits Inert) epilogue := by
  apply (frame_emits Inert).bind (frame_emits Inert).get
  intro s
  apply (frame_emits Inert).bind (ask_emits ⟨rfl, rfl⟩ _)
  intro _
  exact ask_emits ⟨rfl, rfl⟩ _

end

/-! ### The parts that ask -/

/-- To go on as before, or to end. -/
def onward (W : Wiring) (T : Turn) (α : Type) : Prog.Post State α :=
  ⟨fun _ => W.Before T, W.After T, W.After T, W.After T⟩

/-- To end. -/
def ending (W : Wiring) (T : Turn) (α : Type) : Prog.Post State α :=
  ⟨fun _ => W.After T, W.After T, W.After T, W.After T⟩

variable {config : LoopConfig} {α : Type}

theorem onward_of_inert {m : Loop α} (h : Prog.Relates (Emits Inert) m) :
    Prog.Ensures (W.Before T) m (W.onward T α) := by
  have hkeep : ∀ s t, W.Before T s → Emits Inert s t → W.Before T t := fun s t hs hemits => hs.emits hemits
  exact .of_relates h (fun _ => hkeep) (fun s t hs hemits => (hkeep s t hs hemits).after)
    (fun s t hs hemits => (hkeep s t hs hemits).after) fun s t hs hemits => (hkeep s t hs hemits).after

theorem ending_of_inert {m : Loop α} (h : Prog.Relates (Emits Inert) m) :
    Prog.Ensures (W.After T) m (W.ending T α) := by
  have hkeep : ∀ s t, W.After T s → Emits Inert s t → W.After T t := fun s t hs hemits => hs.emits hemits
  exact .of_relates h (fun _ => hkeep) hkeep hkeep hkeep

/-- What is started before a cancel, and is no request. -/
theorem onward_of_start {event : Event} (h : event.request? = none) (answer : List Event → α) :
    Prog.Ensures (W.Before T) (ask event answer) (W.onward T α) := by
  intro s hs
  obtain ⟨events, htrace, hholds⟩ := hs.concat event
  refine ⟨events, htrace, fun htimely => ?_⟩
  obtain ⟨habandons, hcalm | hclosing⟩ := hholds htimely
  · exact ⟨habandons, hcalm⟩
  · cases hclosing <;> cases h

/-- A tool call closes no turn. -/
theorem onward_of_toolsCall (name : String) (arguments : Json) (answer : List Event → α) :
    Prog.Ensures (W.Before T) (ask (.toolsCall name arguments) answer) (W.onward T α) := by
  intro s hs
  obtain ⟨events, htrace, hholds⟩ := hs.concat (.toolsCall name arguments)
  refine ⟨events, htrace, fun htimely => ?_⟩
  obtain ⟨habandons, hcalm | hclosing⟩ := hholds htimely
  · exact ⟨habandons, hcalm⟩
  · cases hclosing

theorem checkQuota_onward : Prog.Ensures (W.Before T) (checkQuota T.env) (W.onward T Unit) := by
  refine Prog.Ensures.bind (fun answer s => W.After T s ∧ (answer ≠ .ok false → W.Before T s)) ?_ ?_
  · intro s hs
    obtain ⟨events, htrace, hholds⟩ := hs.concat .quotaCheck
    refine ⟨⟨events, htrace, fun htimely => (hholds htimely).1⟩, fun hanswer => ⟨events, htrace, fun htimely => ?_⟩⟩
    obtain ⟨habandons, hcalm | hclosing⟩ := hholds htimely
    · exact ⟨habandons, hcalm⟩
    · cases hclosing with
      | exhausted hno => exact absurd hno hanswer
  · intro answer
    split
    · refine Prog.Ensures.bind (fun _ => W.After T) ?_ fun _ => .stop fun _ hs => hs
      intro s hs
      exact ending_of_inert (notifyOrFail_inert ⟨rfl, rfl⟩) s hs.1
    · rename_i hanswer
      exact .pure fun s hs => hs.2 fun hno => hanswer hno

theorem preamble_onward : Prog.Ensures (W.Before T) (preamble T.env config) (W.onward T Unit) := by
  refine .bind (fun _ => W.Before T) (onward_of_inert checkTimeout_inert) fun _ => ?_
  refine .bind (fun _ => W.Before T) (onward_of_inert checkHeartbeat_inert) fun _ => ?_
  exact checkQuota_onward

theorem compactMessages_onward (messages : List Message) (keepRecent : Nat) :
    Prog.Ensures (W.Before T) (compactMessages T.env messages keepRecent) (W.onward T _) := by
  unfold compactMessages
  split
  · exact .pure fun _ hs => hs
  · refine .bind (fun _ => W.Before T) (onward_of_start rfl _) fun answer => ?_
    split
    · exact .fail _ fun _ => Before.after
    · split
      · exact .fail _ fun _ => Before.after
      · exact .pure fun _ hs => hs

theorem checkCompaction_onward :
    Prog.Ensures (W.Before T) (checkCompaction T.env config) (W.onward T Unit) := by
  refine .get fun s hs => ?_
  split
  · split
    · refine Prog.Ensures.bind (fun _ => W.Before T) (onward_of_inert (logPercentage_emits _)) (fun _ => ?_) s hs
      refine .bind (fun _ => W.Before T) (compactMessages_onward _ _) fun result => ?_
      exact onward_of_inert (adopt_emits (fun _ _ _ => ⟨rfl, rfl⟩) result)
    · exact onward_of_inert (logPercentage_emits _) s hs
  · exact hs

/-! ### The call and what comes after it -/

theorem lastResponse_concat (env : Environment) (trace : List Event) (messages : List Message)
    (tools : List ToolDefinition) : lastResponse env (trace ++ [.streamCompletion messages tools]) =
      (env.streamCompletion (trace ++ [.streamCompletion messages tools])).2.toOption := by
  rw [lastResponse, List.reverse_append, List.reverse_singleton, List.singleton_append, lastStreamed,
    List.reverse_reverse]

theorem lastResponse_append {env : Environment} {trace more : List Event}
    (h : ∀ event ∈ more, ∀ messages tools, event ≠ .streamCompletion messages tools) :
    lastResponse env (trace ++ more) = lastResponse env trace := by
  induction more using List.reverseRecOn with
  | nil => rw [List.append_nil]
  | append_singleton more event ih =>
      rw [← ih fun e he => h e (List.mem_append_left _ he), ← List.append_assoc, lastResponse, lastResponse,
        List.reverse_append, List.reverse_singleton, List.singleton_append]
      have hevent := h event (List.mem_append_right _ List.mem_cons_self)
      cases event with
      | streamCompletion messages tools => exact absurd rfl (hevent messages tools)
      | _ => rfl

/-- A response is there, and the last one of the trace. -/
def Responded (W : Wiring) (T : Turn) (streamed : StreamedResponse) (s : State) : Prop :=
  W.Before T s ∧ lastResponse T.env s.trace = some streamed

theorem callLlm_responded : Prog.Ensures (W.Before T) (callLlm T.env config)
    ((W.onward T StreamedResponse).andThen (W.Responded T)) := by
  refine .get fun s hs => ?_
  have hasked := @onward_of_start W T _ (.streamCompletion s.messages (T.env.definitions s.trace)) rfl
    T.env.streamCompletion s hs
  let event := Event.streamCompletion s.messages (T.env.definitions s.trace)
  let asked : State := { s with trace := s.trace ++ [event] }
  let answer := T.env.streamCompletion (s.trace ++ [event])
  have hbefore : W.Before T asked := hasked
  have hlast : lastResponse T.env asked.trace = answer.2.toOption := lastResponse_concat _ _ _ _
  have hreports := @reportAnswer_reports T.env config s.messages answer asked
  obtain ⟨more, htrace, hmore⟩ := hreports
  have hafter : W.Before T (reportAnswer T.env config s.messages answer asked).state :=
    hbefore.emits ⟨more, htrace, fun event hevent => (hmore event hevent).1⟩
  have hresponse : lastResponse T.env (reportAnswer T.env config s.messages answer asked).state.trace =
      answer.2.toOption := by
    rw [htrace, lastResponse_append fun event hevent => (hmore event hevent).2, hlast]
  show (reportAnswer T.env config s.messages answer asked).Meets _
  cases houtcome : reportAnswer T.env config s.messages answer asked with
  | next streamed t =>
      rw [houtcome] at hafter hresponse
      have hok := (reportAnswer_next_iff s.messages answer streamed asked).mp ⟨t, houtcome⟩
      rw [hok] at hresponse
      exact ⟨hafter, hresponse⟩
  | stop t | fail _ t | panic t =>
      rw [houtcome] at hafter
      exact hafter.after

/-- A response is there; unless the turn ends with it, no cancel has been read. -/
def Reported (W : Wiring) (T : Turn) (streamed : StreamedResponse) (s : State) : Prop :=
  W.After T s ∧ (¬ Final streamed → W.Before T s)

theorem trackUsage_reported (streamed : StreamedResponse) :
    Prog.Ensures (W.Responded T streamed) (trackUsage streamed.usage)
      ((W.onward T Unit).andThen fun _ => W.Reported T streamed) := by
  cases streamed.usage with
  | none => exact .pure fun s hs => ⟨hs.1.after, fun _ => hs.1⟩
  | some usage =>
      refine .bind (fun _ => W.Responded T streamed) (.modify fun s hs => hs) fun _ => ?_
      intro s hs
      obtain ⟨hbefore, hresponse⟩ := hs
      obtain ⟨events, htrace, hholds⟩ :=
        hbefore.concat (.quotaUpdate usage.promptTokens usage.completionTokens)
      refine ⟨⟨events, htrace, fun htimely => (hholds htimely).1⟩, fun hgoes => ⟨events, htrace, fun htimely => ?_⟩⟩
      obtain ⟨habandons, hcalm | hclosing⟩ := hholds htimely
      · exact ⟨habandons, hcalm⟩
      · cases hclosing with
        | answered hlast hfinal =>
            rw [hresponse] at hlast
            rw [← Option.some.inj hlast] at hfinal
            exact absurd hfinal hgoes

theorem invoke_onward (name : String) (arguments : Json) :
    Prog.Ensures (W.Before T) (invoke T.env name arguments) (W.onward T _) := by
  unfold invoke
  split
  · refine .bind (fun _ => W.Before T) (onward_of_toolsCall _ _ _) fun answer => ?_
    exact .pure fun _ hs => hs
  · exact onward_of_start rfl _

theorem handleToolCall_onward (tc : ToolCall) :
    Prog.Ensures (W.Before T) (handleToolCall T.env tc) (W.onward T Unit) := by
  have htold : ∀ event, Inert event → Prog.Ensures (W.Before T) (tell event) (W.onward T Unit) :=
    fun event h => onward_of_inert (ask_emits h _)
  have hpushed : ∀ msg, Prog.Ensures (W.Before T) (pushMessage msg) (W.onward T Unit) :=
    fun msg => .modify fun s hs => hs
  unfold handleToolCall
  dsimp only
  split
  · refine .bind (fun _ => W.Before T) (htold _ ⟨rfl, rfl⟩) fun _ => ?_
    refine .bind (fun _ => W.Before T) (htold _ ⟨rfl, rfl⟩) fun _ => ?_
    refine .bind (fun _ => W.Before T) (htold _ ⟨rfl, rfl⟩) fun _ => ?_
    exact hpushed _
  · refine .bind (fun _ => W.Before T) (htold _ ⟨rfl, rfl⟩) fun _ => ?_
    refine .bind (fun _ => W.Before T) (htold _ ⟨rfl, rfl⟩) fun _ => ?_
    refine .bind (fun _ => W.Before T) (invoke_onward _ _) fun result => ?_
    refine .bind (fun _ => W.Before T) (htold _ ⟨rfl, rfl⟩) fun _ => ?_
    refine .bind (fun _ => W.Before T) (.modify fun s hs => hs) fun _ => ?_
    refine .bind (fun _ => W.Before T) (htold _ ⟨rfl, rfl⟩) fun _ => ?_
    exact hpushed _

/-- A final response ends the turn, whether a cancel has been read or not. -/
theorem afterUsage_onward (streamed : StreamedResponse) :
    Prog.Ensures (W.Reported T streamed) (afterUsage T.env streamed) (W.onward T Unit) := by
  refine .bind (fun _ => W.Reported T streamed) (.modify fun s hs => hs) fun _ => ?_
  refine .bind (fun _ => W.Reported T streamed) (.modify fun s hs => hs) fun _ => ?_
  cases hcalls : streamed.message.toolCalls with
  | some toolCalls =>
      have hgoes : ¬ Final streamed := fun hfinal => Option.some_ne_none toolCalls (hcalls.symm.trans hfinal.1)
      intro s hs
      have hbefore : (W.onward T Unit).next () s := hs.2 hgoes
      exact Prog.Ensures.forEach toolCalls (fun tc _ => handleToolCall_onward tc) s hbefore
  | none =>
      intro s hs
      cases hreason : streamed.finishReason with
      | none => exact hs.1
      | some reason =>
          cases reason with
          | stop => exact hs.1
          | toolCalls => exact hs.2 fun hfinal => hfinal.2 hreason
          | length | contentFilter =>
              refine Prog.Ensures.bind (fun _ => W.After T) ?_ (fun _ => .stop fun _ hs => hs) s hs.1
              exact ending_of_inert (notifyOrFail_inert ⟨rfl, rfl⟩)

theorem rest_onward (iteration : Nat) :
    Prog.Ensures (W.Before T) (rest T.env config iteration) (W.onward T Unit) := by
  refine .bind (fun _ => W.Before T) (onward_of_inert (windDown_inert iteration)) fun _ => ?_
  refine .bind (fun _ => W.Before T) (onward_of_inert nudge_inert) fun _ => ?_
  refine .bind (W.Responded T) callLlm_responded fun streamed => ?_
  refine .bind (fun _ => W.Reported T streamed) (trackUsage_reported streamed) fun _ => ?_
  exact afterUsage_onward streamed

theorem iterations_onward (left iteration : Nat) :
    Prog.Ensures (W.Before T) (iterations T.env config left iteration) (W.onward T Unit) := by
  induction left generalizing iteration with
  | zero => exact .pure fun _ hs => hs
  | succ left ih =>
      refine .bind (fun _ => W.Before T) ?_ fun _ => ih (iteration + 1)
      refine .bind (fun _ => W.Before T) preamble_onward fun _ => ?_
      exact .bind (fun _ => W.Before T) checkCompaction_onward fun _ => rest_onward iteration

/-! ### The turn and the run -/

/-- If its cancels are timely, a turn abandons. -/
theorem run_after (config : LoopConfig) (messages : List Message) :
    W.After T (run T.env config T.start messages).state := by
  have hinitial : W.Before T (initial T.env T.start messages) := by
    refine ⟨[.clock, .clock], List.append_assoc _ _ _, fun htimely => ⟨?_, ?_⟩⟩
    · refine @abandons_append W T [] _ Along.nil fun event hevent => ?_
      rcases List.mem_cons.mp hevent with rfl | hevent
      · rfl
      · rw [List.mem_singleton.mp hevent]
        rfl
    · exact htimely.start
  have hloop := @iterations_onward W T config config.maxIterations 0 _ hinitial
  have hepilogue : ∀ s, W.After T s → W.After T (epilogue s).state := fun s hs => hs.emits (epilogue_inert s)
  unfold run
  cases houtcome : iterations T.env config config.maxIterations 0 (initial T.env T.start messages) with
  | next _ s =>
      rw [houtcome] at hloop
      exact hepilogue s hloop.after
  | stop s =>
      rw [houtcome] at hloop
      exact hepilogue s hloop
  | fail _ s | panic s =>
      rw [houtcome] at hloop
      exact hloop

/-- The turn that a round of the outer loop starts, if it starts one. -/
def turn? (W : Wiring) (S : Session.Setting) (s : Live) : Option Turn :=
  match s.connection.client.nextPush with
  | (.ok (.message _), client) =>
      some ⟨(W.setting S s client).env, { s.connection with client := client }, s.session.trace⟩
  | _ => none

/-- The turn of a round, if there is one, with its events. -/
def OfTurn (W : Wiring) (S : Session.Setting) (P : Turn → List Event → Prop) (s t : Live) : Prop :=
  ∀ T ∈ W.turn? S s, P T (t.session.trace.drop s.session.trace.length)

instance (S : Session.Setting) (P : Turn → List Event → Prop) [∀ T events, Decidable (P T events)] (s t : Live) :
    Decidable (W.OfTurn S P s t) := inferInstanceAs (Decidable (∀ T ∈ _, _))

theorem step_abandons {S : Session.Setting} {s t : Live} (hstep : W.step S s () = some t)
    (htimely : W.OfTurn S W.Timely s t) : W.OfTurn S W.Abandons s t := by
  intro T hT
  have htimely := htimely T hT
  unfold step at hstep
  unfold turn? at hT
  by_cases halive : s.session.alive = true
  · rw [if_pos halive] at hstep
    split at hT
    · rename_i userMsg client hpush
      rw [hpush] at hstep
      obtain rfl := Option.some.inj hT
      obtain rfl := Option.some.inj hstep
      obtain ⟨events, htrace, hholds⟩ := run_after (W := W)
        (T := ⟨(W.setting S s client).env, { s.connection with client := client }, s.session.trace⟩) S.config
        (s.session.messages ++ [resolveFileUrlsInMessage S.resolveFileUrl userMsg])
      have hevents : (Session.turn (W.setting S s client) s.session userMsg).state.trace.drop
          s.session.trace.length = events := by
        refine (congrArg (List.drop s.session.trace.length) htrace).trans List.drop_left
      dsimp only at htimely ⊢
      rw [hevents] at htimely ⊢
      exact hholds htimely
    · cases hT
  · rw [if_neg halive] at hstep
    cases hstep

/-- In every run whose turns read their cancels in time, no turn starts anything after it has read one. -/
theorem turns_abandoned (W : Wiring) (S : Session.Setting) (c : Connection) (rounds : List Unit)
    (htimely : (W.system S c).EveryStep (fun s _ t => W.OfTurn S W.Timely s t) (W.system S c).init rounds) :
    (W.system S c).EveryStep (fun s _ t => W.OfTurn S W.Abandons s t) (W.system S c).init rounds := by
  refine ((W.system S c).everyStep_congr_of (I := fun _ => True) ?_ (fun _ _ _ _ _ _ _ => trivial) trivial
    htimely).mpr ((W.system S c).everyStep_true _ _)
  intro s _ t hstep _ hs
  exact iff_of_true (step_abandons hstep hs) trivial

/-- Lines are read whatever their numbers, and every request is written. -/
def plain : Wiring := ⟨some, fun _ => .flushed⟩

def pushLine (method : String) (params : Json) : List Char :=
  (Json.object [("jsonrpc", .string "2.0"), ("method", .string method), ("params", params)]).print ++ ['\n']

/-- A message, a cancel, and the answer to the quota check of the turn. -/
def cancelled (allowed : Bool) : List Char :=
  pushLine Protocol.Methods.sessionMessage (.object [("role", .string "user"), ("content", .string "hello")]) ++
    pushLine Protocol.Methods.sessionCancel (.object []) ++
    (Json.object [("id", .number ⟨['1'], rfl⟩), ("jsonrpc", .string "2.0"),
      ("result", .object [("allowed", .bool allowed)])]).print ++ ['\n']

def prompted : Session.Setting :=
  { Session.resuming with init := ⟨"You are a careful assistant.", [], .null⟩ }

def idle (allowed : Bool) : Connection := ⟨⟨cancelled allowed, []⟩, 1, []⟩

/-- The quota is exhausted when the cancel is read. -/
theorem turns_abandoned_exhausted :
    (plain.system prompted (idle false)).EveryStep (fun s _ t => plain.OfTurn prompted plain.Abandons s t)
      (plain.system prompted (idle false)).init [()] :=
  turns_abandoned plain prompted (idle false) [()] (by decide +kernel)

/-- The quota is not exhausted, and the turn calls the model with the cancel set aside. -/
theorem cancel_ignored :
    ¬ (plain.system prompted (idle true)).EveryStep (fun s _ t => plain.OfTurn prompted plain.Abandons s t)
      (plain.system prompted (idle true)).init [()] := by
  decide +kernel

end Wiring

end Overacp
