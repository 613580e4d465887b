import Overacp.Lib.ProgEnsures
import Overacp.Loop.SafeSplit
import Overacp.Loop.Session
import Overacp.Loop.UsageAccount

/-!
# Histories with every call answered

A provider refuses a request in which a tool call has no answer, or an answer no call. Between the push of
a response and the last of its answers the history is not fit to be sent; a session never sends it there.
Whatever ends a turn, what it leaves is fit for the next one, and so is what a compaction makes of it.
-/

namespace Overacp

open Llm

namespace Compaction

/-! ### Groups put together -/

theorem Grouped.append {messages more : List Message} (h : Grouped messages) (hmore : Grouped more) :
    Grouped (messages ++ more) := by
  induction h with
  | nil => exact hmore
  | group hrole hdistinct hanswers _ ih =>
      rw [List.cons_append, List.append_assoc]
      exact .group hrole hdistinct hanswers ih

/-- Neither an answer nor a message with calls. -/
def Plain (m : Message) : Prop := m.role ≠ .tool ∧ callsOf m = []

theorem Plain.grouped {m : Message} (h : Plain m) : Grouped [m] := by
  refine @Grouped.group m [] [] h.1 ?_ ?_ .nil
  · rw [h.2]
    exact .nil
  · rw [h.2]
    exact .nil

theorem plain_of_system {m : Message} (h : m.role = .system) : Plain m := by
  refine ⟨?_, callsOf_system h⟩
  rw [h]
  exact nofun

theorem Grouped.concat {messages : List Message} {m : Message} (h : Grouped messages) (hm : Plain m) :
    Grouped (messages ++ [m]) := h.append hm.grouped

/-- A change that leaves the roles, the calls and the ids alone leaves the groups alone. -/
theorem Grouped.map {f : Message → Message} (hrole : ∀ m, (f m).role = m.role)
    (hcalls : ∀ m, (f m).toolCalls = m.toolCalls) (hid : ∀ m, (f m).toolCallId = m.toolCallId)
    {messages : List Message} (h : Grouped messages) : Grouped (messages.map f) := by
  have hcallsOf (m : Message) : callsOf (f m) = callsOf m := by rw [callsOf, callsOf, hrole, hcalls]
  induction h with
  | nil => exact .nil
  | @group m answers rest hnot hdistinct hanswers _ ih =>
      rw [List.map_cons, List.map_append]
      refine .group ?_ ?_ ?_ ih
      · rw [hrole]
        exact hnot
      · rw [hcallsOf]
        exact hdistinct
      · rw [hcallsOf, List.forall₂_map_right_iff]
        refine hanswers.imp fun call answer hanswer => ?_
        exact ⟨(hrole answer).trans hanswer.1, (hid answer).trans hanswer.2⟩

/-! ### Compactions -/

theorem recent_grouped {messages slice : List Message} {keepRecent : Nat} (h : Grouped messages)
    (hslice : toCompact messages keepRecent = some slice) : Grouped (recent messages keepRecent) := by
  have hcompacts : Compacts messages keepRecent := Option.isSome_iff_exists.mpr ⟨slice, hslice⟩
  obtain ⟨hlong, _, _⟩ := splitPoint_of_compacts hcompacts
  have hone := start_le_length messages
  have hproposed : start messages ≤ messages.length - keepRecent := by
    have hstart : start messages ≤ 1 := by
      rw [start]
      split <;> omega
    omega
  exact (h.split (findSafeSplit_isGreatest h hproposed).1.2.2.2).2

/-- The prompt, the summary and the groups that were kept. -/
theorem compacted_grouped {messages slice : List Message} {keepRecent : Nat} (h : Grouped messages)
    (hslice : toCompact messages keepRecent = some slice) (summary : String) :
    Grouped (compacted messages keepRecent summary).workingMessages := by
  have hprompt : Grouped (systemMsg messages).toList := by
    rw [systemMsg_toList]
    exact (h.split (not_cutAt_start messages)).1
  have hsummary : Plain (compactedContext summary) := plain_of_system rfl
  exact hprompt.append (hsummary.grouped.append (recent_grouped h hslice))

theorem summaryMessages_grouped (slice : List Message) : Grouped (summaryMessages slice) := by
  have hprompt : Plain (textMessage .system compactionPrompt) := plain_of_system rfl
  exact hprompt.grouped.concat ⟨nofun, rfl⟩

end Compaction

namespace AgenticLoop

open Compaction

/-! ### What a turn sends -/

/-- The messages that go out with an event: to the language model, or to whoever keeps the history. -/
def Event.history? : Event → Option (List Message)
  | streamCompletion messages _ => some messages
  | complete messages => some messages
  | contextCompacted _ messages _ => some messages
  | _ => none

def Event.Sound (event : Event) : Prop := ∀ messages, event.history? = some messages → Grouped messages

/-- The history is fit to be sent, as everything was that has been sent. -/
structure Paired (s : State) : Prop where
  messages : Grouped s.messages
  sent : ∀ event ∈ s.trace, event.Sound

/-- What the streaming client makes of a response whose calls can be told apart. -/
def Distinct (streamed : StreamedResponse) : Prop :=
  ∃ (asm : Assembly) (calls : List PartialToolCall), asm.toolCalls = some calls ∧
    streamed = asm.responseOf calls ∧ (calls.map PartialToolCall.id).Nodup

variable {env : Environment} {config : LoopConfig}

theorem Event.sound_of_none {event : Event} (h : event.history? = none) : event.Sound := by
  intro messages hsome
  rw [h] at hsome
  cases hsome

theorem Event.sound_of_routine (event : Event) (h : event.routine = true) : event.Sound := by
  apply sound_of_none
  cases event <;> first | rfl | exact absurd h nofun

theorem Paired.emits {s t : State} (h : Paired s) (hmessages : Grouped t.messages)
    (hemits : Emits Event.Sound s t) : Paired t := by
  obtain ⟨events, htrace, hsound⟩ := hemits
  refine ⟨hmessages, ?_⟩
  intro event hevent
  rw [htrace, List.mem_append] at hevent
  rcases hevent with hbefore | hadded
  · exact h.sent event hbefore
  · exact hsound event hadded

theorem Paired.tell {s : State} {event : Event} (h : Paired s) (hevent : event.Sound) :
    Paired { s with trace := s.trace ++ [event] } := by
  refine h.emits h.messages ⟨[event], rfl, ?_⟩
  intro e he
  rw [List.mem_singleton.mp he]
  exact hevent

theorem Paired.push {s : State} {m : Message} (h : Paired s) (hm : Plain m) :
    Paired { s with messages := s.messages ++ [m] } := ⟨h.messages.concat hm, h.sent⟩

/-! ### Parts that keep the pairs -/

/-- Paired before, and paired after, whatever the end. -/
def KeepsPaired (s t : State) : Prop := Paired s → Paired t

theorem frame_keepsPaired : Prog.Frame KeepsPaired where
  refl _ h := h
  trans _ _ _ hst htu h := htu (hst h)

theorem ask_keeps {α : Type} {event : Event} (h : event.Sound) (answer : List Event → α) :
    Prog.Relates KeepsPaired (ask event answer) := fun _ hs => hs.tell h

theorem routine_keeps (env : Environment) : Routine env fun α (m : Loop α) => Prog.Relates KeepsPaired m where
  toClosed := frame_keepsPaired.closed
  ask hevent answer := ask_keeps (Event.sound_of_routine _ hevent) answer
  notify hevent := notifyOrFail_relates frame_keepsPaired (ask_keeps (Event.sound_of_routine _ hevent) _)
  heartbeat _ := Prog.relates_modify fun _ hs => ⟨hs.messages, hs.sent⟩

theorem text_keeps (text : String) : Prog.Relates KeepsPaired
    (Prog.modify fun s => { s with responseText := s.responseText ++ text } : Loop Unit) :=
  Prog.relates_modify fun _ hs => ⟨hs.messages, hs.sent⟩

theorem push_keeps {m : Message} (h : Plain m) : Prog.Relates KeepsPaired (pushMessage m) :=
  Prog.relates_modify fun _ hs => hs.push h

theorem systemMsg_plain (text : String) : Plain (AgenticLoop.systemMsg text) := plain_of_system rfl

theorem windDown_keeps (iteration : Nat) : Prog.Relates KeepsPaired (windDown config iteration) := by
  unfold windDown
  dsimp only
  split
  · exact push_keeps (systemMsg_plain _)
  · exact frame_keepsPaired.pure ()

theorem nudge_keeps : Prog.Relates KeepsPaired nudge := by
  apply frame_keepsPaired.bind frame_keepsPaired.get
  intro s
  split
  · apply frame_keepsPaired.bind (push_keeps (systemMsg_plain _))
    intro _
    exact Prog.relates_modify fun _ hs => ⟨hs.messages, hs.sent⟩
  · exact frame_keepsPaired.pure ()

theorem trackUsage_keeps (usage : Option Usage) : Prog.Relates KeepsPaired (trackUsage usage) := by
  cases usage with
  | none => exact frame_keepsPaired.pure ()
  | some usage =>
      apply frame_keepsPaired.bind
      · exact Prog.relates_modify fun _ hs => ⟨hs.messages, hs.sent⟩
      · intro _
        exact ask_keeps (Event.sound_of_none rfl) _

theorem epilogue_keeps : Prog.Relates KeepsPaired epilogue := by
  apply frame_keepsPaired.bind frame_keepsPaired.get
  intro s
  apply frame_keepsPaired.bind (ask_keeps (Event.sound_of_none rfl) _)
  intro _
  exact ask_keeps (Event.sound_of_none rfl) _

/-- The slice goes out in a summary request, and what is announced and kept are whole groups. -/
theorem checkCompaction_keeps : Prog.Relates KeepsPaired (checkCompaction env config) := by
  intro s hs
  rcases checkCompaction_cases env config s with
    ⟨_, hstate⟩ | ⟨slice, hasks, ⟨e, _, hstate⟩ | ⟨summary, _, hstate⟩⟩
  · rw [hstate]
    exact hs
  all_goals
    have hasked : Paired (asked s slice) := hs.tell fun messages hsome => by
      rw [← Option.some.inj hsome]
      exact summaryMessages_grouped slice
  · rw [hstate]
    exact hasked
  · rw [hstate, adopt_state]
    refine hasked.emits (compacted_grouped hs.messages hasks.toCompact summary) ⟨_, rfl, ?_⟩
    intro event hevent
    split at hevent
    · cases hevent
    · rw [List.mem_singleton.mp hevent]
      intro messages hsome
      rw [← Option.some.inj hsome]
      exact recent_grouped hs.messages hasks.toCompact

/-! ### The call and its answers -/

/-- A response comes back with a history to which it has not been added yet. -/
theorem callLlm_paired (hmodel : ∀ trace streamed, (env.streamCompletion trace).2 = .ok streamed → Distinct streamed)
    (s : State) (hs : Paired s) : Paired (callLlm env config s).state ∧
      ∀ streamed t, callLlm env config s = .next streamed t → Distinct streamed := by
  have hstreaming : Paired (streaming env s) := hs.tell fun messages hsome => by
    rw [← Option.some.inj hsome]
    exact hs.messages
  constructor
  · rw [callLlm_eq]
    exact (routine_keeps env).reportAnswer text_keeps s.messages _ _ hstreaming
  · intro streamed t hnext
    exact hmodel _ streamed ((callLlm_next_iff streamed s).mp ⟨t, hnext⟩)

theorem Distinct.callsOf {streamed : StreamedResponse} (h : Distinct streamed) :
    Compaction.callsOf streamed.message = streamed.message.toolCalls.getD [] ∧
      ((Compaction.callsOf streamed.message).map ToolCall.id).Nodup := by
  obtain ⟨asm, calls, -, rfl, hdistinct⟩ := h
  have hcalls : Compaction.callsOf (asm.responseOf calls).message =
      (asm.responseOf calls).message.toolCalls.getD [] := rfl
  refine ⟨hcalls, ?_⟩
  rw [hcalls, Assembly.responseOf]
  dsimp only
  split
  · exact .nil
  · rw [Option.getD_some, List.map_map]
    exact hdistinct

theorem Reply.answers {env : Environment} {calls : List ToolCall} {replies : List (Reply env)}
    (h : replies.map Reply.call = calls) : List.Forall₂ Answers calls (replies.map Reply.message) := by
  rw [← h, List.forall₂_map_left_iff, List.forall₂_map_right_iff, List.forall₂_same]
  exact fun _ _ => ⟨rfl, rfl⟩

theorem handleToolCalls_emits (calls : List ToolCall) :
    Prog.Relates (Emits Event.Sound) (Prog.forEach calls (handleToolCall env)) := by
  apply (frame_emits Event.Sound).forEach
  intro tc
  exact (steps_emits env Event.sound_of_routine).handleToolCall
    (fun _ _ _ => ask_emits (Event.sound_of_none rfl) _) (fun _ _ _ => ask_emits (Event.sound_of_none rfl) _) tc

/-- The response is pushed and its calls are answered before anything else is sent. -/
theorem afterUsage_keeps {streamed : StreamedResponse} (h : Distinct streamed) :
    Prog.Relates KeepsPaired (afterUsage env streamed) := by
  obtain ⟨hcallsOf, hdistinct⟩ := h.callsOf
  have hrole : streamed.message.role ≠ .tool := by
    obtain ⟨asm, calls, -, rfl, -⟩ := h
    exact nofun
  unfold afterUsage
  apply frame_keepsPaired.bind
  · exact Prog.relates_modify fun _ hs => ⟨hs.messages, hs.sent⟩
  intro _
  cases hcalls : streamed.message.toolCalls with
  | none =>
      rw [hcalls] at hcallsOf
      apply frame_keepsPaired.bind (push_keeps ⟨hrole, hcallsOf⟩)
      intro _
      exact (routine_keeps env).finish _
  | some toolCalls =>
      rw [hcalls, Option.getD_some] at hcallsOf
      rw [hcallsOf] at hdistinct
      intro s hs
      let pushed : State := { s with messages := s.messages ++ [streamed.message] }
      show Paired (Prog.forEach toolCalls (handleToolCall env) pushed).state
      have hemits := @handleToolCalls_emits env toolCalls pushed
      obtain ⟨t, replies, hrun, hcall, hreplied⟩ := forEach_replied env toolCalls pushed
      rw [hrun] at hemits ⊢
      refine hs.emits ?_ hemits
      show Grouped t.messages
      rw [hreplied.messages, List.append_assoc, List.singleton_append, ← List.append_nil (replies.map _)]
      refine hs.messages.append (.group hrole ?_ ?_ .nil)
      · rw [hcallsOf]
        exact hdistinct
      · rw [hcallsOf]
        exact Reply.answers hcall

theorem rest_keeps (hmodel : ∀ trace streamed, (env.streamCompletion trace).2 = .ok streamed → Distinct streamed)
    (iteration : Nat) : Prog.Relates KeepsPaired (rest env config iteration) := by
  apply frame_keepsPaired.bind (windDown_keeps iteration)
  intro _
  apply frame_keepsPaired.bind nudge_keeps
  intro _ s hs
  obtain ⟨hcalled, hresponse⟩ := @callLlm_paired env config hmodel s hs
  rw [Prog.run_bind]
  cases houtcome : callLlm env config s with
  | next streamed t =>
      rw [houtcome] at hcalled
      have hafter : Prog.Relates KeepsPaired (respond env streamed) :=
        frame_keepsPaired.bind (trackUsage_keeps _) fun _ => afterUsage_keeps (hresponse streamed t houtcome)
      exact hafter t hcalled
  | stop t | fail _ t | panic t =>
      rw [houtcome] at hcalled
      exact hcalled

/-- However the turn ends: its time or its quota run out, a call or a compaction fails, or the broker is gone. -/
theorem run_paired (hmodel : ∀ trace streamed, (env.streamCompletion trace).2 = .ok streamed → Distinct streamed)
    {trace : List Event} {messages : List Message} (hmessages : Grouped messages)
    (hsent : ∀ event ∈ trace, event.Sound) : Paired (run env config trace messages).state := by
  have hinitial : Paired (initial env trace messages) := by
    have hbefore : Paired ⟨trace, messages, 0, noUsage, 0, 0, "", 0, 0⟩ := ⟨hmessages, hsent⟩
    have hclock : Event.clock.Sound := Event.sound_of_none rfl
    have htwice := (hbefore.tell hclock).tell hclock
    exact ⟨htwice.messages, htwice.sent⟩
  have hrun : KeepsPaired (initial env trace messages) (run env config trace messages).state := by
    apply run_relates frame_keepsPaired
    · exact (routine_keeps env).preamble
    · exact rest_keeps hmodel
    · exact epilogue_keeps
    · exact fun s' _ => checkCompaction_keeps s'
  exact hrun hinitial

end AgenticLoop

/-! ### Over a session -/

namespace Session

open Compaction AgenticLoop

variable {S : Setting}

theorem resolveFileUrls_grouped (resolveFileUrl : String → Except String String) {messages : List Message}
    (h : Grouped messages) : Grouped (resolveFileUrls resolveFileUrl messages) :=
  @Grouped.map (resolveFileUrlsInMessage resolveFileUrl) (fun _ => rfl) (fun _ => rfl) (fun _ => rfl) _ h

theorem workingContext_grouped (resolveFileUrl : String → Except String String) {init : InitializeResult}
    (h : Grouped init.messages) : Grouped (workingContext resolveFileUrl init) := by
  unfold workingContext
  dsimp only
  split
  · exact resolveFileUrls_grouped resolveFileUrl h
  · exact (systemMsg_plain _).grouped.append (resolveFileUrls_grouped resolveFileUrl h)

/-- A process starts with a history whose calls are answered, is pushed messages without calls, and its
provider gives the calls of one response different ids. -/
structure Orderly (S : Setting) (pushes : List NextPush) : Prop where
  init : Grouped S.init.messages
  pushes : ∀ m, .message m ∈ pushes → Plain m
  model : ∀ trace streamed, (S.env.streamCompletion trace).2 = .ok streamed → Distinct streamed

/-- What a session keeps: its history fit for the next turn, and nothing sent that was not. -/
structure Fit (s : Session) : Prop where
  messages : Grouped s.messages
  sent : ∀ event ∈ s.trace, event.Sound

theorem step_fit (hmodel : ∀ trace streamed, (S.env.streamCompletion trace).2 = .ok streamed → Distinct streamed)
    {s t : Session} {push : NextPush} (hstep : step S s push = some t)
    (hpush : ∀ m, push = .message m → Plain m) (h : Fit s) : Fit t := by
  obtain ⟨_, ⟨userMsg, hmessage, rfl⟩ | ⟨_, rfl⟩⟩ := step_cases hstep
  · have hpushed : Grouped (s.messages ++ [resolveFileUrlsInMessage S.resolveFileUrl userMsg]) :=
      h.messages.append (resolveFileUrls_grouped S.resolveFileUrl (hpush userMsg hmessage).grouped)
    have hturn : Paired (turn S s userMsg).state := run_paired hmodel hpushed h.sent
    exact ⟨hturn.messages, hturn.sent⟩
  · exact ⟨h.messages, h.sent⟩

theorem run_fit (hmodel : ∀ trace streamed, (S.env.streamCompletion trace).2 = .ok streamed → Distinct streamed)
    {s t : Session} {pushes : List NextPush} (hpushes : ∀ m, .message m ∈ pushes → Plain m)
    (hrun : (system S).run s pushes = some t) (h : Fit s) : Fit t := by
  induction pushes generalizing s with
  | nil =>
      cases hrun
      exact h
  | cons push pushes ih =>
      obtain ⟨u, hstep, hrest⟩ := (system S).run_cons_eq_some.mp hrun
      refine ih (fun m hm => hpushes m (List.mem_cons_of_mem _ hm)) hrest (step_fit hmodel hstep ?_ h)
      rintro m rfl
      exact hpushes m List.mem_cons_self

/-- Then nothing the process ever sends holds a call without its answer or an answer without its call:
not to the language model, for a turn or for a summary, and not to whoever keeps its history. -/
theorem every_call_answered {pushes : List NextPush} {t : Session} (h : Orderly S pushes)
    (hrun : (system S).run (system S).init pushes = some t) :
    (CallsAnswered t.messages ∧ AnswersCalled t.messages) ∧
      ∀ event ∈ t.trace, ∀ messages, event.history? = some messages →
        CallsAnswered messages ∧ AnswersCalled messages := by
  have hinit : Fit (system S).init := ⟨workingContext_grouped S.resolveFileUrl h.init, by simp [system]⟩
  have hfit := run_fit h.model h.pushes hrun hinit
  refine ⟨⟨hfit.messages.callsAnswered, hfit.messages.answersCalled⟩, ?_⟩
  intro event hevent messages hsome
  have hgrouped := hfit.sent event hevent messages hsome
  exact ⟨hgrouped.callsAnswered, hgrouped.answersCalled⟩

/-- A process whose model calls two tools at once, in every response. -/
def callingSetting : Setting where
  env := calling
  config := tight
  resolveFileUrl _ := .error "no such file"
  init := ⟨"You are a careful assistant.", [], .null⟩

theorem every_call_answered_calling :
    Orderly callingSetting [.message (textMessage .user "Where is the lock taken?")] ∧
      ∃ t, (system callingSetting).run (system callingSetting).init
          [.message (textMessage .user "Where is the lock taken?")] = some t ∧
        (CallsAnswered t.messages ∧ AnswersCalled t.messages) ∧
        ∀ event ∈ t.trace, ∀ messages, event.history? = some messages →
          CallsAnswered messages ∧ AnswersCalled messages := by
  have horderly : Orderly callingSetting [.message (textMessage .user "Where is the lock taken?")] := by
    refine ⟨.nil, ?_, ?_⟩
    · intro m hm
      obtain rfl := NextPush.message.inj (List.mem_singleton.mp hm)
      exact ⟨nofun, rfl⟩
    · intro trace streamed hok
      obtain rfl := Except.ok.inj hok
      refine ⟨⟨"", some [⟨"call-1", "write", brokenCall.function.arguments⟩,
        ⟨"call-2", "read", readCall.function.arguments⟩], some .toolCalls, none, [], false⟩, _, rfl, rfl, ?_⟩
      decide
  exact ⟨horderly, _, rfl, every_call_answered horderly rfl⟩

end Session

end Overacp
