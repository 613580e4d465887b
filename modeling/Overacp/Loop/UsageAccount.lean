import Overacp.Lib.Tally
import Overacp.Loop.TurnEnd

/-!
# The account of the tokens

What the provider reports for a call, against what the loop reports of it: through `quota/update` as the
calls come, and with `turn/end` in the end. The streaming calls are all accounted for, and the
summarising calls are not.
-/

namespace Overacp

namespace AgenticLoop

open Llm Tally

/-! ### The two sides -/

inductive Direction where
  | input
  | output

def Direction.ofUsage : Direction → Usage → Nat
  | input, usage => usage.promptTokens
  | output, usage => usage.completionTokens

def tokens (d : Direction) (usage : Option Usage) : Nat := (usage.map d.ofUsage).getD 0

/-- What the provider reports for a streaming call. A call that fails returns no usage: what an attempt that failed, or
was tried again within the call, has reported is not visible at `LlmService`. -/
def streamTokens (env : Environment) (d : Direction) (before : List Event) : Event → Nat
  | .streamCompletion messages tools =>
      match (env.streamCompletion (before ++ [.streamCompletion messages tools])).2 with
      | .ok streamed => tokens d streamed.usage
      | .error _ => 0
  | _ => 0

/-- What the provider reports for a summarising call. -/
def summaryTokens (env : Environment) (d : Direction) (before : List Event) : Event → Nat
  | .complete messages =>
      match env.complete (before ++ [.complete messages]) with
      | .ok response => tokens d response.usage
      | .error _ => 0
  | _ => 0

def llmTokens (env : Environment) (d : Direction) (before : List Event) (event : Event) : Nat :=
  streamTokens env d before event + summaryTokens env d before event

def quotaTokens (d : Direction) (_ : List Event) : Event → Nat
  | .quotaUpdate inputTokens outputTokens =>
      match d with
      | .input => inputTokens
      | .output => outputTokens
  | _ => 0

/-- After `trace`, the events report what the provider has reported for the calls among them. -/
structure Billed (env : Environment) (d : Direction) (trace events : List Event) : Prop where
  quota : tally (quotaTokens d) trace events = tally (llmTokens env d) trace events
  turnEnd : ∀ usage, .turnEnd usage ∈ events → d.ofUsage usage = tally (llmTokens env d) trace events

/-! ### The streaming calls -/

/-- The streaming calls between two states are accounted for, in the updates and in the total, except
for this many tokens. -/
def Owing (env : Environment) (d : Direction) (debt : Nat) (s t : State) : Prop :=
  ∃ events, t.trace = s.trace ++ events ∧
    tally (quotaTokens d) s.trace events + debt = tally (streamTokens env d) s.trace events ∧
    d.ofUsage t.totalUsage + debt = d.ofUsage s.totalUsage + tally (streamTokens env d) s.trace events

variable {env : Environment} {config : LoopConfig} {d : Direction}

theorem Owing.trans {n m : Nat} {s t u : State} (hst : Owing env d n s t) (htu : Owing env d m t u) :
    Owing env d (n + m) s u := by
  obtain ⟨es, htrace, hquota, htotal⟩ := hst
  obtain ⟨es', htrace', hquota', htotal'⟩ := htu
  rw [htrace] at htrace' hquota' htotal'
  refine ⟨es ++ es', by rw [htrace', List.append_assoc], ?_, ?_⟩
  · rw [tally_append, tally_append]
    omega
  · rw [tally_append]
    omega

theorem frame_metered (env : Environment) (d : Direction) : Prog.Frame (Owing env d 0) where
  refl _ := ⟨[], by simp, rfl, rfl⟩
  trans _ _ _ := Owing.trans

/-- The events of the parts that neither call the language model by stream nor report. -/
def Event.unmetered : Event → Bool
  | streamCompletion .. | quotaUpdate .. => false
  | _ => true

/-- Unmetered events only, and the same total. -/
structure Unmetered (s t : State) : Prop where
  emits : Emits (fun event => event.unmetered = true) s t
  totalUsage : t.totalUsage = s.totalUsage

theorem Unmetered.metered {s t : State} (h : Unmetered s t) : Owing env d 0 s t := by
  obtain ⟨events, htrace, hevents⟩ := h.emits
  have hzero : tally (streamTokens env d) s.trace events = 0 := by
    apply tally_eq_zero
    intro e he _
    have hunmetered := hevents e he
    cases e <;> first | rfl | exact absurd hunmetered nofun
  have hzero' : tally (quotaTokens d) s.trace events = 0 := by
    apply tally_eq_zero
    intro e he _
    have hunmetered := hevents e he
    cases e <;> first | rfl | exact absurd hunmetered nofun
  exact ⟨events, htrace, by rw [hzero, hzero'], by rw [hzero, h.totalUsage]⟩

theorem frame_unmetered : Prog.Frame Unmetered where
  refl _ := ⟨.of_trace_eq rfl, rfl⟩
  trans s t u hst htu :=
    ⟨(frame_emits _).trans s t u hst.emits htu.emits, htu.totalUsage.trans hst.totalUsage⟩

theorem ask_unmetered {α : Type} {event : Event} (h : event.unmetered = true)
    (answer : List Event → α) : Prog.Relates Unmetered (ask event answer) :=
  fun s => ⟨ask_emits (P := fun event => event.unmetered = true) h answer s, rfl⟩

theorem modify_unmetered {f : State → State} (htrace : ∀ s, (f s).trace = s.trace)
    (htotal : ∀ s, (f s).totalUsage = s.totalUsage) :
    Prog.Relates Unmetered (Prog.modify f : Loop Unit) :=
  Prog.relates_modify fun s => ⟨.of_trace_eq (htrace s), htotal s⟩

theorem Event.unmetered_of_routine {event : Event} (h : event.routine = true) :
    event.unmetered = true := by
  cases event <;> first | rfl | exact absurd h nofun

theorem steps_unmetered (env : Environment) :
    Steps env fun α (m : Loop α) => Prog.Relates Unmetered m where
  toClosed := frame_unmetered.closed
  ask hevent answer := ask_unmetered (Event.unmetered_of_routine hevent) answer
  notify hevent :=
    notifyOrFail_relates frame_unmetered (ask_unmetered (Event.unmetered_of_routine hevent) _)
  heartbeat _ := modify_unmetered (fun _ => rfl) fun _ => rfl
  push _ := modify_unmetered (fun _ => rfl) fun _ => rfl
  nudged := modify_unmetered (fun _ => rfl) fun _ => rfl
  text _ := modify_unmetered (fun _ => rfl) fun _ => rfl
  silence _ := modify_unmetered (fun _ => rfl) fun _ => rfl
  counted := modify_unmetered (fun _ => rfl) fun _ => rfl

theorem relates_metered {α : Type} {m : Loop α} (h : Prog.Relates Unmetered m) :
    Prog.Relates (Owing env d 0) m := Prog.relates_mono (fun _ _ => Unmetered.metered) h

/-! ### A streaming call and its report -/

theorem forEach_deltas_next (deltas : List String) (s : State) :
    ∃ t, Prog.forEach deltas (fun delta => if delta ≠ "" then tell (.streamTextDelta delta) else pure ()) s =
      .next () t := by
  induction deltas generalizing s with
  | nil => exact ⟨s, rfl⟩
  | cons delta deltas ih =>
      have hstep : ∃ t, (if delta ≠ "" then tell (.streamTextDelta delta) else pure () : Loop Unit) s =
          .next () t := by
        split
        · exact ⟨_, rfl⟩
        · exact ⟨s, rfl⟩
      obtain ⟨t, ht⟩ := hstep
      obtain ⟨u, hu⟩ := ih t
      refine ⟨u, ?_⟩
      show ((if delta ≠ "" then tell (.streamTextDelta delta) else pure () : Loop Unit) s).andThen _ = _
      rw [ht]
      exact hu

/-- The report goes on with the response just where there is one. -/
theorem reportAnswer_next_iff (messages : List Message)
    (answer : List String × Except LlmError StreamedResponse) (streamed : StreamedResponse) (s : State) :
    (∃ t, reportAnswer env config messages answer s = .next streamed t) ↔ answer.2 = .ok streamed := by
  obtain ⟨s', hdeltas⟩ := forEach_deltas_next answer.1 s
  obtain ⟨deltas, result⟩ := answer
  simp only at hdeltas
  simp only [reportAnswer, Prog.run_bind, hdeltas, Outcome.andThen]
  cases result with
  | error e =>
      constructor
      · intro hnext
        obtain ⟨t, hnext⟩ := hnext
        simp only [tell, ask, Prog.run_bind, Outcome.andThen, notifyOrFail] at hnext
        split at hnext
        all_goals cases hnext
      · intro h
        cases h
  | ok streamed' =>
      simp only [tell, ask, Prog.run_bind, Outcome.andThen, Prog.run_modify, Prog.run_pure,
        Outcome.next.injEq, Except.ok.injEq, exists_and_left, exists_eq', and_true]

/-- The state once the call has been put. -/
def streaming (env : Environment) (s : State) : State :=
  { s with trace := s.trace ++ [.streamCompletion s.messages (env.definitions s.trace)] }

theorem callLlm_eq (s : State) : callLlm env config s =
    reportAnswer env config s.messages (env.streamCompletion (streaming env s).trace) (streaming env s) := rfl

/-- After the call only what is known of its answer is reported. -/
theorem callLlm_unmetered (s : State) : Unmetered (streaming env s) (callLlm env config s).state := by
  rw [callLlm_eq]
  exact (steps_unmetered env).reportAnswer (steps_unmetered env).text s.messages _ _

/-- The call goes on with the response just where there is one. -/
theorem callLlm_next_iff (streamed : StreamedResponse) (s : State) :
    (∃ t, callLlm env config s = .next streamed t) ↔
      (env.streamCompletion (streaming env s).trace).2 = .ok streamed := by
  rw [callLlm_eq]
  exact reportAnswer_next_iff _ _ streamed _

theorem callLlm_worth (price : StreamedResponse → Nat) (s : State) :
    (callLlm env config s).worth price =
      match (env.streamCompletion (streaming env s).trace).2 with
      | .ok streamed => price streamed
      | .error _ => 0 := by
  have hiff := fun streamed => @callLlm_next_iff env config streamed s
  cases hanswer : (env.streamCompletion (streaming env s).trace).2 with
  | ok streamed =>
      obtain ⟨t, hnext⟩ := (hiff streamed).mpr hanswer
      rw [hnext]
      rfl
  | error e =>
      cases houtcome : callLlm env config s with
      | next streamed t =>
          have hok := (hiff streamed).mp ⟨t, houtcome⟩
          rw [hanswer] at hok
          cases hok
      | stop t | fail _ t | panic t => rfl

/-- The call is owed what the provider reports for it. -/
theorem callLlm_owes : Prog.Owes (Owing env d) (fun streamed => tokens d streamed.usage) (callLlm env config) := by
  intro s
  have hasked : Owing env d ((callLlm env config s).worth fun streamed => tokens d streamed.usage) s
      (streaming env s) := by
    refine ⟨[.streamCompletion s.messages (env.definitions s.trace)], rfl, ?_, ?_⟩
    · rw [callLlm_worth, tally_singleton, tally_singleton]
      exact Nat.zero_add _
    · rw [callLlm_worth, tally_singleton]
      rfl
  exact hasked.trans (callLlm_unmetered s).metered

theorem trackUsage_pays (usage : Option Usage) (s : State) :
    ∃ t, trackUsage usage s = .next () t ∧
      ∀ s₀, Owing env d (tokens d usage) s₀ s → Owing env d 0 s₀ t := by
  cases usage with
  | none => exact ⟨s, rfl, fun _ h => h⟩
  | some usage =>
      refine ⟨_, rfl, ?_⟩
      intro s₀ h
      obtain ⟨events, htrace, hquota, htotal⟩ := h
      let update := Event.quotaUpdate usage.promptTokens usage.completionTokens
      have hworth : quotaTokens d (s₀.trace ++ events) update = tokens d (some usage) := by
        cases d <;> rfl
      have hsum : d.ofUsage (addUsage s.totalUsage usage) =
          d.ofUsage s.totalUsage + tokens d (some usage) := by
        cases d <;> rfl
      have hstream : tally (streamTokens env d) (s₀.trace ++ events) [update] = 0 := rfl
      refine ⟨events ++ [update], ?_, ?_, ?_⟩
      · rw [← List.append_assoc, ← htrace]
      · rw [tally_append, tally_append, tally_singleton, hworth, hstream]
        exact hquota
      · rw [tally_append, hstream]
        show d.ofUsage (addUsage s.totalUsage usage) + 0 = _
        rw [hsum]
        exact htotal

/-- A call, its report, and what follows. -/
theorem called_metered {k : StreamedResponse → Loop Unit}
    (hk : ∀ streamed, Prog.Relates (Owing env d 0) (k streamed)) :
    Prog.Relates (Owing env d 0) (callLlm env config >>= fun streamed => do
      trackUsage streamed.usage
      k streamed) := by
  apply callLlm_owes.relates
  intro streamed s s' howing
  obtain ⟨t, htrack, hpays⟩ := @trackUsage_pays env d streamed.usage s'
  rw [Prog.run_bind, htrack]
  exact (frame_metered env d).trans s t _ (hpays s howing) (hk streamed t)

theorem rest_metered (iteration : Nat) : Prog.Relates (Owing env d 0) (rest env config iteration) := by
  have hsteps := steps_unmetered env
  apply (frame_metered env d).bind (relates_metered (hsteps.windDown iteration))
  intro _
  apply (frame_metered env d).bind (relates_metered hsteps.nudge)
  intro _
  apply called_metered
  intro streamed
  exact relates_metered
    (hsteps.afterUsage (fun _ _ _ => ask_unmetered rfl _) (fun _ _ _ => ask_unmetered rfl _) streamed)

theorem checkCompaction_unmetered : Prog.Relates Unmetered (checkCompaction env config) := by
  intro s
  refine ⟨checkCompaction_emits (fun _ => rfl) (fun _ _ _ => rfl) s, ?_⟩
  rcases checkCompaction_cases env config s with ⟨_, hstate⟩ | ⟨slice, _, ⟨e, _, hstate⟩ | ⟨summary, _, hstate⟩⟩
  · rw [hstate]
  · rw [hstate]
    rfl
  · rw [hstate, adopt_state]
    rfl

theorem epilogue_unmetered : Prog.Relates Unmetered epilogue := by
  apply frame_unmetered.bind frame_unmetered.get
  intro s
  apply frame_unmetered.bind (ask_unmetered rfl _)
  intro _
  exact ask_unmetered rfl _

/-! ### The whole run -/

/-- The state before a run has looked at the clock. -/
def before (env : Environment) (trace : List Event) (messages : List Message) : State :=
  { initial env trace messages with trace := trace }

theorem before_unmetered (env : Environment) (trace : List Event) (messages : List Message) :
    Unmetered (before env trace messages) (initial env trace messages) := by
  refine ⟨⟨[.clock, .clock], ?_, by simp [Event.unmetered]⟩, rfl⟩
  simp [initial, before]

theorem run_owes_nothing (env : Environment) (config : LoopConfig) (d : Direction) (trace : List Event)
    (messages : List Message) :
    Owing env d 0 (before env trace messages) (run env config trace messages).state := by
  refine (before_unmetered env trace messages).metered.trans (run_relates (frame_metered env d) ?_ rest_metered ?_ ?_)
  · exact relates_metered (steps_unmetered env).preamble
  · exact relates_metered epilogue_unmetered
  · exact fun s' _ => (checkCompaction_unmetered s').metered

theorem run_trace (env : Environment) (config : LoopConfig) (trace : List Event) (messages : List Message) :
    (run env config trace messages).state.trace = trace ++ runEvents env config trace messages := by
  obtain ⟨events, hevents⟩ := run_grows env config trace messages
  rw [runEvents, ← hevents, List.drop_left]

/-- A `turn/end` of a run carries its total. -/
theorem turnEnd_of_run {env : Environment} {config : LoopConfig} {trace : List Event}
    {messages : List Message} {usage : Usage} (h : .turnEnd usage ∈ runEvents env config trace messages) :
    usage = (run env config trace messages).state.totalUsage := by
  obtain ⟨events, htrace, hnone⟩ := iterations_trace env config trace messages
  have hloop : Event.turnEnd usage ∉ events := fun hmem => absurd (hnone _ hmem) nofun
  unfold runEvents at h
  rcases run_state env config trace messages with hstate | hstate
  · rw [hstate, htrace, List.drop_left] at h
    exact absurd h hloop
  · let s := (iterations env config config.maxIterations 0 (initial env trace messages)).state
    have hevents : (epilogue s).state.trace.drop trace.length = events ++ [.turnEnd s.totalUsage,
        .finalize s.totalUsage.totalTokens s.totalUsage.cost s.toolCount s.responseText] := by
      show (s.trace ++ [_] ++ [_]).drop _ = _
      rw [htrace, List.append_assoc, List.append_assoc, List.drop_left]
      rfl
    rw [hstate, hevents] at h
    rw [hstate, (epilogue_unmetered s).totalUsage]
    rcases List.mem_append.mp h with h | h
    · exact absurd h hloop
    · rcases List.mem_cons.mp h with h | h
      · exact Event.turnEnd.inj h
      · cases List.mem_singleton.mp h

/-- Every streaming call of a run is accounted for, so what is missing is the summaries. -/
theorem billed_iff (env : Environment) (config : LoopConfig) (d : Direction) (trace : List Event)
    (messages : List Message) :
    Billed env d trace (runEvents env config trace messages) ↔
      tally (summaryTokens env d) trace (runEvents env config trace messages) = 0 := by
  obtain ⟨events, htrace, hquota, htotal⟩ := run_owes_nothing env config d trace messages
  have hevents : events = runEvents env config trace messages :=
    List.append_cancel_left (htrace.symm.trans (run_trace env config trace messages))
  subst hevents
  have hquota : tally (quotaTokens d) trace (runEvents env config trace messages) =
      tally (streamTokens env d) trace (runEvents env config trace messages) := hquota
  have htotal : d.ofUsage (run env config trace messages).state.totalUsage =
      tally (streamTokens env d) trace (runEvents env config trace messages) := by
    have hzero : d.ofUsage (before env trace messages).totalUsage = 0 := by cases d <;> rfl
    rw [hzero, Nat.zero_add] at htotal
    exact htotal
  have hllm : tally (llmTokens env d) trace (runEvents env config trace messages) =
      tally (streamTokens env d) trace (runEvents env config trace messages) +
        tally (summaryTokens env d) trace (runEvents env config trace messages) := tally_add
  constructor
  · intro hbilled
    have hbill := hbilled.quota
    omega
  · intro hzero
    refine ⟨by omega, ?_⟩
    intro usage hmem
    rw [turnEnd_of_run hmem]
    omega

/-! ### The summaries -/

/-- The check has a summary made, and the provider reports tokens for it. -/
def SummaryReported (env : Environment) (config : LoopConfig) (s : State) : Prop :=
  ∃ slice response, Asks env config s slice ∧ env.complete (asked s slice).trace = .ok response ∧
    ∃ d, tokens d response.usage ≠ 0

/-- From one state to another the provider reports nothing for summaries. -/
def Unsummarized (env : Environment) (d : Direction) (s t : State) : Prop :=
  ∃ events, t.trace = s.trace ++ events ∧ tally (summaryTokens env d) s.trace events = 0

theorem frame_unsummarized (env : Environment) (d : Direction) : Prog.Frame (Unsummarized env d) where
  refl _ := ⟨[], by simp, rfl⟩
  trans s t u hst htu := by
    obtain ⟨es, htrace, hzero⟩ := hst
    obtain ⟨es', htrace', hzero'⟩ := htu
    rw [htrace] at htrace' hzero'
    refine ⟨es ++ es', by rw [htrace', List.append_assoc], ?_⟩
    rw [tally_append, hzero, hzero']

theorem Emits.unsummarized {s t : State} (h : Emits (fun event => event.isComplete = false) s t) :
    Unsummarized env d s t := by
  obtain ⟨events, htrace, hevents⟩ := h
  refine ⟨events, htrace, tally_eq_zero ?_⟩
  intro e he _
  have hcomplete := hevents e he
  cases e <;> first | rfl | exact absurd hcomplete nofun

theorem checkCompaction_unsummarized {s : State} (h : ¬ SummaryReported env config s) :
    Unsummarized env d s (checkCompaction env config s).state := by
  by_cases hasks : ∃ slice, Asks env config s slice
  · obtain ⟨slice, hasks⟩ := hasks
    obtain ⟨more, htrace, hmore⟩ := checkCompaction_trace hasks
    have hzero : summaryTokens env d s.trace (.complete (Compaction.summaryMessages slice)) = 0 := by
      cases hanswer : env.complete (s.trace ++ [.complete (Compaction.summaryMessages slice)]) with
      | error e => simp only [summaryTokens, hanswer]
      | ok response =>
          simp only [summaryTokens, hanswer]
          by_contra hne
          exact h ⟨slice, response, hasks, hanswer, d, hne⟩
    refine ⟨[.complete (Compaction.summaryMessages slice)] ++ more, ?_, ?_⟩
    · rw [htrace, List.append_assoc]
    · rw [tally_append, tally_singleton, hzero, tally_eq_zero]
      intro e he _
      have hcomplete := hmore e he
      cases e <;> first | rfl | exact absurd hcomplete nofun
  · rcases checkCompaction_cases env config s with ⟨_, hstate⟩ | ⟨slice, hasks', _⟩
    · rw [hstate]
      exact (frame_unsummarized env d).refl s
    · exact absurd ⟨slice, hasks'⟩ hasks

/-- The question of a check stands in the trace of the run, after what led to it. -/
theorem Checks.placed {trace : List Event} {messages slice : List Message} {s : State}
    (h : Checks env config trace messages s) (hasks : Asks env config s slice) :
    ∃ es es', s.trace = trace ++ es ∧ runEvents env config trace messages =
      es ++ .complete (Compaction.summaryMessages slice) :: es' := by
  obtain ⟨⟨es, hes⟩, late, hlate⟩ := h.grows
  obtain ⟨more, hmore, _⟩ := checkCompaction_trace hasks
  refine ⟨es, more ++ late, hes.symm, ?_⟩
  have hrun := run_trace env config trace messages
  rw [← hlate, hmore, ← hes] at hrun
  simp only [List.append_assoc] at hrun
  have hevents := List.append_cancel_left hrun
  rw [← hevents]
  rfl

theorem run_unsummarized {trace : List Event} {messages : List Message}
    (h : ∀ s, Checks env config trace messages s → ¬ SummaryReported env config s) :
    Unsummarized env d (before env trace messages) (run env config trace messages).state := by
  have hframe := frame_unsummarized env d
  have hinitial : Emits (fun event => event.isComplete = false) (before env trace messages)
      (initial env trace messages) := by
    refine ⟨[.clock, .clock], ?_, by simp [Event.isComplete]⟩
    simp [initial, before]
  refine hframe.trans _ _ _ hinitial.unsummarized (run_relates hframe ?_ ?_ ?_ ?_)
  · exact Prog.relates_mono (fun _ _ => Emits.unsummarized) preamble_asks_nothing
  · exact fun iteration => Prog.relates_mono (fun _ _ => Emits.unsummarized) (rest_asks_nothing iteration)
  · exact Prog.relates_mono (fun _ _ => Emits.unsummarized) epilogue_asks_nothing
  · exact fun s hs => checkCompaction_unsummarized (h s hs)

/-- A run is billed exactly where no summary it has made costs anything. -/
theorem run_billed_iff_no_summary_reported (env : Environment) (config : LoopConfig)
    (trace : List Event) (messages : List Message) :
    (∀ d, Billed env d trace (runEvents env config trace messages)) ↔
      ∀ s, Checks env config trace messages s → ¬ SummaryReported env config s := by
  constructor
  · intro hbilled s hchecks hreported
    obtain ⟨slice, response, hasks, hanswer, d, htokens⟩ := hreported
    have hzero := (billed_iff env config d trace messages).mp (hbilled d)
    obtain ⟨es, es', hs, hevents⟩ := hchecks.placed hasks
    have hworth : summaryTokens env d (trace ++ es) (.complete (Compaction.summaryMessages slice)) =
        tokens d response.usage := by
      have hanswer : env.complete (s.trace ++ [.complete (Compaction.summaryMessages slice)]) =
          .ok response := hanswer
      rw [hs] at hanswer
      simp only [summaryTokens, hanswer]
    have hle := @le_tally Event (summaryTokens env d) trace es
      (.complete (Compaction.summaryMessages slice)) es'
    rw [← hevents, hzero, hworth] at hle
    omega
  · intro hnone d
    rw [billed_iff]
    obtain ⟨events, htrace, hzero⟩ := run_unsummarized (d := d) hnone
    have hevents : events = runEvents env config trace messages :=
      List.append_cancel_left (htrace.symm.trans (run_trace env config trace messages))
    rw [← hevents]
    exact hzero

/-- The summary is made for a price. -/
def summarizing : Environment :=
  { speechless with
    complete _ := .ok ⟨[⟨some ⟨.assistant, some (.text "they look for a file"), none, none⟩, none, none⟩],
      some ⟨900, 40, 940, 0, 0, 0⟩⟩ }

/-- Nine hundred tokens went in for the summary, none of them reported. -/
theorem summary_tokens_unreported :
    tally (llmTokens summarizing .input) [] (runEvents summarizing tight [] threeMessages) = 900 ∧
      tally (quotaTokens .input) [] (runEvents summarizing tight [] threeMessages) = 0 ∧
      .turnEnd noUsage ∈ runEvents summarizing tight [] threeMessages ∧
      ¬ ∀ d, Billed summarizing d [] (runEvents summarizing tight [] threeMessages) := by
  have hllm : tally (llmTokens summarizing .input) [] (runEvents summarizing tight [] threeMessages) =
      900 := by decide +kernel
  have hquota : tally (quotaTokens .input) [] (runEvents summarizing tight [] threeMessages) = 0 := by decide +kernel
  refine ⟨hllm, hquota, ?_, ?_⟩
  · exact List.mem_of_getElem? (i := 9) rfl
  · intro hbilled
    have hbill := (hbilled .input).quota
    rw [hllm, hquota] at hbill
    cases hbill

end AgenticLoop

end Overacp
