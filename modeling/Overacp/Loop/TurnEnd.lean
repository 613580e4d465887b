import Overacp.Loop.Checks

/-!
# The end of a turn

A turn is over for the subscribers when its `turn/end` arrives. It is sent where the loop has been left,
and nowhere else; the only way past it is an error, which with the notifications written is the error of
a compaction check.
-/

namespace Overacp

namespace AgenticLoop

open Llm

/-! ### Notifications -/

def Event.isNotification : Event → Bool
  | heartbeat | streamTextDelta _ | streamActivity _ | streamToolCall .. | streamToolResult ..
  | contextCompacted .. | turnEnd _ => true
  | _ => false

def Event.isTurnEnd : Event → Bool
  | turnEnd _ => true
  | _ => false

def notifications (events : List Event) : List Event := events.filter Event.isNotification

/-- What a run adds to the events it is given. -/
def runEvents (env : Environment) (config : LoopConfig) (trace : List Event) (messages : List Message) :
    List Event := (run env config trace messages).state.trace.drop trace.length

/-- One `turn/end`, and no notification after it. -/
def EndsTurn (events : List Event) : Prop :=
  ∃ earlier usage, notifications events = earlier ++ [.turnEnd usage] ∧
    ∀ event ∈ earlier, event.isTurnEnd = false

/-- With an error or without one, the call comes back. -/
def Returns : Outcome State String Unit → Prop
  | .panic _ => False
  | _ => True

/-! ### Before the epilogue -/

theorem Event.isTurnEnd_of_routine (event : Event) (h : event.routine = true) :
    event.isTurnEnd = false := by
  cases event <;> first | rfl | exact absurd h nofun

variable {env : Environment} {config : LoopConfig}

theorem iterations_no_turnEnd (left iteration : Nat) (s : State) :
    Emits (fun event => event.isTurnEnd = false) s (iterations env config left iteration s).state := by
  let P : Event → Prop := fun event => event.isTurnEnd = false
  have hsteps := steps_emits (P := P) env Event.isTurnEnd_of_routine
  apply iterations_relates (frame_emits P) hsteps.preamble
  · exact hsteps.rest (fun _ _ => ask_emits (P := P) rfl _) (trackUsage_emits (P := P) fun _ _ => rfl)
      (fun _ _ _ => ask_emits (P := P) rfl _) fun _ _ _ => ask_emits (P := P) rfl _
  · intro s' _
    exact checkCompaction_emits (fun _ => rfl) (fun _ _ _ => rfl) s'

/-- Where the loop has been left without an error, the epilogue follows. -/
theorem run_of_left {trace : List Event} {messages : List Message} {s : State}
    (h : iterations env config config.maxIterations 0 (initial env trace messages) = .next () s ∨
      iterations env config config.maxIterations 0 (initial env trace messages) = .stop s) :
    run env config trace messages = epilogue s := by
  unfold run
  rcases h with h | h
  · rw [h]
  · rw [h]

/-- What a run adds before it leaves its loop. -/
theorem iterations_trace (env : Environment) (config : LoopConfig) (trace : List Event)
    (messages : List Message) :
    ∃ events, (iterations env config config.maxIterations 0 (initial env trace messages)).state.trace =
      trace ++ events ∧ ∀ event ∈ events, event.isTurnEnd = false := by
  obtain ⟨events, hevents, hnone⟩ :=
    @iterations_no_turnEnd env config config.maxIterations 0 (initial env trace messages)
  refine ⟨.clock :: .clock :: events, ?_, ?_⟩
  · rw [hevents]
    simp [initial]
  · intro event hevent
    rcases List.mem_cons.mp hevent with rfl | hevent
    · rfl
    · rcases List.mem_cons.mp hevent with rfl | hevent
      · rfl
      · exact hnone event hevent

/-! ### The epilogue -/

theorem epilogue_endsTurn {trace events : List Event} {s : State} (htrace : s.trace = trace ++ events)
    (hnone : ∀ event ∈ events, event.isTurnEnd = false) :
    EndsTurn ((epilogue s).state.trace.drop trace.length) := by
  have hend : (epilogue s).state.trace.drop trace.length =
      events ++ [.turnEnd s.totalUsage,
        .finalize s.totalUsage.totalTokens s.totalUsage.cost s.toolCount s.responseText] := by
    show (s.trace ++ [_] ++ [_]).drop _ = _
    rw [htrace, List.append_assoc, List.append_assoc, List.drop_left]
    rfl
  refine ⟨notifications events, s.totalUsage, ?_, ?_⟩
  · rw [hend, notifications, List.filter_append]
    rfl
  · intro event hevent
    exact hnone event (List.mem_of_mem_filter hevent)

theorem not_endsTurn {events : List Event} (hnone : ∀ event ∈ events, event.isTurnEnd = false) :
    ¬ EndsTurn events := by
  intro hends
  obtain ⟨earlier, usage, hevents, _⟩ := hends
  have hmem : Event.turnEnd usage ∈ notifications events := by
    rw [hevents]
    exact List.mem_append_right _ (List.mem_singleton.mpr rfl)
  exact absurd (hnone _ (List.mem_of_mem_filter hmem)) nofun

/-- Where notifications are written. -/
theorem turn_ends_iff_no_compaction_fails {env : Environment}
    (hnotify : ∀ trace, env.notify trace = .ok ()) (config : LoopConfig) (trace : List Event)
    (messages : List Message) :
    (Returns (run env config trace messages) → EndsTurn (runEvents env config trace messages)) ↔
      ∀ s, Checks env config trace messages s → ¬ CompactionFails env config s := by
  have hfails := @iterations_fails_iff env config hnotify config.maxIterations 0
    (initial env trace messages)
  obtain ⟨events, htrace, hnone⟩ := iterations_trace env config trace messages
  have hends : (∃ e t, iterations env config config.maxIterations 0 (initial env trace messages) =
      .fail e t) ↔ ¬ (Returns (run env config trace messages) →
        EndsTurn (runEvents env config trace messages)) := by
    unfold runEvents
    cases houtcome : iterations env config config.maxIterations 0 (initial env trace messages) with
    | next _ s | stop s =>
        rw [houtcome] at htrace
        rw [run_of_left (s := s) (by rw [houtcome]; simp)]
        constructor
        · intro hfail
          obtain ⟨e, t, hfail⟩ := hfail
          cases hfail
        · intro hnot
          exact absurd (fun _ => epilogue_endsTurn htrace hnone) hnot
    | fail e s =>
        have hrun : run env config trace messages = .fail e s := by rw [run, houtcome]
        rw [houtcome] at htrace
        rw [hrun]
        constructor
        · intro _ himp
          have hends := himp trivial
          have hstate : s.trace = trace ++ events := htrace
          rw [Outcome.state, hstate, List.drop_left] at hends
          exact not_endsTurn hnone hends
        · intro _
          exact ⟨e, s, rfl⟩
    | panic s =>
        have hrun : run env config trace messages = .panic s := by rw [run, houtcome]
        rw [hrun]
        constructor
        · intro hfail
          obtain ⟨e, t, hfail⟩ := hfail
          cases hfail
        · intro hnot
          exact absurd (fun himp => absurd himp id) hnot
  rw [← not_iff_not, ← hends, hfails]
  simp only [Checks, not_forall, not_not, exists_prop]

/-- Nothing goes wrong but the summary. -/
def unsummarized : Environment := { speechless with complete _ := .error "502 Bad Gateway" }

theorem turn_ends_unsummarized_iff :
    (Returns (run unsummarized tight [] threeMessages) →
        EndsTurn (runEvents unsummarized tight [] threeMessages)) ↔
      ∀ s, Checks unsummarized tight [] threeMessages s → ¬ CompactionFails unsummarized tight s :=
  turn_ends_iff_no_compaction_fails (fun _ => rfl) tight [] threeMessages

/-- The call comes back with the error of the summary, and no `turn/end` has been sent. -/
theorem failed_summary_skips_turn_end :
    (∀ trace, unsummarized.notify trace = .ok ()) ∧ Returns (run unsummarized tight [] threeMessages) ∧
      notifications (runEvents unsummarized tight [] threeMessages) = [] ∧
      ¬ EndsTurn (runEvents unsummarized tight [] threeMessages) := by
  have hrun : run unsummarized tight [] threeMessages =
      .fail "502 Bad Gateway" (run unsummarized tight [] threeMessages).state := by rfl
  refine ⟨fun _ => rfl, ?_, by rfl, not_endsTurn (by decide +kernel)⟩
  rw [hrun]
  trivial

end AgenticLoop

end Overacp
