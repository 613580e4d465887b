import Overacp.Lib.ProgLoop
import Overacp.Loop.ToolRound

/-!
# The compaction checks of a turn

The states in which a turn comes to its compaction checks, and two rules for a turn as a whole: what
every part but the checks respects the turn respects, if the checks it comes to do; and where writing a
notification never fails, only a check ends the turn in an error.
-/

namespace Overacp

namespace AgenticLoop

open Llm

variable (env : Environment) (config : LoopConfig)

/-- The iterations, from one on and as many as are left, come to a compaction check in this state. -/
abbrev CheckedAt : Nat → Nat → State → State → Prop :=
  Prog.Reaches (preamble env config) (iterate env config)

/-- The states in which a run on a history, after the given events, comes to a compaction check. -/
def Checks (trace : List Event) (messages : List Message) (s : State) : Prop :=
  CheckedAt env config config.maxIterations 0 (initial env trace messages) s

variable {env config}

/-! ### What a check comes to -/

/-- The check asks the language model to summarize these messages. -/
structure Asks (env : Environment) (config : LoopConfig) (s : State) (slice : List Message) : Prop where
  due : Due env config s
  toCompact : Compaction.toCompact s.messages config.compactionKeepRecent = some slice

theorem Asks.unique {s : State} {slice slice' : List Message} (h : Asks env config s slice)
    (h' : Asks env config s slice') : slice' = slice :=
  Option.some.inj (h'.toCompact.symm.trans h.toCompact)

theorem adopt_state (result : Compaction.CompactionResult) (s : State) :
    (adopt result s).state =
      { s with
        trace := s.trace ++ (if result.summary = "" then []
          else [.contextCompacted result.summary result.canonicalMessages s.totalUsage])
        messages := result.workingMessages
        compactionCount := s.compactionCount + if result.summary = "" then 0 else 1 } := by
  by_cases hempty : result.summary = ""
  · rw [adopt_empty hempty, if_pos hempty, if_pos hempty, List.append_nil, Nat.add_zero]
  · rw [adopt_nonempty hempty, if_neg hempty, if_neg hempty]

/-- Nothing is asked and nothing changes, or the question fails, or a round is performed. -/
theorem checkCompaction_cases (env : Environment) (config : LoopConfig) (s : State) :
    ((∀ slice, ¬ Asks env config s slice) ∧ (checkCompaction env config s).state = s) ∨
      ∃ slice, Asks env config s slice ∧
        ((∃ e, summaryAnswer env s slice = .error e ∧
            (checkCompaction env config s).state = asked s slice) ∨
          ∃ summary, Round env config s slice summary ∧ (checkCompaction env config s).state =
            (adopt (Compaction.compacted s.messages config.compactionKeepRecent summary)
              (asked s slice)).state) := by
  by_cases hdue : Due env config s
  · cases hslice : Compaction.toCompact s.messages config.compactionKeepRecent with
    | none =>
        left
        refine ⟨fun slice hasks => ?_, ?_⟩
        · rw [hasks.toCompact] at hslice
          cases hslice
        · rw [checkCompaction_due hdue, compactMessages_none hslice]
          exact adopt_empty rfl s
    | some slice =>
        right
        refine ⟨slice, ⟨hdue, hslice⟩, ?_⟩
        cases hanswer : summaryAnswer env s slice with
        | error e =>
            left
            refine ⟨e, rfl, ?_⟩
            rw [checkCompaction_due hdue, compactMessages_error hslice hanswer]
            rfl
        | ok summary =>
            have hround : Round env config s slice summary := ⟨hdue, hslice, hanswer⟩
            exact .inr ⟨summary, hround, hround.state_eq⟩
  · left
    exact ⟨fun slice hasks => hdue hasks.due, checkCompaction_not_due hdue⟩

def Event.isComplete : Event → Bool
  | complete _ => true
  | _ => false

theorem checkCompaction_trace {s : State} {slice : List Message} (h : Asks env config s slice) :
    ∃ more, (checkCompaction env config s).state.trace =
      s.trace ++ [.complete (Compaction.summaryMessages slice)] ++ more ∧
        ∀ event ∈ more, event.isComplete = false := by
  rcases checkCompaction_cases env config s with ⟨hnone, _⟩ | ⟨slice', hasks, hcases⟩
  · exact absurd h (hnone slice)
  · rw [h.unique hasks] at hcases
    rcases hcases with ⟨e, _, hstate⟩ | ⟨summary, _, hstate⟩
    · exact ⟨[], by rw [hstate, List.append_nil]; rfl, by simp⟩
    · rw [hstate, adopt_state]
      refine ⟨_, rfl, ?_⟩
      intro event hevent
      split at hevent
      · cases hevent
      · rw [List.mem_singleton.mp hevent]
        rfl

/-! ### What a turn respects -/

theorem iterations_eq_loop (left iteration : Nat) :
    iterations env config left iteration = Prog.loop (iterate env config) left iteration := by
  induction left generalizing iteration with
  | zero => rfl
  | succ left ih =>
      unfold iterations Prog.loop
      rw [ih]

theorem iterations_relates {R : State → State → Prop} (hR : Prog.Frame R)
    (hpreamble : Prog.Relates R (preamble env config))
    (hrest : ∀ iteration, Prog.Relates R (rest env config iteration)) {left iteration : Nat} {s : State}
    (hcheck : ∀ s', CheckedAt env config left iteration s s' →
      R s' (checkCompaction env config s').state) :
    R s (iterations env config left iteration s).state := by
  rw [iterations_eq_loop]
  exact Prog.loop_relates (fun _ => rfl) hR hpreamble hrest hcheck

/-- Where the loop was left, a run may add its epilogue. -/
theorem run_state (env : Environment) (config : LoopConfig) (trace : List Event) (messages : List Message) :
    (run env config trace messages).state =
        (iterations env config config.maxIterations 0 (initial env trace messages)).state ∨
      (run env config trace messages).state =
        (epilogue (iterations env config config.maxIterations 0 (initial env trace messages)).state).state := by
  unfold run
  cases iterations env config config.maxIterations 0 (initial env trace messages) with
  | next _ s | stop s => exact .inr rfl
  | fail _ s | panic s => exact .inl rfl

/-- A run respects what its parts respect, its checks where it comes to them. -/
theorem run_relates {R : State → State → Prop} (hR : Prog.Frame R)
    (hpreamble : Prog.Relates R (preamble env config))
    (hrest : ∀ iteration, Prog.Relates R (rest env config iteration)) (hepilogue : Prog.Relates R epilogue)
    {trace : List Event} {messages : List Message}
    (hcheck : ∀ s', Checks env config trace messages s' → R s' (checkCompaction env config s').state) :
    R (initial env trace messages) (run env config trace messages).state := by
  have hloop := iterations_relates hR hpreamble hrest hcheck
  rcases run_state env config trace messages with hstate | hstate
  · rw [hstate]
    exact hloop
  · rw [hstate]
    exact hR.trans _ _ _ hloop (hepilogue _)

/-! ### Where summaries are asked for -/

theorem steps_ask_nothing (env : Environment) :
    Steps env fun α (m : Loop α) => Prog.Relates (Emits fun event => event.isComplete = false) m :=
  steps_emits env fun event h => by cases event <;> first | rfl | exact absurd h nofun

theorem preamble_asks_nothing :
    Prog.Relates (Emits fun event => event.isComplete = false) (preamble env config) :=
  (steps_ask_nothing env).preamble

theorem rest_asks_nothing (iteration : Nat) :
    Prog.Relates (Emits fun event => event.isComplete = false) (rest env config iteration) := by
  let P : Event → Prop := fun event => event.isComplete = false
  exact (steps_ask_nothing env).rest (fun _ _ => ask_emits (P := P) rfl _)
    (trackUsage_emits (P := P) fun _ _ => rfl) (fun _ _ _ => ask_emits (P := P) rfl _)
    (fun _ _ _ => ask_emits (P := P) rfl _) iteration

theorem epilogue_asks_nothing :
    Prog.Relates (Emits fun event => event.isComplete = false) epilogue := by
  let P : Event → Prop := fun event => event.isComplete = false
  apply (frame_emits P).bind (frame_emits P).get
  intro s
  apply (frame_emits P).bind (ask_emits (P := P) rfl _)
  intro _
  exact ask_emits (P := P) rfl _

/-! ### The trace grows -/

/-- Events were added and none taken away. -/
def Grows (s t : State) : Prop := s.trace <+: t.trace

theorem frame_grows : Prog.Frame Grows where
  refl _ := List.prefix_refl _
  trans _ _ _ := List.IsPrefix.trans

theorem Emits.grows {P : Event → Prop} {s t : State} (h : Emits P s t) : Grows s t := by
  obtain ⟨events, hevents, _⟩ := h
  exact ⟨events, hevents.symm⟩

theorem relates_grows {α : Type} {P : Event → Prop} {m : Loop α} (h : Prog.Relates (Emits P) m) :
    Prog.Relates Grows m := Prog.relates_mono (fun _ _ => Emits.grows) h

theorem checkCompaction_grows : Prog.Relates Grows (checkCompaction env config) :=
  relates_grows (P := fun _ => True) (checkCompaction_emits (fun _ => trivial) fun _ _ _ => trivial)

theorem run_grows (env : Environment) (config : LoopConfig) (trace : List Event)
    (messages : List Message) : trace <+: (run env config trace messages).state.trace := by
  have hrun : Grows (initial env trace messages) (run env config trace messages).state := by
    apply run_relates frame_grows (relates_grows preamble_asks_nothing)
    · exact fun iteration => relates_grows (rest_asks_nothing iteration)
    · exact relates_grows epilogue_asks_nothing
    · exact fun s _ => checkCompaction_grows s
  refine List.IsPrefix.trans ?_ hrun
  show trace <+: trace ++ [.clock] ++ [.clock]
  rw [List.append_assoc]
  exact List.prefix_append _ _

/-- The events up to a check, and those of the check, are among the events of the run. -/
theorem Checks.grows {trace : List Event} {messages : List Message} {s : State}
    (h : Checks env config trace messages s) : trace <+: s.trace ∧
      (checkCompaction env config s).state.trace <+: (run env config trace messages).state.trace := by
  have hrelates : Grows (initial env trace messages) s ∧ Grows (checkCompaction env config s).state
      (Prog.loop (iterate env config) config.maxIterations 0 (initial env trace messages)).state :=
    h.relates (fun _ => rfl) frame_grows (relates_grows preamble_asks_nothing) checkCompaction_grows
      fun iteration => relates_grows (rest_asks_nothing iteration)
  rw [← iterations_eq_loop] at hrelates
  obtain ⟨hbefore, hafter⟩ := hrelates
  constructor
  · refine List.IsPrefix.trans ?_ hbefore
    show trace <+: trace ++ [.clock] ++ [.clock]
    rw [List.append_assoc]
    exact List.prefix_append _ _
  · rcases run_state env config trace messages with hstate | hstate
    · rw [hstate]
      exact hafter
    · rw [hstate]
      exact hafter.trans (relates_grows epilogue_asks_nothing _)

/-! ### Where a turn ends in an error -/

theorem ask_unfailing {α : Type} (event : Event) (answer : List Event → α) :
    Prog.Unfailing (ask event answer) := fun _ _ _ => nofun

theorem steps_unfailing (hnotify : ∀ trace, env.notify trace = .ok ()) :
    Steps env fun α (m : Loop α) => Prog.Unfailing m where
  toClosed := Prog.unfailing_closed
  ask _ answer := ask_unfailing _ answer
  notify {event} _ := by
    intro s e t
    simp only [notifyOrFail, Prog.run_bind, ask, Outcome.andThen, hnotify]
    intro hfail
    cases hfail
  heartbeat _ := Prog.unfailing_modify _
  push _ := Prog.unfailing_modify _
  nudged := Prog.unfailing_modify _
  text _ := Prog.unfailing_modify _
  silence _ := Prog.unfailing_modify _
  counted := Prog.unfailing_modify _

theorem trackUsage_unfailing (usage : Option Usage) : Prog.Unfailing (trackUsage usage) := by
  cases usage with
  | none => exact Prog.unfailing_closed.pure ()
  | some usage => exact (Prog.unfailing_modify _).bind fun _ => ask_unfailing _ _

/-- The check is due, there is something to summarize, and no summary comes of it. -/
def CompactionFails (env : Environment) (config : LoopConfig) (s : State) : Prop :=
  Due env config s ∧ ∃ slice e, Compaction.toCompact s.messages config.compactionKeepRecent = some slice ∧
    summaryAnswer env s slice = .error e

theorem adopt_unfailing (result : Compaction.CompactionResult) : Prog.Unfailing (adopt result) := by
  apply Prog.unfailing_closed.bind Prog.unfailing_closed.get
  intro s
  dsimp only
  split
  · apply (ask_unfailing _ _).bind
    intro _
    exact (Prog.unfailing_modify _).bind fun _ => Prog.unfailing_modify _
  · exact Prog.unfailing_modify _

theorem logPercentage_unfailing (enabled : Bool) : Prog.Unfailing (logPercentage config enabled) := by
  unfold logPercentage
  split
  · exact Prog.unfailing_closed.panic
  · exact Prog.unfailing_closed.pure ()

theorem checkCompaction_not_due_ne_fail {s : State} (h : ¬ Due env config s) (e : String) (t : State) :
    checkCompaction env config s ≠ .fail e t := by
  simp only [checkCompaction, Prog.run_bind, Prog.run_get, Outcome.andThen]
  split
  · split
    · have hlog : env.infoEnabled = true ∧ config.contextWindow = 0 := by
        by_contra hlog
        exact h ⟨‹_›, ‹_›, hlog⟩
      simp only [logPercentage, if_pos hlog, Prog.run_bind, Prog.run_panic, Outcome.andThen]
      intro hfail
      cases hfail
    · exact logPercentage_unfailing _ s e t
  · intro hfail
    cases hfail

theorem checkCompaction_fails_iff (s : State) :
    (∃ e t, checkCompaction env config s = .fail e t) ↔ CompactionFails env config s := by
  constructor
  · intro hfail
    obtain ⟨e, t, hfail⟩ := hfail
    have hdue : Due env config s := by
      by_contra hdue
      exact checkCompaction_not_due_ne_fail hdue e t hfail
    refine ⟨hdue, ?_⟩
    rw [checkCompaction_due hdue] at hfail
    cases hslice : Compaction.toCompact s.messages config.compactionKeepRecent with
    | none =>
        rw [compactMessages_none hslice] at hfail
        exact absurd hfail (adopt_unfailing _ s e t)
    | some slice =>
        cases hanswer : summaryAnswer env s slice with
        | error e' => exact ⟨slice, e', rfl, hanswer⟩
        | ok summary =>
            rw [compactMessages_ok hslice hanswer] at hfail
            exact absurd hfail (adopt_unfailing _ _ e t)
  · intro hfails
    obtain ⟨hdue, slice, e, hslice, hanswer⟩ := hfails
    refine ⟨e, asked s slice, ?_⟩
    rw [checkCompaction_due hdue, compactMessages_error hslice hanswer]
    rfl

theorem iterate_fails_iff (hnotify : ∀ trace, env.notify trace = .ok ()) (iteration : Nat) (s : State) :
    (∃ e t, iterate env config iteration s = .fail e t) ↔
      ∃ s', preamble env config s = .next () s' ∧ CompactionFails env config s' := by
  show (∃ e t, (preamble env config s).andThen _ = .fail e t) ↔ _
  cases hpreamble : preamble env config s with
  | next value s' =>
      have hrest : Prog.Unfailing (rest env config iteration) :=
        (steps_unfailing hnotify).rest (fun _ _ => ask_unfailing _ _) trackUsage_unfailing
          (fun _ _ _ => ask_unfailing _ _) (fun _ _ _ => ask_unfailing _ _) iteration
      have hstep : (∃ e t, (checkCompaction env config >>= fun _ => rest env config iteration) s' =
          .fail e t) ↔ CompactionFails env config s' := by
        rw [← checkCompaction_fails_iff]
        show (∃ e t, (checkCompaction env config s').andThen _ = .fail e t) ↔ _
        cases hcheck : checkCompaction env config s' with
        | next value t =>
            constructor
            · intro hfail
              obtain ⟨e, u, hfail⟩ := hfail
              exact absurd hfail (hrest t e u)
            · intro hfail
              obtain ⟨e, u, hfail⟩ := hfail
              cases hfail
        | stop t | fail _ t | panic t => exact Iff.rfl
      refine hstep.trans ?_
      constructor
      · intro hfails
        exact ⟨s', rfl, hfails⟩
      · intro hfails
        obtain ⟨s₁, hs₁, hfails⟩ := hfails
        cases hs₁
        exact hfails
  | stop s' | panic s' =>
      constructor
      · intro hfail
        obtain ⟨e, t, hfail⟩ := hfail
        cases hfail
      · intro hfails
        obtain ⟨s₁, hs₁, _⟩ := hfails
        cases hs₁
  | fail e s' => exact absurd hpreamble ((steps_unfailing hnotify).preamble s e s')

/-- Where notifications are written, only a failed summary ends the iterations in an error. -/
theorem iterations_fails_iff (hnotify : ∀ trace, env.notify trace = .ok ()) (left iteration : Nat)
    (s : State) :
    (∃ e t, iterations env config left iteration s = .fail e t) ↔
      ∃ s', CheckedAt env config left iteration s s' ∧ CompactionFails env config s' := by
  induction left generalizing iteration s with
  | zero =>
      constructor
      · intro hfail
        obtain ⟨e, t, hfail⟩ := hfail
        cases hfail
      · intro hfails
        obtain ⟨s', hchecked, _⟩ := hfails
        cases hchecked
  | succ left ih =>
      have hiterate := @iterate_fails_iff env config hnotify iteration s
      constructor
      · intro hfail
        obtain ⟨e, u, hfail⟩ := hfail
        have hfail : (iterate env config iteration s).andThen
            (fun _ => iterations env config left (iteration + 1)) = .fail e u := hfail
        cases houtcome : iterate env config iteration s with
        | next value t =>
            rw [houtcome] at hfail
            obtain ⟨s', hchecked, hfails⟩ := (ih (iteration + 1) t).mp ⟨e, u, hfail⟩
            exact ⟨s', .later houtcome hchecked, hfails⟩
        | fail e' t =>
            obtain ⟨s', hs', hfails⟩ := hiterate.mp ⟨e', t, houtcome⟩
            exact ⟨s', .here hs', hfails⟩
        | stop t | panic t =>
            rw [houtcome] at hfail
            cases hfail
      · intro hfails
        obtain ⟨s', hchecked, hfails⟩ := hfails
        show ∃ e u, (iterate env config iteration s).andThen
          (fun _ => iterations env config left (iteration + 1)) = .fail e u
        cases hchecked with
        | here hs' =>
            obtain ⟨e, t, hfail⟩ := hiterate.mpr ⟨s', hs', hfails⟩
            exact ⟨e, t, by rw [hfail]; rfl⟩
        | later houtcome hrest =>
            rw [houtcome]
            exact (ih (iteration + 1) _).mpr ⟨s', hrest, hfails⟩

end AgenticLoop

end Overacp
