import Overacp.Loop.Footprint

/-!
# Compaction rounds

`compact_messages` decides whether older messages go; the loop infers it from the summary. This module
follows one iteration, from any state and in any environment, up to the end of its compaction check,
and says when the two agree.
-/

namespace Overacp

open Llm

/-! ### The parts of a history -/

namespace Compaction

variable {messages slice : List Message} {keepRecent : Nat}

theorem systemMsg_toList (messages : List Message) :
    (systemMsg messages).toList = messages.take (start messages) := by
  cases messages with
  | nil => rfl
  | cons m ms =>
      by_cases hrole : m.role = .system
      · simp [systemMsg, start, hrole]
      · simp [systemMsg, start, hrole]

theorem toCompact_some (h : toCompact messages keepRecent = some slice) :
    start messages < splitPoint messages keepRecent ∧
      slice = (messages.take (splitPoint messages keepRecent)).drop (start messages) := by
  unfold toCompact at h
  by_cases hskip : messages.length ≤ keepRecent + 2 ∨ splitPoint messages keepRecent ≤ start messages
  · rw [if_pos hskip] at h
    exact absurd h (by simp)
  · rw [if_neg hskip] at h
    exact ⟨by omega, (Option.some.inj h).symm⟩

/-- System prompt, what is summarized, what is kept. -/
theorem parts_of_toCompact (h : toCompact messages keepRecent = some slice) :
    messages = (systemMsg messages).toList ++ slice ++ recent messages keepRecent := by
  obtain ⟨hlt, rfl⟩ := toCompact_some h
  have htake : messages.take (start messages) =
      (messages.take (splitPoint messages keepRecent)).take (start messages) := by
    rw [List.take_take, Nat.min_eq_left (by omega)]
  rw [systemMsg_toList, htake, List.take_append_drop]
  exact (List.take_append_drop _ _).symm

/-- The working context is the old one only if all that went was this very summary. -/
theorem workingMessages_eq_iff (h : toCompact messages keepRecent = some slice) (summary : String) :
    (compacted messages keepRecent summary).workingMessages = messages ↔
      slice = [compactedContext summary] := by
  have hparts := parts_of_toCompact h
  have hworking : (compacted messages keepRecent summary).workingMessages =
      (systemMsg messages).toList ++ [compactedContext summary] ++ recent messages keepRecent := by
    simp [compacted]
  constructor
  · intro heq
    rw [hworking] at heq
    exact (List.append_cancel_left (List.append_cancel_right (heq.trans hparts))).symm
  · intro heq
    rw [hworking, ← heq]
    exact hparts.symm

end Compaction

namespace AgenticLoop

variable (env : Environment) (config : LoopConfig)

/-! ### What is emitted -/

/-- The summary and the messages of a `context/compacted` notification. -/
def Event.compaction? : Event → Option (String × List Message)
  | contextCompacted summary messages _ => some (summary, messages)
  | _ => none

def emitted (s : State) : List (String × List Message) := s.trace.filterMap Event.compaction?

/-- Messages are appended at most: no notification, no round. -/
structure Appends (s t : State) : Prop where
  messages : s.messages <+: t.messages
  emitted : emitted t = emitted s
  compactionCount : t.compactionCount = s.compactionCount

theorem frame_appends : Prog.Frame Appends where
  refl _ := ⟨List.prefix_refl _, rfl, rfl⟩
  trans _ _ _ hst htu :=
    ⟨hst.messages.trans htu.messages, htu.emitted.trans hst.emitted,
      htu.compactionCount.trans hst.compactionCount⟩

/-- The existing messages, the notifications and the count are left as they are. -/
structure Untouched (s t : State) : Prop where
  messages : t.messages = s.messages
  emitted : emitted t = emitted s
  compactionCount : t.compactionCount = s.compactionCount

theorem frame_untouched : Prog.Frame Untouched where
  refl _ := ⟨rfl, rfl, rfl⟩
  trans _ _ _ hst htu :=
    ⟨htu.messages.trans hst.messages, htu.emitted.trans hst.emitted,
      htu.compactionCount.trans hst.compactionCount⟩

theorem Untouched.appends {s t : State} (h : Untouched s t) : Appends s t :=
  ⟨by rw [h.messages], h.emitted, h.compactionCount⟩

/-- Older messages give way to their summary, and one notification carries it and the survivors. -/
structure Compacted (s t : State) (summary : String) (removed surviving : List Message) : Prop where
  before : s.messages = (Compaction.systemMsg s.messages).toList ++ removed ++ surviving
  after : t.messages =
    (Compaction.systemMsg s.messages).toList ++ Compaction.compactedContext summary :: surviving
  emitted : emitted t = emitted s ++ [(summary, surviving)]
  compactionCount : t.compactionCount = s.compactionCount + 1

/-- A removal is announced and counted; without one the messages are left alone. -/
def Accounted (s t : State) : Prop :=
  Untouched s t ∨ ∃ summary removed surviving, Compacted s t summary removed surviving

/-! ### Programs that leave the messages alone -/

theorem ask_untouched {α : Type} {event : Event} (h : event.compaction? = none)
    (answer : List Event → α) : Prog.Relates Untouched (ask event answer) := by
  intro s
  refine ⟨rfl, ?_, rfl⟩
  show (s.trace ++ [event]).filterMap Event.compaction? = _
  rw [List.filterMap_append, List.filterMap_cons_none h, List.filterMap_nil, List.append_nil]
  rfl

theorem tell_untouched {event : Event} (h : event.compaction? = none) :
    Prog.Relates Untouched (tell event) := ask_untouched h _

theorem Event.compaction?_of_routine {event : Event} (h : event.routine = true) :
    event.compaction? = none := by
  cases event <;> first | rfl | exact absurd h nofun

theorem routine_untouched : Routine env fun α (m : Loop α) => Prog.Relates Untouched m where
  toClosed := frame_untouched.closed
  ask hevent answer := ask_untouched (Event.compaction?_of_routine hevent) answer
  notify hevent := notifyOrFail_relates frame_untouched (ask_untouched (Event.compaction?_of_routine hevent) _)
  heartbeat _ := Prog.relates_modify fun _ => ⟨rfl, rfl, rfl⟩

theorem preamble_untouched : Prog.Relates Untouched (preamble env config) :=
  (routine_untouched env).preamble

theorem callLlm_untouched : Prog.Relates Untouched (callLlm env config) :=
  (routine_untouched env).callLlm (fun _ => Prog.relates_modify fun _ => ⟨rfl, rfl, rfl⟩)
    fun _ _ => ask_untouched rfl _

theorem trackUsage_untouched (usage : Option Usage) : Prog.Relates Untouched (trackUsage usage) := by
  cases usage with
  | none => exact frame_untouched.pure ()
  | some usage =>
      apply frame_untouched.bind
      · exact Prog.relates_modify fun _ => ⟨rfl, rfl, rfl⟩
      · intro _
        exact tell_untouched rfl

/-! ### Programs that append messages -/

theorem relates_appends {α : Type} {m : Loop α} (h : Prog.Relates Untouched m) :
    Prog.Relates Appends m := Prog.relates_mono (fun _ _ => Untouched.appends) h

theorem steps_appends : Steps env fun α (m : Loop α) => Prog.Relates Appends m where
  toClosed := frame_appends.closed
  ask hevent answer := relates_appends ((routine_untouched env).ask hevent answer)
  notify hevent := relates_appends ((routine_untouched env).notify hevent)
  heartbeat _ := Prog.relates_modify fun _ => ⟨List.prefix_refl _, rfl, rfl⟩
  push _ := Prog.relates_modify fun _ => ⟨List.prefix_append _ _, rfl, rfl⟩
  nudged := Prog.relates_modify fun _ => ⟨List.prefix_refl _, rfl, rfl⟩
  text _ := Prog.relates_modify fun _ => ⟨List.prefix_refl _, rfl, rfl⟩
  silence _ := Prog.relates_modify fun _ => ⟨List.prefix_refl _, rfl, rfl⟩
  counted := Prog.relates_modify fun _ => ⟨List.prefix_refl _, rfl, rfl⟩

theorem rest_appends (iteration : Nat) : Prog.Relates Appends (rest env config iteration) :=
  (steps_appends env).rest (fun _ _ => relates_appends (ask_untouched rfl _))
    (fun usage => relates_appends (trackUsage_untouched usage)) (fun _ _ _ => relates_appends (tell_untouched rfl))
    (fun _ _ _ => relates_appends (tell_untouched rfl)) iteration

/-! ### The compaction check -/

/-- Whether the check, in this state, goes on to `compact_messages`. -/
def Due (s : State) : Prop :=
  config.overThreshold (Compaction.estimateTokens s.messages) = true ∧
    s.compactionCount < config.maxCompactions ∧ ¬ (env.infoEnabled = true ∧ config.contextWindow = 0)

def asked (s : State) (slice : List Message) : State :=
  { s with trace := s.trace ++ [.complete (Compaction.summaryMessages slice)] }

/-- The summary of `slice` that the language model is about to give. -/
def summaryAnswer (s : State) (slice : List Message) : Except String String :=
  env.complete (asked s slice).trace >>= Compaction.summaryOf

variable {env config} {s : State} {slice : List Message} {summary : String} {keepRecent : Nat}

theorem compactMessages_none (h : Compaction.toCompact s.messages keepRecent = none) :
    compactMessages env s.messages keepRecent s = .next (Compaction.unchanged s.messages) s := by
  simp only [compactMessages, h, Prog.run_pure]

theorem compactMessages_ok (h : Compaction.toCompact s.messages keepRecent = some slice)
    (hanswer : summaryAnswer env s slice = .ok summary) :
    compactMessages env s.messages keepRecent s =
      .next (Compaction.compacted s.messages keepRecent summary) (asked s slice) := by
  simp only [compactMessages, h, Prog.run_bind, ask, Outcome.andThen]
  unfold summaryAnswer at hanswer
  cases hcomplete : env.complete (asked s slice).trace with
  | error e =>
      rw [hcomplete] at hanswer
      exact absurd hanswer (by simp [bind, Except.bind])
  | ok response =>
      rw [hcomplete] at hanswer
      have hsummary : Compaction.summaryOf response = .ok summary := hanswer
      simp only [asked] at hcomplete
      simp only [hcomplete, hsummary, Prog.run_pure, asked]

theorem compactMessages_error {e : String} (h : Compaction.toCompact s.messages keepRecent = some slice)
    (hanswer : summaryAnswer env s slice = .error e) :
    compactMessages env s.messages keepRecent s = .fail e (asked s slice) := by
  simp only [compactMessages, h, Prog.run_bind, ask, Outcome.andThen]
  unfold summaryAnswer at hanswer
  cases hcomplete : env.complete (asked s slice).trace with
  | error e' =>
      rw [hcomplete] at hanswer
      have he : e' = e := by simpa [bind, Except.bind] using hanswer
      simp only [asked] at hcomplete
      simp only [hcomplete, he, Prog.run_fail, asked]
  | ok response =>
      rw [hcomplete] at hanswer
      have hsummary : Compaction.summaryOf response = .error e := hanswer
      simp only [asked] at hcomplete
      simp only [hcomplete, hsummary, Prog.run_fail, asked]

theorem checkCompaction_due (h : Due env config s) :
    checkCompaction env config s =
      (compactMessages env s.messages config.compactionKeepRecent s).andThen adopt := by
  obtain ⟨hover, hcount, hlog⟩ := h
  simp only [checkCompaction, Prog.run_bind, Prog.run_get, Outcome.andThen, if_pos hover, if_pos hcount,
    logPercentage, if_neg hlog, Prog.run_pure]

theorem checkCompaction_not_due (h : ¬ Due env config s) :
    (checkCompaction env config s).state = s := by
  simp only [checkCompaction, Prog.run_bind, Prog.run_get, Outcome.andThen]
  by_cases hover : config.overThreshold (Compaction.estimateTokens s.messages) = true
  · rw [if_pos hover]
    by_cases hcount : s.compactionCount < config.maxCompactions
    · have hlog : env.infoEnabled = true ∧ config.contextWindow = 0 := by
        by_contra hlog
        exact h ⟨hover, hcount, hlog⟩
      simp only [if_pos hcount, logPercentage, if_pos hlog, Prog.run_bind, Prog.run_panic,
        Outcome.andThen, Outcome.state]
    · rw [if_neg hcount]
      unfold logPercentage
      split <;> rfl
  · rw [if_neg hover]
    rfl

/-- Nothing but the messages changes where the summary is empty. -/
theorem adopt_empty {result : Compaction.CompactionResult} (h : result.summary = "") (s : State) :
    (adopt result s).state = { s with messages := result.workingMessages } := by
  simp only [adopt, Prog.run_bind, Prog.run_get, Outcome.andThen, h, ne_eq, not_true_eq_false, if_false]
  rfl

theorem adopt_nonempty {result : Compaction.CompactionResult} (h : result.summary ≠ "") (s : State) :
    (adopt result s).state =
      { s with
        trace := s.trace ++ [.contextCompacted result.summary result.canonicalMessages s.totalUsage]
        messages := result.workingMessages
        compactionCount := s.compactionCount + 1 } := by
  simp only [adopt, Prog.run_bind, Prog.run_get, Outcome.andThen, ne_eq, h, not_false_eq_true, if_true]
  rfl

/-- The check is due and the language model answers `summary` for the messages `slice`. -/
structure Round (env : Environment) (config : LoopConfig) (s : State) (slice : List Message)
    (summary : String) : Prop where
  due : Due env config s
  toCompact : Compaction.toCompact s.messages config.compactionKeepRecent = some slice
  answer : summaryAnswer env s slice = .ok summary

theorem checkCompaction_no_round (h : ∀ slice summary, ¬ Round env config s slice summary) :
    Untouched s (checkCompaction env config s).state := by
  by_cases hdue : Due env config s
  · rw [checkCompaction_due hdue]
    cases hslice : Compaction.toCompact s.messages config.compactionKeepRecent with
    | none =>
        rw [compactMessages_none hslice]
        show Untouched s (adopt _ s).state
        rw [adopt_empty rfl]
        exact ⟨rfl, rfl, rfl⟩
    | some slice =>
        cases hanswer : summaryAnswer env s slice with
        | error e =>
            rw [compactMessages_error hslice hanswer]
            exact ask_untouched rfl (fun _ => ()) s
        | ok summary => exact absurd ⟨hdue, hslice, hanswer⟩ (h slice summary)
  · rw [checkCompaction_not_due hdue]
    exact frame_untouched.refl s

theorem Round.state_eq (h : Round env config s slice summary) :
    (checkCompaction env config s).state =
      (adopt (Compaction.compacted s.messages config.compactionKeepRecent summary) (asked s slice)).state := by
  rw [checkCompaction_due h.due, compactMessages_ok h.toCompact h.answer]
  rfl

theorem Round.unique {slice' : List Message} {summary' : String} (h : Round env config s slice summary)
    (h' : Round env config s slice' summary') : slice' = slice ∧ summary' = summary := by
  have hslice : slice' = slice := Option.some.inj (h'.toCompact.symm.trans h.toCompact)
  refine ⟨hslice, ?_⟩
  have hanswer := h'.answer
  rw [hslice, h.answer] at hanswer
  exact (Except.ok.inj hanswer).symm

theorem emitted_asked (s : State) (slice : List Message) : emitted (asked s slice) = emitted s :=
  (@ask_untouched _ (.complete (Compaction.summaryMessages slice)) rfl (fun _ => ()) s).emitted

theorem Round.compacted (h : Round env config s slice summary) (hne : summary ≠ "") :
    Compacted s (checkCompaction env config s).state summary slice
      (Compaction.recent s.messages config.compactionKeepRecent) := by
  rw [h.state_eq, adopt_nonempty hne]
  refine ⟨Compaction.parts_of_toCompact h.toCompact, rfl, ?_, rfl⟩
  rw [← emitted_asked s slice]
  simp only [emitted, List.filterMap_append]
  rfl

/-- With an empty summary the messages go all the same, and nobody is told. -/
theorem Round.dropped (h : Round env config s slice "") :
    (checkCompaction env config s).state.messages =
        (Compaction.compacted s.messages config.compactionKeepRecent "").workingMessages ∧
      emitted (checkCompaction env config s).state = emitted s ∧
      (checkCompaction env config s).state.compactionCount = s.compactionCount := by
  rw [h.state_eq, adopt_empty rfl]
  exact ⟨rfl, emitted_asked s slice, rfl⟩

/-- An empty summary for anything but an empty summary. -/
def AnsweredEmpty (env : Environment) (config : LoopConfig) (s : State) : Prop :=
  ∃ slice, Round env config s slice "" ∧ slice ≠ [Compaction.compactedContext ""]

theorem checkCompaction_accounted_iff (env : Environment) (config : LoopConfig) (s : State) :
    Accounted s (checkCompaction env config s).state ↔ ¬ AnsweredEmpty env config s := by
  by_cases hround : ∃ slice summary, Round env config s slice summary
  · obtain ⟨slice, summary, hround⟩ := hround
    by_cases hsummary : summary = ""
    · rw [hsummary] at hround
      obtain ⟨hmessages, hemitted, hcount⟩ := hround.dropped
      have hkept := Compaction.workingMessages_eq_iff hround.toCompact ""
      constructor
      · intro haccounted hempty
        obtain ⟨slice', hround', hne⟩ := hempty
        rw [(hround.unique hround').1] at hne
        rcases haccounted with huntouched | ⟨_, _, _, hcompacted⟩
        · exact hne (hkept.mp (hmessages.symm.trans huntouched.messages))
        · have hsucc := hcompacted.compactionCount
          omega
      · intro hempty
        left
        have hslice : slice = [Compaction.compactedContext ""] := by
          by_contra hne
          exact hempty ⟨slice, hround, hne⟩
        exact ⟨hmessages.trans (hkept.mpr hslice), hemitted, hcount⟩
    · constructor
      · intro _ hempty
        obtain ⟨slice', hround', _⟩ := hempty
        exact hsummary (hround.unique hround').2.symm
      · intro _
        exact .inr ⟨summary, slice, _, hround.compacted hsummary⟩
  · constructor
    · intro _ hempty
      obtain ⟨slice, hempty, _⟩ := hempty
      exact hround ⟨slice, "", hempty⟩
    · intro _
      left
      apply checkCompaction_no_round
      intro slice summary h
      exact hround ⟨slice, summary, h⟩

/-! ### An iteration -/

/-- The state in which an iteration leaves its compaction check, or ends before. -/
def context (env : Environment) (config : LoopConfig) (s : State) : State :=
  (preamble env config s).andThen (fun _ => checkCompaction env config) |>.state

/-- The iteration reaches its compaction check, and the summary it is given there for what is not an
empty summary already is empty. -/
def SummaryEmpty (env : Environment) (config : LoopConfig) (s : State) : Prop :=
  ∃ s', preamble env config s = .next () s' ∧ AnsweredEmpty env config s'

theorem Untouched.accounted_iff {s s' t : State} (h : Untouched s s') :
    Accounted s t ↔ Accounted s' t := by
  have huntouched : Untouched s t ↔ Untouched s' t := by
    constructor
    · intro ht
      exact ⟨ht.messages.trans h.messages.symm, ht.emitted.trans h.emitted.symm,
        ht.compactionCount.trans h.compactionCount.symm⟩
    · exact frame_untouched.trans s s' t h
  have hcompacted (summary : String) (removed surviving : List Message) :
      Compacted s t summary removed surviving ↔ Compacted s' t summary removed surviving := by
    constructor
    · intro ht
      refine ⟨?_, ?_, ?_, ?_⟩
      · rw [h.messages]; exact ht.before
      · rw [h.messages]; exact ht.after
      · rw [h.emitted]; exact ht.emitted
      · rw [h.compactionCount]; exact ht.compactionCount
    · intro ht
      refine ⟨?_, ?_, ?_, ?_⟩
      · rw [← h.messages]; exact ht.before
      · rw [← h.messages]; exact ht.after
      · rw [← h.emitted]; exact ht.emitted
      · rw [← h.compactionCount]; exact ht.compactionCount
  simp only [Accounted, huntouched, hcompacted]

theorem context_accounted_iff (env : Environment) (config : LoopConfig) (s : State) :
    Accounted s (context env config s) ↔ ¬ SummaryEmpty env config s := by
  have huntouched : Untouched s (preamble env config s).state := preamble_untouched env config s
  unfold context SummaryEmpty
  cases hpreamble : preamble env config s with
  | next value s' =>
      rw [hpreamble] at huntouched
      rw [huntouched.accounted_iff]
      refine (checkCompaction_accounted_iff env config s').trans (not_congr ?_)
      constructor
      · intro hempty
        exact ⟨s', rfl, hempty⟩
      · intro hempty
        obtain ⟨s₁, hs₁, hempty⟩ := hempty
        cases hs₁
        exact hempty
  | stop s' | fail _ s' | panic s' =>
      rw [hpreamble] at huntouched
      constructor
      · intro _ hempty
        obtain ⟨_, hnext, _⟩ := hempty
        cases hnext
      · intro _
        exact .inl huntouched

theorem iterate_appends (env : Environment) (config : LoopConfig) (iteration : Nat) (s : State) :
    Appends (context env config s) (iterate env config iteration s).state := by
  show Appends ((preamble env config s).andThen _).state ((preamble env config s).andThen _).state
  cases preamble env config s with
  | next value s' =>
      have hrest := rest_appends env config iteration
      show Appends (checkCompaction env config s').state
        ((checkCompaction env config s').andThen fun _ => rest env config iteration).state
      cases checkCompaction env config s' with
      | next value t => exact hrest t
      | stop t | fail _ t | panic t => exact frame_appends.refl t
  | stop s' | fail _ s' | panic s' => exact frame_appends.refl s'

/-- In every iteration, whatever the state and the environment. -/
theorem removal_announced_iff_summary_not_empty (env : Environment) (config : LoopConfig)
    (iteration : Nat) (s : State) :
    (Accounted s (context env config s) ↔ ¬ SummaryEmpty env config s) ∧
      Appends (context env config s) (iterate env config iteration s).state :=
  ⟨context_accounted_iff env config s, iterate_appends env config iteration s⟩

/-- An environment in which nothing goes wrong and the language model has nothing to say. -/
def speechless : Environment where
  now _ := 0
  quotaCheck _ := .ok true
  quotaUpdate _ := .ok ()
  notify _ := .ok ()
  complete _ := .ok ⟨[⟨some ⟨.assistant, some (.text ""), none, none⟩, none, none⟩], none⟩
  streamCompletion _ := ([], .ok ⟨⟨.assistant, none, none, none⟩, some .stop, none⟩)
  definitions _ := []
  isAcpTool _ := false
  toolsCall _ := .error "no such tool"
  execute _ := .error "no such tool"
  readNumber := some
  argumentError _ _ := ""
  infoEnabled := true
  warnEnabled := true

/-- Eight tenths of ten tokens, and nothing kept. -/
def tight : LoopConfig where
  maxIterations := 1
  timeout := 1
  model := "m"
  contextWindow := 10
  overThreshold n := 8 < n
  compactionKeepRecent := 0
  maxCompactions := 3
  langfuseCaptureInput := false

def threeMessages : List Message :=
  [Compaction.textMessage .user "read the file", Compaction.textMessage .assistant "which of the files?",
    Compaction.textMessage .user "the one I opened"]

theorem empty_summary_drops_history :
    (context speechless tight (initial speechless [] threeMessages)).messages =
        [Compaction.compactedContext ""] ∧
      emitted (run speechless tight [] threeMessages).state = [] ∧
      ¬ Accounted (initial speechless [] threeMessages)
        (context speechless tight (initial speechless [] threeMessages)) := by
  refine ⟨by rfl, by rfl, ?_⟩
  intro haccounted
  rcases haccounted with huntouched | ⟨_, _, _, hcompacted⟩
  · have hlength := congrArg List.length huntouched.messages
    exact absurd hlength (by decide +kernel)
  · have hcount := hcompacted.compactionCount
    exact absurd hcount (by decide +kernel)

/-! ### A run -/

/-- Every round that is counted has been announced, and the cap is kept. -/
structure Counted (config : LoopConfig) (s t : State) : Prop where
  emitted : (emitted t).length + s.compactionCount = (emitted s).length + t.compactionCount
  cap : t.compactionCount ≤ max s.compactionCount config.maxCompactions

theorem frame_counted (config : LoopConfig) : Prog.Frame (Counted config) where
  refl _ := ⟨rfl, by omega⟩
  trans s t u hst htu := by
    have hemitted := hst.emitted
    have hemitted' := htu.emitted
    have hcap := hst.cap
    have hcap' := htu.cap
    exact ⟨by omega, by omega⟩

theorem Appends.counted {s t : State} (h : Appends s t) : Counted config s t := by
  refine ⟨?_, ?_⟩
  · rw [h.emitted, h.compactionCount]
  · have hcount := h.compactionCount
    omega

theorem checkCompaction_counted : Prog.Relates (Counted config) (checkCompaction env config) := by
  intro s
  by_cases hround : ∃ slice summary, Round env config s slice summary
  · obtain ⟨slice, summary, hround⟩ := hround
    have hdue := hround.due.2.1
    by_cases hsummary : summary = ""
    · rw [hsummary] at hround
      obtain ⟨_, hemitted, hcount⟩ := hround.dropped
      exact ⟨by rw [hemitted, hcount], by omega⟩
    · have hcompacted := hround.compacted hsummary
      have hcount := hcompacted.compactionCount
      refine ⟨?_, by omega⟩
      rw [hcompacted.emitted, List.length_append, List.length_singleton]
      omega
  · have huntouched : Untouched s (checkCompaction env config s).state := by
      apply checkCompaction_no_round
      intro slice summary h
      exact hround ⟨slice, summary, h⟩
    exact huntouched.appends.counted

theorem iterations_counted (left iteration : Nat) :
    Prog.Relates (Counted config) (iterations env config left iteration) := by
  induction left generalizing iteration with
  | zero => exact (frame_counted config).pure ()
  | succ left ih =>
      refine (frame_counted config).bind ?_ fun _ => ih (iteration + 1)
      apply (frame_counted config).bind
      · exact fun s => (preamble_untouched env config s).appends.counted
      intro _
      apply (frame_counted config).bind checkCompaction_counted
      intro _
      exact fun s => (rest_appends env config iteration s).counted

theorem epilogue_untouched : Prog.Relates Untouched epilogue := by
  apply frame_untouched.bind frame_untouched.get
  intro s
  apply frame_untouched.bind (tell_untouched rfl)
  intro _
  exact tell_untouched rfl

/-- A run announces as many rounds as it counts, and counts no more than it may. -/
theorem run_counted (trace : List Event) (messages : List Message) :
    Counted config (initial env trace messages) (run env config trace messages).state := by
  have hloop : Counted config (initial env trace messages)
      (iterations env config config.maxIterations 0 (initial env trace messages)).state :=
    iterations_counted _ _ _
  unfold run
  cases houtcome : iterations env config config.maxIterations 0 (initial env trace messages) with
  | next _ s | stop s =>
      rw [houtcome] at hloop
      exact (frame_counted config).trans _ _ _ hloop (epilogue_untouched s).appends.counted
  | fail _ s | panic s =>
      rw [houtcome] at hloop
      exact hloop

end AgenticLoop

end Overacp
