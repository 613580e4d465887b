import Overacp.Loop.SessionCap

/-!
# What the notifications carry

The loop puts messages of its own among those of the conversation: the summary of a compaction, the
wind-down warning and the silence nudge. A ghost keeps, beside the history, where every message in it
comes from, and with every announced compaction the messages it carries. The summaries never get out,
and the other two get out whenever they are recent enough.
-/

namespace Overacp

open Llm

namespace AgenticLoop

/-! ### The ghost -/

/-- Part of the conversation, or put in by the loop. -/
inductive Origin where
  | real
  | summary
  | injected
  deriving DecidableEq

/-- The messages of the history with their origin, and those that announced compactions carried. -/
structure Provenance where
  tagged : List (Message × Origin)
  carried : List (List (Message × Origin))

namespace Provenance

def stay (_ : State) (p : Provenance) (_ : State) : Provenance := p

/-- The messages that were appended are of this origin. -/
def extend (origin : Origin) (s : State) (p : Provenance) (t : State) : Provenance :=
  { p with tagged := p.tagged ++ (t.messages.drop s.messages.length).map (·, origin) }

end Provenance

variable (env : Environment) (config : LoopConfig)

instance (s : State) : Decidable (Due env config s) :=
  inferInstanceAs (Decidable (_ ∧ _ ∧ ¬ (_ ∧ _)))

/-- The summary of the round that a check in this state performs. -/
def performed (s : State) : Option String :=
  if Due env config s then
    match Compaction.toCompact s.messages config.compactionKeepRecent with
    | none => none
    | some slice => (summaryAnswer env s slice).toOption
  else none

/-- The messages that a compaction in this state would keep besides the system prompt. -/
def Provenance.recent (s : State) (p : Provenance) : List (Message × Origin) :=
  p.tagged.drop (Compaction.splitPoint s.messages config.compactionKeepRecent)

def Provenance.cut (s : State) (p : Provenance) (_ : State) : Provenance :=
  match performed env config s with
  | none => p
  | some summary =>
      { tagged := p.tagged.take (Compaction.start s.messages) ++
          (Compaction.compactedContext summary, .summary) :: p.recent config s
        carried := p.carried ++ if summary = "" then [] else [p.recent config s] }

/-! ### The loop with its ghost -/

def markedRest (iteration : Nat) : Prog (State × Provenance) String Unit := do
  Prog.follow (windDown config iteration) (Provenance.extend .injected)
  Prog.follow nudge (Provenance.extend .injected)
  let streamed ← Prog.follow (callLlm env config) Provenance.stay
  Prog.follow (respond env streamed) (Provenance.extend .real)

def markedIterate (iteration : Nat) : Prog (State × Provenance) String Unit := do
  Prog.follow (preamble env config) Provenance.stay
  Prog.follow (checkCompaction env config) (Provenance.cut env config)
  markedRest env config iteration

def markedRun (trace : List Event) (messages : List Message) (p : Provenance) :
    Outcome (State × Provenance) String Unit :=
  match Prog.loop (markedIterate env config) config.maxIterations 0 (initial env trace messages, p) with
  | .next () s | .stop s => Prog.follow epilogue Provenance.stay s
  | .fail e s => .fail e s
  | .panic s => .panic s

variable {env config}

theorem rest_eq (iteration : Nat) : rest env config iteration = (do
    windDown config iteration
    nudge
    let streamed ← callLlm env config
    respond env streamed) := rfl

theorem markedIterate_follows (iteration : Nat) :
    Prog.Follows (markedIterate env config iteration) (iterate env config iteration) := by
  refine (Prog.follows_follow _ _).bind fun _ => (Prog.follows_follow _ _).bind fun _ => ?_
  rw [rest_eq]
  refine (Prog.follows_follow _ _).bind fun _ => (Prog.follows_follow _ _).bind fun _ => ?_
  exact (Prog.follows_follow _ _).bind fun streamed => Prog.follows_follow _ _

/-- Without the ghost it is the run. -/
theorem markedRun_forget (trace : List Event) (messages : List Message) (p : Provenance) :
    (markedRun env config trace messages p).forget = run env config trace messages := by
  have hloop := Prog.Follows.loop (@markedIterate_follows env config) config.maxIterations 0
    (initial env trace messages, p)
  rw [← iterations_eq_loop] at hloop
  unfold markedRun run
  rw [← hloop]
  cases Prog.loop (markedIterate env config) config.maxIterations 0 (initial env trace messages, p) with
  | next value s => exact Prog.follows_follow epilogue _ s
  | stop s => exact Prog.follows_follow epilogue _ s
  | fail e s => rfl
  | panic s => rfl

/-! ### Where the summaries are -/

/-- The ghost is about this state; the history starts with a system message, and the summary of a
compaction stands right behind it or nowhere. -/
structure Sound (s : State) (p : Provenance) : Prop where
  tagged : p.tagged.map Prod.fst = s.messages
  head : s.messages.head?.map Message.role = some .system
  summaries : ∀ x ∈ p.tagged.drop 2, x.2 ≠ .summary
  carried : p.carried.map (List.map Prod.fst) = (emitted s).map Prod.snd

theorem Sound.congr {s t : State} {p : Provenance} (h : Sound s p) (hmessages : t.messages = s.messages)
    (hemitted : emitted t = emitted s) : Sound t p where
  tagged := by rw [hmessages, h.tagged]
  head := by rw [hmessages, h.head]
  summaries := h.summaries
  carried := by rw [hemitted, h.carried]

theorem Sound.stay {s t : State} {p : Provenance} (h : Sound s p) (huntouched : Untouched s t) :
    Sound t p := h.congr huntouched.messages huntouched.emitted

theorem mem_drop_append {α : Type} {n : Nat} {x : α} {xs ys : List α} (h : x ∈ (xs ++ ys).drop n) :
    x ∈ xs.drop n ∨ x ∈ ys := by
  rw [List.drop_append] at h
  rcases List.mem_append.mp h with h | h
  · exact .inl h
  · exact .inr (List.mem_of_mem_drop h)

theorem Sound.extend {s t : State} {p : Provenance} (h : Sound s p) (happends : Appends s t)
    {origin : Origin} (horigin : origin ≠ .summary) : Sound t (p.extend origin s t) := by
  obtain ⟨more, hmore⟩ := happends.messages
  refine ⟨?_, ?_, ?_, ?_⟩
  · simp only [Provenance.extend, List.map_append, h.tagged, List.map_map, ← hmore, List.drop_left]
    exact congrArg _ (List.map_id more)
  · have hhead := h.head
    rw [← hmore]
    cases hmessages : s.messages with
    | nil =>
        rw [hmessages] at hhead
        cases hhead
    | cons m ms =>
        rw [hmessages] at hhead
        exact hhead
  · intro x hx
    rcases mem_drop_append hx with hx | hx
    · exact h.summaries x hx
    · obtain ⟨m, _, rfl⟩ := List.mem_map.mp hx
      exact horigin
  · rw [happends.emitted]
    exact h.carried

theorem performed_eq_some_iff {s : State} {summary : String} :
    performed env config s = some summary ↔ ∃ slice, Round env config s slice summary := by
  unfold performed
  constructor
  · intro h
    by_cases hdue : Due env config s
    · rw [if_pos hdue] at h
      cases hslice : Compaction.toCompact s.messages config.compactionKeepRecent with
      | none =>
          rw [hslice] at h
          cases h
      | some slice =>
          rw [hslice] at h
          dsimp only at h
          cases hanswer : summaryAnswer env s slice with
          | error e =>
              rw [hanswer] at h
              cases h
          | ok summary' =>
              rw [hanswer] at h
              cases h
              exact ⟨slice, hdue, hslice, hanswer⟩
    · rw [if_neg hdue] at h
      cases h
  · intro h
    obtain ⟨slice, hround⟩ := h
    rw [if_pos hround.due, hround.toCompact]
    dsimp only
    rw [hround.answer]
    rfl

/-- With a system message at the head, a round keeps nothing of the first two messages but that one. -/
theorem Sound.splitPoint {s : State} {p : Provenance} (h : Sound s p) {slice : List Message}
    {summary : String} (hround : Round env config s slice summary) :
    Compaction.start s.messages = 1 ∧
      2 ≤ Compaction.splitPoint s.messages config.compactionKeepRecent := by
  have hstart : Compaction.start s.messages = 1 := by
    have hhead := h.head
    cases hmessages : s.messages with
    | nil =>
        rw [hmessages] at hhead
        cases hhead
    | cons m ms =>
        rw [hmessages] at hhead
        have hrole : m.role = .system := Option.some.inj hhead
        simp [Compaction.start, Compaction.systemMsg, hrole]
  have hsplit := (Compaction.toCompact_some hround.toCompact).1
  rw [hstart] at hsplit
  exact ⟨hstart, hsplit⟩

/-- No summary is ever among the messages that a compaction keeps. -/
theorem Sound.recent_ne_summary {s : State} {p : Provenance} (h : Sound s p) {slice : List Message}
    {summary : String} (hround : Round env config s slice summary) :
    ∀ x ∈ p.recent config s, x.2 ≠ .summary := by
  intro x hx
  obtain ⟨_, hsplit⟩ := h.splitPoint hround
  apply h.summaries
  have heq : Compaction.splitPoint s.messages config.compactionKeepRecent =
      2 + (Compaction.splitPoint s.messages config.compactionKeepRecent - 2) := by omega
  rw [Provenance.recent, heq, ← List.drop_drop] at hx
  exact List.mem_of_mem_drop hx

theorem Provenance.cut_of_round {s : State} (p : Provenance) {slice : List Message} {summary : String}
    (h : Round env config s slice summary) (t : State) : p.cut env config s t =
      { tagged := p.tagged.take (Compaction.start s.messages) ++
          (Compaction.compactedContext summary, .summary) :: p.recent config s
        carried := p.carried ++ if summary = "" then [] else [p.recent config s] } := by
  rw [Provenance.cut, performed_eq_some_iff.mpr ⟨slice, h⟩]

theorem Provenance.cut_of_no_round {s : State} (p : Provenance)
    (h : ¬ ∃ slice summary, Round env config s slice summary) (t : State) : p.cut env config s t = p := by
  have hnone : performed env config s = none := by
    cases hperformed : performed env config s with
    | none => rfl
    | some summary =>
        obtain ⟨slice, hslice⟩ := performed_eq_some_iff.mp hperformed
        exact absurd ⟨slice, summary, hslice⟩ h
  rw [Provenance.cut, hnone]

theorem Sound.recent_fst {s : State} {p : Provenance} (h : Sound s p) :
    (p.recent config s).map Prod.fst = Compaction.recent s.messages config.compactionKeepRecent := by
  rw [Provenance.recent, List.map_drop, h.tagged]
  rfl

theorem checkCompaction_head {s : State} (h : s.messages.head?.map Message.role = some .system) :
    (checkCompaction env config s).state.messages.head?.map Message.role = some .system := by
  obtain ⟨m, hmessages, hrole⟩ := Option.map_eq_some_iff.mp h
  rw [checkCompaction_headKept env config s m hrole hmessages, Option.map_some, hrole]

theorem Sound.cut {s : State} {p : Provenance} (h : Sound s p) :
    Sound (checkCompaction env config s).state
      (p.cut env config s (checkCompaction env config s).state) := by
  by_cases hround : ∃ slice summary, Round env config s slice summary
  · obtain ⟨slice, summary, hround⟩ := hround
    obtain ⟨hstart, _⟩ := h.splitPoint hround
    rw [p.cut_of_round hround]
    refine ⟨?_, checkCompaction_head h.head, ?_, ?_⟩
    · rw [hround.state_eq, adopt_state]
      show List.map Prod.fst (_ ++ _ :: _) = (Compaction.systemMsg s.messages).toList ++ _
      rw [List.map_append, List.map_cons, h.recent_fst, List.map_take, h.tagged, Compaction.systemMsg_toList]
    · intro x hx
      apply h.recent_ne_summary hround
      have hlength : (p.tagged.take (Compaction.start s.messages) ++
          [(Compaction.compactedContext summary, Origin.summary)]).length ≤ 2 := by
        rw [hstart, List.length_append, List.length_singleton, List.length_take]
        omega
      rw [List.append_cons, List.drop_append, List.drop_of_length_le hlength] at hx
      exact List.mem_of_mem_drop hx
    · have hasked : (asked s slice).trace.filterMap Event.compaction? = emitted s := emitted_asked s slice
      rw [hround.state_eq, adopt_state, emitted, List.filterMap_append, hasked, List.map_append,
        List.map_append, h.carried]
      by_cases hempty : summary = ""
      · simp [hempty, Compaction.compacted]
      · simp [hempty, Compaction.compacted, Event.compaction?, h.recent_fst]
  · rw [p.cut_of_no_round hround]
    apply h.stay
    apply checkCompaction_no_round
    intro slice summary hslice
    exact hround ⟨slice, summary, hslice⟩

/-! ### What is carried -/

/-- Only the conversation was carried by the notifications. -/
def Clean (p : Provenance) : Prop := ∀ slice ∈ p.carried, ∀ x ∈ slice, x.2 = .real

instance (p : Provenance) : Decidable (Clean p) :=
  inferInstanceAs (Decidable (∀ slice ∈ p.carried, ∀ x ∈ slice, x.2 = .real))

/-- If a compaction is about to be announced, no message that the loop has put in is kept by it. -/
def Clear (env : Environment) (config : LoopConfig) (s : State) (p : Provenance) : Prop :=
  ∀ slice summary, Round env config s slice summary → summary ≠ "" →
    ∀ x ∈ p.recent config s, x.2 ≠ .injected

theorem Sound.clean_cut {s : State} {p : Provenance} (h : Sound s p) (hclear : Clear env config s p)
    (hclean : Clean p) (t : State) : Clean (p.cut env config s t) := by
  by_cases hround : ∃ slice summary, Round env config s slice summary
  · obtain ⟨slice, summary, hround⟩ := hround
    rw [p.cut_of_round hround]
    intro kept hkept x hx
    rcases List.mem_append.mp hkept with hkept | hkept
    · exact hclean kept hkept x hx
    · by_cases hempty : summary = ""
      · rw [if_pos hempty] at hkept
        cases hkept
      · rw [if_neg hempty, List.mem_singleton] at hkept
        rw [hkept] at hx
        have hinjected := hclear slice summary hround hempty x hx
        have hsummary := h.recent_ne_summary hround x hx
        cases horigin : x.2 with
        | real => rfl
        | summary => exact absurd horigin hsummary
        | injected => exact absurd horigin hinjected
  · rw [p.cut_of_no_round hround]
    exact hclean

theorem not_clean_cut {s : State} {p : Provenance} (h : ¬ Clear env config s p) (t : State) :
    ¬ Clean (p.cut env config s t) := by
  intro hclean
  apply h
  intro slice summary hround hempty x hx hinjected
  rw [p.cut_of_round hround] at hclean
  have hreal := hclean (p.recent config s) (by simp [hempty]) x hx
  rw [hreal] at hinjected
  cases hinjected

/-! ### A turn with its ghost -/

abbrev Marked := State × Provenance

def markedFirst (env : Environment) (config : LoopConfig) : Prog Marked String Unit :=
  Prog.follow (preamble env config) Provenance.stay

def markedCheck (env : Environment) (config : LoopConfig) : Prog Marked String Unit :=
  Prog.follow (checkCompaction env config) (Provenance.cut env config)

theorem markedIterate_eq (iteration : Nat) : markedIterate env config iteration =
    markedFirst env config >>= fun _ => markedCheck env config >>= fun _ => markedRest env config iteration :=
  rfl

/-- The turn comes to a compaction check with this history and this ghost. -/
def MarkedChecks (env : Environment) (config : LoopConfig) (trace : List Event) (messages : List Message)
    (p : Provenance) (x : Marked) : Prop :=
  Prog.Reaches (markedFirst env config) (markedIterate env config) config.maxIterations 0
    (initial env trace messages, p) x

theorem respond_appends (streamed : StreamedResponse) : Prog.Relates Appends (respond env streamed) := by
  apply frame_appends.bind (relates_appends (trackUsage_untouched streamed.usage))
  intro _
  exact (steps_appends env).afterUsage (fun _ _ _ => relates_appends (tell_untouched rfl))
    (fun _ _ _ => relates_appends (tell_untouched rfl)) streamed

/-- What holds before holds after. -/
def Keeps (J : Marked → Prop) (x y : Marked) : Prop := J x → J y

theorem frame_keeps (J : Marked → Prop) : Prog.Frame (Keeps J) where
  refl _ h := h
  trans _ _ _ hxy hyz h := hyz (hxy h)

/-- What is about the ghost and its place in the history, and loses nothing to more messages. -/
structure Stable (J : Marked → Prop) : Prop where
  extend : ∀ s t p origin, Appends s t → origin ≠ .summary → J (s, p) → J (t, p.extend origin s t)
  stay : ∀ s t p, Untouched s t → J (s, p) → J (t, p)

theorem markedRest_keeps {J : Marked → Prop} (h : Stable J) (iteration : Nat) :
    Prog.Relates (Keeps J) (markedRest env config iteration) := by
  apply (frame_keeps J).bind
  · exact Prog.relates_follow fun s p => h.extend _ _ p .injected ((steps_appends env).windDown iteration s) nofun
  intro _
  apply (frame_keeps J).bind
  · exact Prog.relates_follow fun s p => h.extend _ _ p .injected ((steps_appends env).nudge s) nofun
  intro _
  apply (frame_keeps J).bind
  · exact Prog.relates_follow fun s p => h.stay _ _ p (callLlm_untouched env config s)
  intro streamed
  exact Prog.relates_follow fun s p => h.extend _ _ p .real (respond_appends streamed s) nofun

theorem markedFirst_keeps {J : Marked → Prop} (h : Stable J) :
    Prog.Relates (Keeps J) (markedFirst env config) :=
  Prog.relates_follow fun s p => h.stay _ _ p (preamble_untouched env config s)

theorem markedRun_state (trace : List Event) (messages : List Message) (p : Provenance) :
    let x := (Prog.loop (markedIterate env config) config.maxIterations 0 (initial env trace messages, p)).state
    (markedRun env config trace messages p).state = x ∨
      (markedRun env config trace messages p).state = ((epilogue x.1).state, x.2) := by
  dsimp only
  unfold markedRun
  cases Prog.loop (markedIterate env config) config.maxIterations 0 (initial env trace messages, p) with
  | next value x => exact .inr (Prog.follow_state _ _ x)
  | stop x => exact .inr (Prog.follow_state _ _ x)
  | fail e x => exact .inl rfl
  | panic x => exact .inl rfl

theorem markedRun_of_loop {J : Marked → Prop} (h : Stable J) {trace : List Event}
    {messages : List Message} {p : Provenance}
    (hloop : J (Prog.loop (markedIterate env config) config.maxIterations 0
      (initial env trace messages, p)).state) : J (markedRun env config trace messages p).state := by
  rcases @markedRun_state env config trace messages p with hstate | hstate
  · rw [hstate]
    exact hloop
  · rw [hstate]
    exact h.stay _ _ _ (epilogue_untouched _) hloop

/-- A turn keeps what its checks keep. -/
theorem markedRun_keeps {J : Marked → Prop} (h : Stable J) {trace : List Event}
    {messages : List Message} {p : Provenance}
    (hcheck : ∀ x, MarkedChecks env config trace messages p x → Keeps J x (markedCheck env config x).state)
    (hinitial : J (initial env trace messages, p)) : J (markedRun env config trace messages p).state := by
  apply markedRun_of_loop h
  exact Prog.loop_relates markedIterate_eq (frame_keeps J) (markedFirst_keeps h) (markedRest_keeps h)
    hcheck hinitial

/-- What a check leaves behind is there at the end of the turn. -/
theorem markedRun_of_check {J : Marked → Prop} (h : Stable J) {trace : List Event}
    {messages : List Message} {p : Provenance} {x : Marked}
    (hkeeps : Prog.Relates (Keeps J) (markedCheck env config))
    (hx : MarkedChecks env config trace messages p x) (hJ : J (markedCheck env config x).state) :
    J (markedRun env config trace messages p).state := by
  apply markedRun_of_loop h
  exact (hx.relates markedIterate_eq (frame_keeps J) (markedFirst_keeps h) hkeeps (markedRest_keeps h)).2 hJ

theorem markedCheck_state (x : Marked) : (markedCheck env config x).state =
    ((checkCompaction env config x.1).state,
      x.2.cut env config x.1 (checkCompaction env config x.1).state) := Prog.follow_state _ _ x

theorem stable_sound : Stable fun x => Sound x.1 x.2 where
  extend _ _ _ _ happends horigin h := h.extend happends horigin
  stay _ _ _ huntouched h := h.stay huntouched

theorem stable_sound_clean : Stable fun x => Sound x.1 x.2 ∧ Clean x.2 where
  extend _ _ _ _ happends horigin h := ⟨h.1.extend happends horigin, h.2⟩
  stay _ _ _ huntouched h := ⟨h.1.stay huntouched, h.2⟩

theorem stable_not_clean : Stable fun x => ¬ Clean x.2 where
  extend _ _ _ _ _ _ h := h
  stay _ _ _ _ h := h

theorem markedRun_sound {trace : List Event} {messages : List Message} {p : Provenance}
    (h : Sound (initial env trace messages) p) :
    Sound (markedRun env config trace messages p).state.1 (markedRun env config trace messages p).state.2 := by
  refine markedRun_keeps stable_sound ?_ h
  intro x _ hsound
  rw [markedCheck_state]
  exact hsound.cut

theorem markedRun_clean {trace : List Event} {messages : List Message} {p : Provenance}
    (hclear : ∀ x, MarkedChecks env config trace messages p x → Clear env config x.1 x.2)
    (h : Sound (initial env trace messages) p) (hclean : Clean p) :
    Clean (markedRun env config trace messages p).state.2 := by
  refine (markedRun_keeps stable_sound_clean ?_ ⟨h, hclean⟩).2
  intro x hx hsound
  rw [markedCheck_state]
  exact ⟨hsound.1.cut, hsound.1.clean_cut (hclear x hx) hsound.2 (checkCompaction env config x.1).state⟩

theorem markedCheck_not_clean : Prog.Relates (Keeps fun x => ¬ Clean x.2) (markedCheck env config) := by
  intro x hdirty
  rw [markedCheck_state]
  intro hclean
  apply hdirty
  intro slice hslice
  apply hclean
  by_cases hround : ∃ slice summary, Round env config x.1 slice summary
  · obtain ⟨_, summary, hround⟩ := hround
    rw [x.2.cut_of_round hround]
    exact List.mem_append_left _ hslice
  · rw [x.2.cut_of_no_round hround]
    exact hslice

theorem markedRun_keeps_not_clean {trace : List Event} {messages : List Message} {p : Provenance}
    (h : ¬ Clean p) : ¬ Clean (markedRun env config trace messages p).state.2 :=
  markedRun_keeps stable_not_clean (fun x _ => markedCheck_not_clean x) h

theorem markedRun_not_clean {trace : List Event} {messages : List Message} {p : Provenance} {x : Marked}
    (hx : MarkedChecks env config trace messages p x) (h : ¬ Clear env config x.1 x.2) :
    ¬ Clean (markedRun env config trace messages p).state.2 := by
  refine markedRun_of_check stable_not_clean markedCheck_not_clean hx ?_
  rw [markedCheck_state]
  exact not_clean_cut h (checkCompaction env config x.1).state

end AgenticLoop

/-! ### A session with its ghost -/

namespace Session

open AgenticLoop

structure MarkedSession where
  session : Session
  provenance : Provenance

/-- A message from outside is part of the conversation. -/
def fromOutside (messages : List Message) : List (Message × Origin) := messages.map (·, .real)

variable (S : Setting)

def markedTurn (s : MarkedSession) (userMsg : Message) : Outcome Marked String Unit :=
  let userMsg := resolveFileUrlsInMessage S.resolveFileUrl userMsg
  markedRun S.env S.config s.session.trace (s.session.messages ++ [userMsg])
    { s.provenance with tagged := s.provenance.tagged ++ fromOutside [userMsg] }

def markedStep (s : MarkedSession) (push : NextPush) : Option MarkedSession :=
  if s.session.alive then
    match push with
    | .message userMsg =>
        let outcome := markedTurn S s userMsg
        some ⟨⟨outcome.state.1.trace, outcome.state.1.messages, !panicked outcome.forget⟩, outcome.state.2⟩
    | .cancel => some { s with session := { s.session with alive := false } }
  else none

def markedSystem : Transition.System MarkedSession NextPush where
  init := ⟨(system S).init, ⟨fromOutside (system S).init.messages, []⟩⟩
  step := markedStep S

variable {S}

theorem markedTurn_forget (s : MarkedSession) (userMsg : Message) :
    (markedTurn S s userMsg).forget = turn S s.session userMsg := markedRun_forget _ _ _

theorem forget_state {σ γ ε α : Type} (outcome : Outcome (σ × γ) ε α) :
    outcome.forget.state = outcome.state.1 := by
  cases outcome <;> rfl

/-- Without the ghosts it is the session. -/
theorem markedSystem_run (pushes : List NextPush) :
    ((markedSystem S).run (markedSystem S).init pushes).map MarkedSession.session =
      (system S).run (system S).init pushes := by
  apply (system S).run_map (markedSystem S) MarkedSession.session
  intro s push
  show (markedStep S s push).map MarkedSession.session = step S s.session push
  unfold markedStep step
  by_cases halive : s.session.alive = true
  · rw [if_pos halive, if_pos halive]
    cases push with
    | message userMsg =>
        simp only [Option.map_some, ← forget_state, markedTurn_forget]
    | cancel => rfl
  · rw [if_neg halive, if_neg halive]
    rfl

theorem markedStep_cases {s t : MarkedSession} {push : NextPush} (h : markedStep S s push = some t) :
    (∃ userMsg, push = .message userMsg ∧ t.session.trace = (markedTurn S s userMsg).state.1.trace ∧
        t.session.messages = (markedTurn S s userMsg).state.1.messages ∧
        t.provenance = (markedTurn S s userMsg).state.2) ∨
      push = .cancel ∧ t = { s with session := { s.session with alive := false } } := by
  unfold markedStep at h
  by_cases halive : s.session.alive = true
  · rw [if_pos halive] at h
    cases push with
    | message userMsg =>
        obtain rfl := Option.some.inj h
        exact .inl ⟨userMsg, rfl, rfl, rfl, rfl⟩
    | cancel => exact .inr ⟨rfl, (Option.some.inj h).symm⟩
  · rw [if_neg halive] at h
    cases h

theorem emitted_initial (env : Environment) (trace : List Event) (messages : List Message) :
    emitted (initial env trace messages) = trace.filterMap Event.compaction? := by
  show (trace ++ [Event.clock] ++ [Event.clock]).filterMap Event.compaction? = _
  simp [Event.compaction?]

/-- Between two turns the ghost is about the history there is. -/
def SoundSession (S : Setting) (s : MarkedSession) : Prop :=
  Sound (initial S.env s.session.trace s.session.messages) s.provenance

theorem soundSession_init (S : Setting) : SoundSession S (markedSystem S).init where
  tagged := by
    show (fromOutside _).map Prod.fst = _
    rw [fromOutside, List.map_map]
    exact List.map_id _
  head := workingContext_head S.resolveFileUrl S.init
  summaries := by
    intro x hx
    obtain ⟨m, _, rfl⟩ := List.mem_map.mp (List.mem_of_mem_drop hx)
    exact nofun
  carried := rfl

/-- The message that starts a turn joins the history and the ghost. -/
theorem SoundSession.push {s : MarkedSession} (h : SoundSession S s) (userMsg : Message) :
    Sound (initial S.env s.session.trace (s.session.messages ++ [userMsg]))
      { s.provenance with tagged := s.provenance.tagged ++ fromOutside [userMsg] } := by
  have happends : Appends (initial S.env s.session.trace s.session.messages)
      (initial S.env s.session.trace (s.session.messages ++ [userMsg])) :=
    ⟨List.prefix_append _ _, by rw [emitted_initial, emitted_initial], rfl⟩
  have hextend := Sound.extend h happends (nofun : Origin.real ≠ .summary)
  have hdrop : (initial S.env s.session.trace (s.session.messages ++ [userMsg])).messages.drop
      (initial S.env s.session.trace s.session.messages).messages.length = [userMsg] := List.drop_left
  rw [Provenance.extend, hdrop] at hextend
  exact hextend

theorem SoundSession.step {s t : MarkedSession} {push : NextPush} (h : SoundSession S s)
    (hstep : markedStep S s push = some t) : SoundSession S t := by
  rcases markedStep_cases hstep with ⟨userMsg, _, htrace, hmessages, hprovenance⟩ | ⟨_, ht⟩
  · have hturn := @markedRun_sound S.env S.config _ _ _
      (h.push (resolveFileUrlsInMessage S.resolveFileUrl userMsg))
    unfold SoundSession
    rw [htrace, hmessages, hprovenance]
    exact hturn.congr rfl (emitted_initial _ _ _)
  · rw [ht]
    exact h

/-- In the turn that a message starts, no announced compaction keeps what the loop has put in. -/
def ClearTurn (S : Setting) (s : MarkedSession) (push : NextPush) (_ : MarkedSession) : Prop :=
  ∀ userMsg, push = .message userMsg →
    ∀ x, MarkedChecks S.env S.config s.session.trace
      (s.session.messages ++ [resolveFileUrlsInMessage S.resolveFileUrl userMsg])
      { s.provenance with
        tagged := s.provenance.tagged ++ fromOutside [resolveFileUrlsInMessage S.resolveFileUrl userMsg] } x →
      Clear S.env S.config x.1 x.2

theorem clean_of_clear {pushes : List NextPush} {t : MarkedSession}
    (hrun : (markedSystem S).run (markedSystem S).init pushes = some t)
    (hclear : (markedSystem S).EveryStep (ClearTurn S) (markedSystem S).init pushes) :
    Clean t.provenance := by
  refine ((markedSystem S).run_invariant_of_everyStep
    (I := fun s => SoundSession S s ∧ Clean s.provenance) ?_ hrun hclear ⟨soundSession_init S, nofun⟩).2
  intro s push t hstep hclear hs
  refine ⟨hs.1.step hstep, ?_⟩
  rcases markedStep_cases hstep with ⟨userMsg, hpush, _, _, hprovenance⟩ | ⟨_, ht⟩
  · rw [hprovenance]
    exact markedRun_clean (hclear userMsg hpush) (hs.1.push _) hs.2
  · rw [ht]
    exact hs.2

theorem not_clean_of_not_clear {pushes : List NextPush} {t : MarkedSession}
    (hrun : (markedSystem S).run (markedSystem S).init pushes = some t)
    (hclear : ¬ (markedSystem S).EveryStep (ClearTurn S) (markedSystem S).init pushes) :
    ¬ Clean t.provenance := by
  refine (markedSystem S).run_invariant_of_not_everyStep
    (I := fun s => ¬ Clean s.provenance) ?_ ?_ hrun hclear
  · intro s push t hstep hunclear
    simp only [ClearTurn, not_forall] at hunclear
    obtain ⟨userMsg, hpush, x, hx, hclear⟩ := hunclear
    rcases markedStep_cases hstep with ⟨userMsg', hpush', _, _, hprovenance⟩ | ⟨hcancel, _⟩
    · rw [hpush] at hpush'
      cases hpush'
      rw [hprovenance]
      exact markedRun_not_clean hx hclear
    · rw [hpush] at hcancel
      cases hcancel
  · intro s push t hstep hdirty
    rcases markedStep_cases hstep with ⟨userMsg, _, _, _, hprovenance⟩ | ⟨_, ht⟩
    · rw [hprovenance]
      exact markedRun_keeps_not_clean hdirty
    · rw [ht]
      exact hdirty

/-- The ghost follows the session, it knows every message that a notification carries, and only the
conversation is carried just where no announced compaction keeps what the loop has put in. -/
theorem carried_clean_iff {pushes : List NextPush} {t : MarkedSession}
    (hrun : (markedSystem S).run (markedSystem S).init pushes = some t) :
    (system S).run (system S).init pushes = some t.session ∧
      t.provenance.carried.map (List.map Prod.fst) =
        (t.session.trace.filterMap Event.compaction?).map Prod.snd ∧
      (Clean t.provenance ↔ (markedSystem S).EveryStep (ClearTurn S) (markedSystem S).init pushes) := by
  refine ⟨?_, ?_, ?_⟩
  · rw [← markedSystem_run, hrun]
    rfl
  · have hsound : SoundSession S t := (markedSystem S).run_invariant (I := SoundSession S)
      (fun s push t hstep h => h.step hstep) hrun (soundSession_init S)
    rw [hsound.carried, emitted_initial]
  · constructor
    · intro hclean
      by_contra hclear
      exact not_clean_of_not_clear hrun hclear hclean
    · exact clean_of_clear hrun

/-- Five iterations a turn, and three messages kept. -/
def warned : Setting where
  env := summarizing
  config := { tight with maxIterations := 5, compactionKeepRecent := 3 }
  resolveFileUrl _ := .error "no such file"
  init := ⟨"You are a careful assistant.", threeMessages, .null⟩

theorem warned_clean_iff : ∃ t, (markedSystem warned).run (markedSystem warned).init twoTurns = some t ∧
    (system warned).run (system warned).init twoTurns = some t.session ∧
    t.provenance.carried.map (List.map Prod.fst) =
      (t.session.trace.filterMap Event.compaction?).map Prod.snd ∧
    (Clean t.provenance ↔
      (markedSystem warned).EveryStep (ClearTurn warned) (markedSystem warned).init twoTurns) := by
  have hruns : ((markedSystem warned).run (markedSystem warned).init twoTurns).isSome = true := by
    decide +kernel
  obtain ⟨t, ht⟩ := Option.isSome_iff_exists.mp hruns
  exact ⟨t, ht, carried_clean_iff ht⟩

/-- The warning of the first turn is among the messages that the compaction in the second announces. -/
theorem wind_down_warning_carried :
    ∃ t, (markedSystem warned).run (markedSystem warned).init twoTurns = some t ∧
      t.provenance.carried.map (List.map fun x => (x.1.content.bind Content.asText, x.2)) =
        [[(some "[System: 5 iterations remaining. Wrap up your work.]", .injected), (none, .real),
          (some "and the documentation", .real)]] ∧ ¬ Clean t.provenance := by
  have hruns : ((markedSystem warned).run (markedSystem warned).init twoTurns).any (fun t =>
      t.provenance.carried.map (List.map fun x => (x.1.content.bind Content.asText, x.2)) =
        [[(some "[System: 5 iterations remaining. Wrap up your work.]", .injected), (none, .real),
          (some "and the documentation", .real)]] ∧ ¬ Clean t.provenance) = true := by decide +kernel
  obtain ⟨t, ht, hcarried⟩ := (Option.any_eq_true _ _).mp hruns
  exact ⟨t, ht, of_decide_eq_true hcarried⟩

end Session

end Overacp
