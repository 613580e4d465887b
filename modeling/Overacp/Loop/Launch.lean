import Overacp.Loop.Session
import Overacp.Loop.Totals

/-!
# The process and its variables

The process from its environment variables to the last of its turns, with its arithmetic at 64 bits: the settings
that `main` computes, and then the session, in which a turn whose arithmetic does not fit panics.
-/

namespace Overacp

open Llm

/-! ### The session with checked arithmetic -/

namespace Session

variable (S : Setting)

namespace Checked

def turn (s : Session) (userMsg : Message) : Outcome AgenticLoop.State String Unit :=
  AgenticLoop.Checked.run S.env S.config s.trace (s.messages ++ [resolveFileUrlsInMessage S.resolveFileUrl userMsg])

def step (s : Session) (push : NextPush) : Option Session :=
  if s.alive then
    match push with
    | .message userMsg =>
        let outcome := turn S s userMsg
        some ⟨outcome.state.trace, outcome.state.messages, !panicked outcome⟩
    | .cancel => some { s with alive := false }
  else none

def system : Transition.System Session NextPush where
  init := (Session.system S).init
  step := step S

end Checked

/-- The turn that the push starts, if it starts one, does not panic. -/
def Survives (s : Session) (push : NextPush) : Prop :=
  ∀ userMsg, push = .message userMsg → panicked (Checked.turn S s userMsg) = false

/-- The arithmetic of the turn that the push starts, if it starts one, fits. -/
def TurnFits (s : Session) (push : NextPush) : Prop :=
  ∀ userMsg, push = .message userMsg → AgenticLoop.Fits S.env S.config s.trace
    (s.messages ++ [resolveFileUrlsInMessage S.resolveFileUrl userMsg])

variable {S}

theorem panicked_iff (outcome : Outcome AgenticLoop.State String Unit) :
    panicked outcome = true ↔ ∃ t, outcome = .panic t := by
  cases outcome with
  | panic t => exact ⟨fun _ => ⟨t, rfl⟩, fun _ => rfl⟩
  | next _ t | stop t | fail _ t => exact ⟨nofun, nofun⟩

theorem survives_iff (s : Session) (push : NextPush) : Survives S s push ↔ TurnFits S s push := by
  refine forall₂_congr fun userMsg _ => ?_
  have hguarded := AgenticLoop.guarded_run S.env S.config s.trace
    (s.messages ++ [resolveFileUrlsInMessage S.resolveFileUrl userMsg])
  rw [← Bool.not_eq_true, panicked_iff]
  exact (not_congr hguarded.panics_iff).trans Classical.not_not

theorem Checked.step_eq {s : Session} {push : NextPush} (h : TurnFits S s push) :
    (Checked.system S).step s push = (Session.system S).step s push := by
  cases push with
  | cancel => rfl
  | message userMsg =>
      have hturn : Checked.turn S s userMsg = Session.turn S s userMsg :=
        (AgenticLoop.guarded_run _ _ _ _).agrees (h userMsg rfl)
      show (if s.alive then some _ else none) = _
      rw [hturn]
      rfl

theorem Checked.step_isSome (s : Session) (push : NextPush) :
    ((Checked.system S).step s push).isSome = ((Session.system S).step s push).isSome := by
  show (Checked.step S s push).isSome = (Session.step S s push).isSome
  unfold Checked.step Session.step
  cases push <;> split <;> rfl

/-- A session whose turns all fit is the session with checked arithmetic. -/
theorem Checked.run_eq {pushes : List NextPush}
    (h : (Session.system S).EveryStep (fun s push _ => TurnFits S s push) (Session.system S).init pushes) :
    (Checked.system S).run (Session.system S).init pushes = (Session.system S).run (Session.system S).init pushes := by
  refine Transition.System.run_congr (fun s push => Checked.step_eq) h fun s push hnone => ?_
  rw [← Option.not_isSome_iff_eq_none, Checked.step_isSome, hnone]
  exact nofun

/-- No turn panics just where they all fit. -/
theorem Checked.everyStep_survives_iff (s : Session) (pushes : List NextPush) :
    (Checked.system S).EveryStep (fun s push _ => Survives S s push) s pushes ↔
      (Session.system S).EveryStep (fun s push _ => TurnFits S s push) s pushes := by
  rw [← Transition.System.everyStep_iff_of_agree (fun s push => Checked.step_eq) Checked.step_isSome]
  exact (Checked.system S).everyStep_congr (I := fun _ => True) (fun s push _ _ _ => survives_iff s push)
    (fun _ _ _ _ _ _ => trivial) trivial pushes

end Session

/-! ### From the variables on -/

/-- The process as it is launched: its variables, how it reads and compares floating point, and what it does not
decide. -/
structure Launch (F64 F32 : Type) where
  vars : Config.Vars
  parseF64 : String → Option F64
  parseF32 : String → Option F32
  above : F64 → Nat → Nat → Bool
  env : AgenticLoop.Environment
  resolveFileUrl : String → Except String String
  init : InitializeResult

namespace Launch

variable {F64 F32 : Type} [OfScientific F64] [OfScientific F32] (L : Launch F64 F32)

def config : Except String (Config F64 F32) := Config.fromEnv L.parseF64 L.parseF32 L.vars

omit [OfScientific F64] [OfScientific F32] in
def setting (loopConfig : AgenticLoop.LoopConfig) : Session.Setting := ⟨L.env, loopConfig, L.resolveFileUrl, L.init⟩

/-- Where the variables are accepted, nothing overflows and nothing is divided by zero: not in the settings, and in
no turn that the pushes start. -/
def Sound (pushes : List NextPush) : Prop :=
  ∀ config, L.config = .ok config → ∃ loopConfig, config.loopConfig? L.above = some loopConfig ∧
    (Session.Checked.system (L.setting loopConfig)).EveryStep
      (fun s push _ => Session.Survives (L.setting loopConfig) s push)
      (Session.system (L.setting loopConfig)).init pushes

/-- Where the variables are accepted, the timeout fits and every turn does. -/
def Fitting (pushes : List NextPush) : Prop :=
  ∀ config, L.config = .ok config → config.timeoutMinutes * 60 < 2 ^ 64 ∧
    (Session.system (L.setting (config.loopConfig L.above))).EveryStep
      (fun s push _ => Session.TurnFits (L.setting (config.loopConfig L.above)) s push)
      (Session.system (L.setting (config.loopConfig L.above))).init pushes

theorem sound_iff_fitting (L : Launch F64 F32) (pushes : List NextPush) : L.Sound pushes ↔ L.Fitting pushes := by
  refine forall₂_congr fun config _ => ?_
  by_cases hfits : config.timeoutMinutes * 60 < 2 ^ 64
  · have hloop : config.loopConfig? L.above = some (config.loopConfig L.above) := by
      rw [Config.loopConfig?, mul?, fitting, if_pos hfits]
      rfl
    rw [and_iff_right hfits, ← Session.Checked.everyStep_survives_iff]
    constructor
    · intro hsound
      obtain ⟨loopConfig, hsome, hevery⟩ := hsound
      obtain rfl : config.loopConfig L.above = loopConfig := Option.some.inj (hloop.symm.trans hsome)
      exact hevery
    · intro hevery
      exact ⟨_, hloop, hevery⟩
  · have hnone : config.loopConfig? L.above = none := by
      rw [Config.loopConfig?, mul?, fitting, if_neg hfits]
      rfl
    constructor
    · intro hsound
      obtain ⟨_, hsome, _⟩ := hsound
      rw [hnone] at hsome
      cases hsome
    · intro hfitting
      exact absurd hfitting.1 hfits

/-! ### A context window of no tokens -/

/-- The turn that a first message starts, if the process comes to it. -/
def firstTurn? (userMsg : Message) : Option (Outcome AgenticLoop.State String Unit) :=
  match L.config with
  | .ok config => (config.loopConfig? L.above).map fun loopConfig =>
      Session.Checked.turn (L.setting loopConfig) (Session.system (L.setting loopConfig)).init userMsg
  | .error _ => none

variable {L} in
theorem Sound.first {userMsg : Message} {pushes : List NextPush} (h : L.Sound (.message userMsg :: pushes))
    {outcome : Outcome AgenticLoop.State String Unit} (hfirst : L.firstTurn? userMsg = some outcome) :
    Session.panicked outcome = false := by
  unfold firstTurn? at hfirst
  split at hfirst
  · rename_i config hconfig
    obtain ⟨loopConfig, hsome, hevery⟩ := h config hconfig
    rw [hsome, Option.map_some, Option.some.injEq] at hfirst
    rw [← hfirst]
    exact (hevery _ rfl).1 userMsg rfl
  · cases hfirst

/-- An environment with the key and a window of no tokens. -/
def windowless : Launch ℚ ℚ where
  vars
    | "LLM_API_KEY" => some "k"
    | "CONTEXT_WINDOW" => some "0"
    | _ => none
  parseF64 text := if text = "0.80" then some 0.80 else none
  parseF32 _ := none
  above threshold window tokens := threshold * window < tokens
  env := AgenticLoop.speechless
  resolveFileUrl _ := .error "no such file"
  init := ⟨"You are a careful assistant.", [], .null⟩

/-- The first check divides by the window. -/
theorem windowless_not_sound : ¬ windowless.Sound [.message (Compaction.textMessage .user "read the file")] := by
  intro hsound
  have hpanics :
      (windowless.firstTurn? (Compaction.textMessage .user "read the file")).any Session.panicked = true := by
    decide +kernel
  obtain ⟨outcome, hfirst, hpanicked⟩ := (Option.any_eq_true _ _).mp hpanics
  rw [hsound.first hfirst] at hpanicked
  cases hpanicked

end Launch

end Overacp
