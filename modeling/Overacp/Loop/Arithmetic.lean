import Overacp.Lib.ProgGuarded
import Overacp.Loop.Config
import Overacp.Loop.UsageAccount

/-!
# The arithmetic of the loop

The loop with its integer arithmetic at 64 bits, where an operation that does not fit panics, beside the loop
over all natural numbers. The two are the same as long as every operation fits.
-/

namespace Overacp

open Llm

/-! ### Operations at 64 bits -/

def fitting (n : Nat) : Option Nat := if n < 2 ^ 64 then some n else none

def mul? (a b : Nat) : Option Nat := fitting (a * b)

def add? (a b : Nat) : Option Nat := fitting (a + b)

def div? (a b : Nat) : Option Nat := if b = 0 then none else some (a / b)

/-- What `main` hands to the loop, if the timeout fits. -/
def Config.loopConfig? {F64 F32 : Type} (above : F64 → Nat → Nat → Bool) (config : Config F64 F32) :
    Option AgenticLoop.LoopConfig :=
  (mul? config.timeoutMinutes 60).map fun seconds =>
    { config.loopConfig above with timeout := seconds * 1000000000 }

namespace AgenticLoop

namespace Checked

/-- Go on with the result of an operation, if there is one. -/
def checked {α : Type} (result : Option α) : Loop α :=
  match result with
  | some a => pure a
  | none => Prog.panic

variable (env : Environment) (config : LoopConfig)

/-- The percentage of a log line, of the tokens in the context window. -/
def logPercentage (estTokens : Nat) (enabled : Bool) : Loop Unit :=
  if enabled = true then do
    let hundredfold ← checked (mul? estTokens 100)
    let _ ← checked (div? hundredfold config.contextWindow)
    pure ()
  else pure ()

def compactMessages (messages : List Message) (keepRecent : Nat) : Loop Compaction.CompactionResult := do
  let _ ← checked (add? keepRecent 2)
  AgenticLoop.compactMessages env messages keepRecent

def checkCompaction : Loop Unit := do
  let s ← Prog.get
  let estTokens := Compaction.estimateTokens s.messages
  if config.overThreshold estTokens = true then
    if s.compactionCount < config.maxCompactions then
      logPercentage config estTokens env.infoEnabled
      let result ← compactMessages env s.messages config.compactionKeepRecent
      adopt result
    else logPercentage config estTokens env.warnEnabled

/-- Each count but the cost is an integer. -/
def addUsage? (total usage : Usage) : Option Usage := do
  some {
    promptTokens := ← add? total.promptTokens usage.promptTokens
    completionTokens := ← add? total.completionTokens usage.completionTokens
    totalTokens := ← add? total.totalTokens usage.totalTokens
    cost := total.cost + usage.cost
    cacheReadTokens := ← add? total.cacheReadTokens usage.cacheReadTokens
    cacheCreationTokens := ← add? total.cacheCreationTokens usage.cacheCreationTokens }

def trackUsage : Option Usage → Loop Unit
  | none => pure ()
  | some usage => do
      let s ← Prog.get
      let total ← checked (addUsage? s.totalUsage usage)
      Prog.modify fun s => { s with totalUsage := total }
      tell (.quotaUpdate usage.promptTokens usage.completionTokens)

def rest (iteration : Nat) : Loop Unit := do
  windDown config iteration
  nudge
  let streamed ← callLlm env config
  trackUsage streamed.usage
  afterUsage env streamed

def iterate (iteration : Nat) : Loop Unit := do
  preamble env config
  checkCompaction env config
  rest env config iteration

def iterations : Nat → Nat → Loop Unit
  | 0, _ => pure ()
  | left + 1, iteration => do
      iterate env config iteration
      iterations left (iteration + 1)

def run (trace : List Event) (messages : List Message) : Outcome State String Unit :=
  match iterations env config config.maxIterations 0 (initial env trace messages) with
  | .next () s | .stop s => epilogue s
  | .fail e s => .fail e s
  | .panic s => .panic s

end Checked

/-! ### What fits -/

/-- A count of tokens that is summed up. -/
inductive Count where
  | prompt
  | completion
  | total
  | cacheRead
  | cacheCreation
  deriving DecidableEq, Repr

def Count.ofUsage : Count → Usage → Nat
  | prompt, usage => usage.promptTokens
  | completion, usage => usage.completionTokens
  | total, usage => usage.totalTokens
  | cacheRead, usage => usage.cacheReadTokens
  | cacheCreation, usage => usage.cacheCreationTokens

theorem Count.ofUsage_add (count : Count) (total usage : Usage) :
    count.ofUsage (addUsage total usage) = count.ofUsage total + count.ofUsage usage := by
  cases count <;> rfl

/-- Every count fits. -/
def Bounded (usage : Usage) : Prop := ∀ count : Count, count.ofUsage usage < 2 ^ 64

theorem bounded_iff {usage : Usage} : Bounded usage ↔ usage.promptTokens < 2 ^ 64 ∧
    usage.completionTokens < 2 ^ 64 ∧ usage.totalTokens < 2 ^ 64 ∧ usage.cacheReadTokens < 2 ^ 64 ∧
      usage.cacheCreationTokens < 2 ^ 64 := by
  constructor
  · intro h
    exact ⟨h .prompt, h .completion, h .total, h .cacheRead, h .cacheCreation⟩
  · rintro ⟨hprompt, hcompletion, htotal, hread, hcreation⟩ count
    cases count <;> assumption

theorem addUsage?_of_bounded {total usage : Usage} (h : Bounded (addUsage total usage)) :
    Checked.addUsage? total usage = some (addUsage total usage) := by
  obtain ⟨hprompt, hcompletion, htotal, hread, hcreation⟩ := bounded_iff.mp h
  have hadd : ∀ {a b : Nat}, a + b < 2 ^ 64 → add? a b = some (a + b) := fun hfits => if_pos hfits
  rw [Checked.addUsage?, hadd hprompt, hadd hcompletion, hadd htotal, hadd hread, hadd hcreation]
  rfl

theorem addUsage?_of_not_bounded {total usage : Usage} (h : ¬ Bounded (addUsage total usage)) :
    Checked.addUsage? total usage = none := by
  rw [← Option.not_isSome_iff_eq_none]
  intro hsome
  apply h
  obtain ⟨sum, hsum⟩ := Option.isSome_iff_exists.mp hsome
  have hadd : ∀ {a b c : Nat}, add? a b = some c → a + b < 2 ^ 64 := by
    intro a b c hc
    unfold add? fitting at hc
    split at hc
    · assumption
    · cases hc
  simp only [Checked.addUsage?, Option.bind_eq_bind, Option.bind_eq_some_iff] at hsum
  obtain ⟨_, hprompt, _, hcompletion, _, htotal, _, hread, _, hcreation, -⟩ := hsum
  exact bounded_iff.mpr ⟨hadd hprompt, hadd hcompletion, hadd htotal, hadd hread, hadd hcreation⟩

/-! ### No panic but from arithmetic -/

section

variable {env : Environment} {config : LoopConfig}

theorem ask_unpanicking {α : Type} (event : Event) (answer : List Event → α) :
    Prog.Unpanicking (ask event answer) := fun _ _ => nofun

theorem notifyOrFail_unpanicking (event : Event) : Prog.Unpanicking (notifyOrFail env event) := by
  apply (ask_unpanicking _ _).bind
  intro answer
  cases answer with
  | ok _ => exact Prog.unpanicking_pure ()
  | error e => exact Prog.unpanicking_fail e

theorem ending_unpanicking {α : Type} (event : Event) :
    Prog.Unpanicking (notifyOrFail env event >>= fun _ => Prog.stop : Loop α) :=
  (notifyOrFail_unpanicking event).bind fun _ => Prog.unpanicking_stop

theorem preamble_unpanicking : Prog.Unpanicking (preamble env config) := by
  apply Prog.Unpanicking.bind
  · apply Prog.unpanicking_get.bind
    intro s
    apply (ask_unpanicking _ _).bind
    intro now
    split
    · exact ending_unpanicking _
    · exact Prog.unpanicking_pure ()
  intro _
  apply Prog.Unpanicking.bind
  · apply Prog.unpanicking_get.bind
    intro s
    apply (ask_unpanicking _ _).bind
    intro now
    split
    · apply (ask_unpanicking _ _).bind
      intro _
      apply (ask_unpanicking _ _).bind
      intro now
      exact Prog.unpanicking_modify _
    · exact Prog.unpanicking_pure ()
  intro _
  apply (ask_unpanicking _ _).bind
  intro answer
  split
  · exact ending_unpanicking _
  · exact Prog.unpanicking_pure ()

theorem windDown_unpanicking (iteration : Nat) : Prog.Unpanicking (windDown config iteration) := by
  unfold windDown
  dsimp only
  split
  · exact Prog.unpanicking_modify _
  · exact Prog.unpanicking_pure ()

theorem nudge_unpanicking : Prog.Unpanicking nudge := by
  apply Prog.unpanicking_get.bind
  intro s
  split
  · exact (Prog.unpanicking_modify _).bind fun _ => Prog.unpanicking_modify _
  · exact Prog.unpanicking_pure ()

theorem callLlm_unpanicking : Prog.Unpanicking (callLlm env config) := by
  apply Prog.unpanicking_get.bind
  intro s
  apply (ask_unpanicking _ _).bind
  intro answer
  apply Prog.Unpanicking.bind
  · apply Prog.Unpanicking.forEach
    intro delta
    split
    · exact ask_unpanicking _ _
    · exact Prog.unpanicking_pure ()
  intro _
  split
  · exact (ask_unpanicking _ _).bind fun _ => ending_unpanicking _
  · apply (ask_unpanicking _ _).bind
    intro _
    exact (Prog.unpanicking_modify _).bind fun _ => Prog.unpanicking_pure _

theorem invoke_unpanicking (name : String) (arguments : Json) : Prog.Unpanicking (invoke env name arguments) := by
  unfold invoke
  split
  · exact (ask_unpanicking _ _).bind fun _ => Prog.unpanicking_pure _
  · exact ask_unpanicking _ _

theorem handleToolCall_unpanicking (tc : ToolCall) : Prog.Unpanicking (handleToolCall env tc) := by
  unfold handleToolCall
  dsimp only
  split
  · apply (ask_unpanicking _ _).bind
    intro _
    apply (ask_unpanicking _ _).bind
    intro _
    apply (ask_unpanicking _ _).bind
    intro _
    exact Prog.unpanicking_modify _
  · apply (ask_unpanicking _ _).bind
    intro _
    apply (ask_unpanicking _ _).bind
    intro _
    apply (invoke_unpanicking _ _).bind
    intro result
    apply (ask_unpanicking _ _).bind
    intro _
    apply (Prog.unpanicking_modify _).bind
    intro _
    apply (ask_unpanicking _ _).bind
    intro _
    exact Prog.unpanicking_modify _

theorem afterUsage_unpanicking (streamed : StreamedResponse) : Prog.Unpanicking (afterUsage env streamed) := by
  apply (Prog.unpanicking_modify _).bind
  intro _
  apply (Prog.unpanicking_modify _).bind
  intro _
  split
  · exact .forEach _ handleToolCall_unpanicking
  · unfold finish
    split
    · exact Prog.unpanicking_stop
    · exact Prog.unpanicking_stop
    · exact ending_unpanicking _
    · exact ending_unpanicking _
    · exact Prog.unpanicking_pure ()

theorem epilogue_unpanicking : Prog.Unpanicking epilogue := by
  apply Prog.unpanicking_get.bind
  intro s
  exact (ask_unpanicking _ _).bind fun _ => ask_unpanicking _ _

theorem compactMessages_unpanicking (messages : List Message) (keepRecent : Nat) :
    Prog.Unpanicking (compactMessages env messages keepRecent) := by
  unfold compactMessages
  split
  · exact Prog.unpanicking_pure _
  · apply (ask_unpanicking _ _).bind
    intro answer
    split
    · exact Prog.unpanicking_fail _
    · split
      · exact Prog.unpanicking_fail _
      · exact Prog.unpanicking_pure _

theorem adopt_unpanicking (result : Compaction.CompactionResult) : Prog.Unpanicking (adopt result) := by
  apply Prog.unpanicking_get.bind
  intro s
  dsimp only
  split
  · apply (ask_unpanicking _ _).bind
    intro _
    exact (Prog.unpanicking_modify _).bind fun _ => Prog.unpanicking_modify _
  · exact Prog.unpanicking_modify _

end

/-! ### When the checks pass -/

variable (env : Environment) (config : LoopConfig)

/-- The check writes a log line with the percentage. -/
def Logs (s : State) : Prop :=
  config.overThreshold (Compaction.estimateTokens s.messages) = true ∧
    (if s.compactionCount < config.maxCompactions then env.infoEnabled else env.warnEnabled) = true

/-- The check compacts, or finds nothing to compact. -/
def Attempts (s : State) : Prop :=
  config.overThreshold (Compaction.estimateTokens s.messages) = true ∧ s.compactionCount < config.maxCompactions

/-- The arithmetic of a compaction check fits. -/
structure CheckFits (s : State) : Prop where
  window : Logs env config s → config.contextWindow ≠ 0
  percentage : Logs env config s → Compaction.estimateTokens s.messages * 100 < 2 ^ 64
  kept : Attempts config s → config.compactionKeepRecent + 2 < 2 ^ 64

variable {env config}

theorem logPercentage_off (estTokens : Nat) {enabled : Bool} (h : enabled = false) :
    Checked.logPercentage config estTokens enabled = pure () ∧ logPercentage config enabled = pure () := by
  subst h
  exact ⟨rfl, rfl⟩

theorem logPercentage_fits {estTokens : Nat} (enabled : Bool) (hwindow : config.contextWindow ≠ 0)
    (hfits : estTokens * 100 < 2 ^ 64) :
    Checked.logPercentage config estTokens enabled = pure () ∧ logPercentage config enabled = pure () := by
  cases enabled with
  | false => exact logPercentage_off estTokens rfl
  | true =>
      constructor
      · have hmul : mul? estTokens 100 = some (estTokens * 100) := if_pos hfits
        have hdiv : div? (estTokens * 100) config.contextWindow = some _ := if_neg hwindow
        show (Checked.checked (mul? estTokens 100) >>= fun hundredfold =>
          Checked.checked (div? hundredfold config.contextWindow) >>= fun _ => pure ()) = _
        rw [hmul]
        show (Checked.checked (div? (estTokens * 100) config.contextWindow) >>= fun _ => pure ()) = _
        rw [hdiv]
        rfl
      · unfold logPercentage
        rw [if_neg fun h => hwindow h.2]

theorem guarded_logPercentage (estTokens : Nat) (enabled : Bool) :
    Prog.Guarded (Checked.logPercentage config estTokens enabled) (logPercentage config enabled)
      fun _ => enabled = true → config.contextWindow ≠ 0 ∧ estTokens * 100 < 2 ^ 64 := by
  have hcalm : (enabled = true → config.contextWindow ≠ 0 ∧ estTokens * 100 < 2 ^ 64) →
      Checked.logPercentage config estTokens enabled = pure () ∧ logPercentage config enabled = pure () := by
    intro h
    by_cases henabled : enabled = true
    · exact logPercentage_fits enabled (h henabled).1 (h henabled).2
    · exact logPercentage_off estTokens (Bool.not_eq_true _ ▸ henabled)
  intro s
  refine ⟨fun h => ?_, fun h t => ?_, fun h => ?_⟩
  · rw [(hcalm h).1, (hcalm h).2]
  · rw [(hcalm h).2]
    exact nofun
  · obtain ⟨henabled, hnot⟩ := Classical.not_imp.mp h
    refine ⟨s, ?_⟩
    rw [Checked.logPercentage, if_pos henabled]
    by_cases hfits : estTokens * 100 < 2 ^ 64
    · have hwindow : config.contextWindow = 0 := by
        by_contra hwindow
        exact hnot ⟨hwindow, hfits⟩
      have hmul : mul? estTokens 100 = some (estTokens * 100) := if_pos hfits
      have hdiv : div? (estTokens * 100) config.contextWindow = none := if_pos hwindow
      rw [hmul]
      show (Checked.checked (div? (estTokens * 100) config.contextWindow) >>= fun _ => pure ()) s = _
      rw [hdiv]
      rfl
    · have hmul : mul? estTokens 100 = none := if_neg hfits
      rw [hmul]
      rfl

theorem guarded_compactMessages (messages : List Message) (keepRecent : Nat) :
    Prog.Guarded (Checked.compactMessages env messages keepRecent) (compactMessages env messages keepRecent)
      fun _ => keepRecent + 2 < 2 ^ 64 := by
  intro s
  refine ⟨fun hfits => ?_, fun _ => compactMessages_unpanicking messages keepRecent s, fun hfits => ⟨s, ?_⟩⟩
  · unfold Checked.compactMessages add? fitting
    rw [if_pos hfits]
    rfl
  · unfold Checked.compactMessages add? fitting
    rw [if_neg hfits]
    rfl

theorem logPercentage_next {enabled : Bool} (h : enabled = true → config.contextWindow ≠ 0) (s : State) :
    logPercentage config enabled s = .next () s := by
  rw [logPercentage, if_neg fun hzero => h hzero.1 hzero.2]
  rfl

theorem logs_of_attempts {s : State} (h : Attempts config s) : Logs env config s ↔ env.infoEnabled = true := by
  rw [Logs, if_pos h.2]
  exact and_iff_right h.1

theorem guarded_checkCompaction :
    Prog.Guarded (Checked.checkCompaction env config) (checkCompaction env config) (CheckFits env config) := by
  intro s
  simp only [Checked.checkCompaction, checkCompaction, Prog.run_bind, Prog.run_get, Outcome.andThen]
  by_cases hover : config.overThreshold (Compaction.estimateTokens s.messages) = true
  · rw [if_pos hover, if_pos hover]
    by_cases hcount : s.compactionCount < config.maxCompactions
    · rw [if_pos hcount, if_pos hcount]
      have hattempts : Attempts config s := ⟨hover, hcount⟩
      have hlogs := @logs_of_attempts env config s hattempts
      have hround := (@guarded_logPercentage config (Compaction.estimateTokens s.messages) env.infoEnabled).bind
        fun _ => (@guarded_compactMessages env s.messages config.compactionKeepRecent).before adopt_unpanicking
      refine (hround s).congr ⟨fun h => ?_, fun h => ?_⟩
      · refine ⟨fun hlog => (h.1 (hlogs.mp hlog)).1, fun hlog => (h.1 (hlogs.mp hlog)).2, fun _ => ?_⟩
        exact h.2 () s (logPercentage_next (fun henabled => (h.1 henabled).1) s)
      · exact ⟨fun henabled => ⟨h.window (hlogs.mpr henabled), h.percentage (hlogs.mpr henabled)⟩,
          fun _ _ _ => h.kept hattempts⟩
    · rw [if_neg hcount, if_neg hcount]
      have hlogs : Logs env config s ↔ env.warnEnabled = true := by
        rw [Logs, if_neg hcount]
        exact and_iff_right hover
      refine (guarded_logPercentage _ _ s).congr ⟨fun h => ?_, fun h henabled => ?_⟩
      · exact ⟨fun hlog => (h (hlogs.mp hlog)).1, fun hlog => (h (hlogs.mp hlog)).2,
          fun hattempts => absurd hattempts.2 hcount⟩
      · exact ⟨h.window (hlogs.mpr henabled), h.percentage (hlogs.mpr henabled)⟩
  · rw [if_neg hover, if_neg hover]
    refine ⟨fun _ => rfl, fun _ t hpanic => ?_, fun hnot => absurd ?_ hnot⟩
    · cases hpanic
    exact ⟨fun hlog => absurd hlog.1 hover, fun hlog => absurd hlog.1 hover, fun hattempts => absurd hattempts.1 hover⟩

/-- The usage of a response fits into the total. -/
def UsageFits (usage : Option Usage) (s : State) : Prop :=
  ∀ u, usage = some u → Bounded (addUsage s.totalUsage u)

theorem guarded_trackUsage (usage : Option Usage) :
    Prog.Guarded (Checked.trackUsage usage) (trackUsage usage) (UsageFits usage) := by
  cases usage with
  | none => exact fun s => ⟨fun _ => rfl, fun _ => nofun, fun hnot => absurd nofun hnot⟩
  | some usage =>
      intro s
      refine ⟨fun hfits => ?_, fun _ => nofun, fun hnot => ⟨s, ?_⟩⟩
      · show ((Checked.checked (Checked.addUsage? s.totalUsage usage) s).andThen _) = _
        rw [addUsage?_of_bounded (hfits usage rfl)]
        rfl
      · have hunbounded : ¬ Bounded (addUsage s.totalUsage usage) := by
          intro hbounded
          refine hnot fun u hu => ?_
          obtain rfl := Option.some.inj hu
          exact hbounded
        show ((Checked.checked (Checked.addUsage? s.totalUsage usage) s).andThen _) = _
        rw [addUsage?_of_not_bounded hunbounded]
        rfl

/-- An iteration from its compaction check to the response. -/
def called (env : Environment) (config : LoopConfig) (iteration : Nat) : Loop StreamedResponse := do
  windDown config iteration
  nudge
  callLlm env config

theorem called_unpanicking (iteration : Nat) : Prog.Unpanicking (called env config iteration) := by
  apply (windDown_unpanicking iteration).bind
  intro _
  exact nudge_unpanicking.bind fun _ => callLlm_unpanicking

/-- The usage of the response that comes next, if one comes, fits into the total. -/
def RestFits (env : Environment) (config : LoopConfig) (iteration : Nat) (s : State) : Prop :=
  ∀ streamed t, called env config iteration s = .next streamed t → UsageFits streamed.usage t

theorem rest_eq_called (iteration : Nat) : rest env config iteration =
    called env config iteration >>= fun streamed => trackUsage streamed.usage >>= fun _ => afterUsage env streamed := by
  rw [called, Prog.bind_assoc]
  simp only [Prog.bind_assoc]
  rfl

theorem guarded_rest (iteration : Nat) :
    Prog.Guarded (Checked.rest env config iteration) (rest env config iteration) (RestFits env config iteration) := by
  have heq : Checked.rest env config iteration = called env config iteration >>= fun streamed =>
      Checked.trackUsage streamed.usage >>= fun _ => afterUsage env streamed := by
    rw [called, Prog.bind_assoc]
    simp only [Prog.bind_assoc]
    rfl
  rw [heq, rest_eq_called]
  refine .after (called_unpanicking iteration) fun streamed => ?_
  exact (guarded_trackUsage streamed.usage).before fun _ => afterUsage_unpanicking streamed

/-- The arithmetic of an iteration fits. -/
def IterationFits (env : Environment) (config : LoopConfig) (iteration : Nat) (s : State) : Prop :=
  ∀ u s', preamble env config s = .next u s' → CheckFits env config s' ∧
    ∀ v t, checkCompaction env config s' = .next v t → RestFits env config iteration t

theorem guarded_iterate (iteration : Nat) :
    Prog.Guarded (Checked.iterate env config iteration) (iterate env config iteration)
      (IterationFits env config iteration) :=
  .after preamble_unpanicking fun _ => guarded_checkCompaction.bind fun _ => guarded_rest iteration

/-- The arithmetic of the iterations from one on, as many as are left, fits. -/
def IterationsFit (env : Environment) (config : LoopConfig) : Nat → Nat → State → Prop
  | 0, _, _ => True
  | left + 1, iteration, s => IterationFits env config iteration s ∧
      ∀ u t, iterate env config iteration s = .next u t → IterationsFit env config left (iteration + 1) t

theorem guarded_iterations (left iteration : Nat) :
    Prog.Guarded (Checked.iterations env config left iteration) (iterations env config left iteration)
      (IterationsFit env config left iteration) := by
  induction left generalizing iteration with
  | zero => exact .of_unpanicking (Prog.unpanicking_pure ())
  | succ left ih => exact (guarded_iterate iteration).bind fun _ => ih (iteration + 1)

end AgenticLoop

end Overacp
