import Overacp.Loop.AgenticLoop

/-!
# The configuration of the agent

What the process reads from its environment. A number that does not parse counts as its default; only the key
of the language model has none. Floating point is a parameter, known by how it reads a text.
-/

namespace Overacp

/-! ### Numbers -/

/-- The digits of a number, after a plus sign or not. -/
def unsignedDigits : List Char → List Char
  | '+' :: cs => cs
  | cs => cs

/-- `str::parse` at the unsigned type of some width. -/
def parseUnsigned (width : Nat) (s : String) : Option Nat :=
  let cs := unsignedDigits s.toList
  if cs ≠ [] ∧ cs.all Char.isDigit = true ∧ Json.Number.natOfDigits cs < 2 ^ width then
    some (Json.Number.natOfDigits cs)
  else none

theorem parseUnsigned_lt {width n : Nat} {s : String} (h : parseUnsigned width s = some n) : n < 2 ^ width := by
  unfold parseUnsigned at h
  dsimp only at h
  split at h
  · rename_i hdigits
    rw [← Option.some.inj h]
    exact hdigits.2.2
  · cases h

/-! ### The variables -/

structure Config (F64 F32 : Type) where
  llmApiKey : String
  llmApiUrl : String
  model : String
  workspace : String
  mcpServers : List String
  maxIterations : Nat
  timeoutMinutes : Nat
  contextWindow : Nat
  compactionThreshold : F64
  compactionKeepRecent : Nat
  maxCompactions : Nat
  agentName : Option String
  sentryDsn : Option String
  sentryEnvironment : String
  sentryTracesSampleRate : F32
  langfusePublicKey : Option String
  langfuseSecretKey : Option String
  langfuseHost : String
  langfuseEnvironment : String
  langfuseCaptureInput : Bool

namespace Config

/-- The variables of the process that are set, to a text. -/
abbrev Vars := String → Option String

/-- A number, read from the default text where the variable is not set, and the default where it is no number. -/
def unsignedVar (vars : Vars) (name text : String) (default : Nat) : Nat :=
  (parseUnsigned 64 ((vars name).getD text)).getD default

/-- A text without the whitespace around it, if there is more than that. -/
def textVar (vars : Vars) (name : String) : Option String :=
  ((vars name).map fun s => String.ofList (trim s.toList)).filter fun s => s ≠ ""

variable {F64 F32 : Type} [OfScientific F64] [OfScientific F32]

def fromEnv (parseF64 : String → Option F64) (parseF32 : String → Option F32) (vars : Vars) :
    Except String (Config F64 F32) :=
  match vars "LLM_API_KEY" with
  | none => .error "LLM_API_KEY must be set"
  | some llmApiKey => .ok {
      llmApiKey := llmApiKey
      llmApiUrl := (vars "LLM_API_URL").getD "https://openrouter.ai/api/v1"
      model := (vars "OVERFOLDER_MODEL").getD "anthropic/claude-sonnet-4-20250514"
      workspace := (vars "OVERFOLDER_WORKSPACE").getD "."
      mcpServers := (((vars "MCP_SERVERS").getD "").toList.splitOn ',').map
        (fun s => String.ofList (trim s)) |>.filter fun s => s ≠ ""
      maxIterations := unsignedVar vars "MAX_ITERATIONS" "100" 100
      timeoutMinutes := unsignedVar vars "TIMEOUT_MINUTES" "60" 60
      contextWindow := unsignedVar vars "CONTEXT_WINDOW" "128000" 128000
      compactionThreshold := (parseF64 ((vars "COMPACTION_THRESHOLD").getD "0.80")).getD 0.80
      compactionKeepRecent := unsignedVar vars "COMPACTION_KEEP_RECENT" "10" 10
      maxCompactions := unsignedVar vars "MAX_COMPACTIONS" "3" 3
      agentName := textVar vars "OVERLOOP_AGENT_NAME"
      sentryDsn := textVar vars "SENTRY_DSN"
      sentryEnvironment := (vars "SENTRY_ENVIRONMENT").getD "local"
      sentryTracesSampleRate := ((vars "SENTRY_TRACES_SAMPLE_RATE").bind parseF32).getD 0.1
      langfusePublicKey := textVar vars "LANGFUSE_PUBLIC_KEY"
      langfuseSecretKey := textVar vars "LANGFUSE_SECRET_KEY"
      langfuseHost := (vars "LANGFUSE_HOST").getD "https://cloud.langfuse.com"
      langfuseEnvironment := (vars "LANGFUSE_ENVIRONMENT").getD "local"
      langfuseCaptureInput := ((vars "LANGFUSE_CAPTURE_INPUT").map fun s =>
        ["1", "true", "yes"].contains (String.ofList (trim s.toList)).toLower).getD false }

/-- What is accepted is accepted for its key alone. -/
theorem fromEnv_eq_ok_iff {parseF64 : String → Option F64} {parseF32 : String → Option F32} {vars : Vars} :
    (∃ config, fromEnv parseF64 parseF32 vars = .ok config) ↔ (vars "LLM_API_KEY").isSome = true := by
  unfold fromEnv
  cases vars "LLM_API_KEY" with
  | none => exact ⟨nofun, nofun⟩
  | some llmApiKey => exact ⟨fun _ => rfl, fun _ => ⟨_, rfl⟩⟩

theorem unsignedVar_lt (vars : Vars) (name text : String) {default : Nat} (hdefault : default < 2 ^ 64) :
    unsignedVar vars name text default < 2 ^ 64 := by
  unfold unsignedVar
  cases hparse : parseUnsigned 64 ((vars name).getD text) with
  | none => exact hdefault
  | some n => exact parseUnsigned_lt hparse

/-- The numbers of a configuration are those of their types. -/
structure Bounded (config : Config F64 F32) : Prop where
  maxIterations : config.maxIterations < 2 ^ 64
  timeoutMinutes : config.timeoutMinutes < 2 ^ 64
  contextWindow : config.contextWindow < 2 ^ 64
  compactionKeepRecent : config.compactionKeepRecent < 2 ^ 64
  maxCompactions : config.maxCompactions < 2 ^ 64

theorem fromEnv_bounded {parseF64 : String → Option F64} {parseF32 : String → Option F32} {vars : Vars}
    {config : Config F64 F32} (h : fromEnv parseF64 parseF32 vars = .ok config) : config.Bounded := by
  unfold fromEnv at h
  split at h
  · cases h
  · cases h
    exact ⟨unsignedVar_lt _ _ _ (by decide), unsignedVar_lt _ _ _ (by decide), unsignedVar_lt _ _ _ (by decide),
      unsignedVar_lt _ _ _ (by decide), unsignedVar_lt _ _ _ (by decide)⟩

/-- What `main` hands to the loop. `above threshold window tokens` compares the tokens with that fraction of the
window. -/
def loopConfig (above : F64 → Nat → Nat → Bool) (config : Config F64 F32) : AgenticLoop.LoopConfig where
  maxIterations := config.maxIterations
  timeout := config.timeoutMinutes * 60 * 1000000000
  model := config.model
  contextWindow := config.contextWindow
  overThreshold := above config.compactionThreshold config.contextWindow
  compactionKeepRecent := config.compactionKeepRecent
  maxCompactions := config.maxCompactions
  langfuseCaptureInput := config.langfuseCaptureInput

end Config

end Overacp
