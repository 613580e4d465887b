import Mathlib.Data.List.Infix
import Mathlib.Tactic.Ring

/-!
# Retries of the language model client

Which failures are retried, and how long the client sleeps before the next attempt. The budget is the
default one until a failure carries a keyword of transient capacity; then it is the escalated one, and
the exponent of the backoff starts over. Durations are in nanoseconds.
-/

namespace Overacp

/-! ### Failures -/

/-- A status code with its canonical reason phrase. -/
structure StatusCode where
  code : Nat
  reason : String
  deriving DecidableEq, Repr

namespace StatusCode

def render (status : StatusCode) : String := toString status.code ++ " " ++ status.reason

def isSuccess (status : StatusCode) : Bool := 200 ≤ status.code && status.code < 300

def isServerError (status : StatusCode) : Bool := 500 ≤ status.code && status.code < 600

end StatusCode

/-- What the client asks an error of the transport, and the error in words. -/
structure ReqwestError where
  isTimeout : Bool
  isConnect : Bool
  isBody : Bool
  isDecode : Bool
  status : Option StatusCode
  display : String
  deriving DecidableEq, Repr

mutual

inductive StreamError where
  | retryable (message : String) (body : Option String) (source : ErrorSource)
  | fatal (message : String) (body : Option String) (source : ErrorSource)

inductive ErrorSource where
  | reqwest (e : ReqwestError)
  | other (message : String)
  | stream (e : StreamError)

end

namespace StreamError

def isRetryable : StreamError → Bool
  | retryable _ _ _ => true
  | fatal _ _ _ => false

def message : StreamError → String
  | retryable message _ _ => message
  | fatal message _ _ => message

/-- The body of the response, or the message where there is none. -/
def keywordHaystack : StreamError → String
  | retryable message body _ => body.getD message
  | fatal message body _ => body.getD message

def intoFatalWithPrefix (e : StreamError) (lead : String) : StreamError :=
  match e with
  | fatal message body source => fatal message body source
  | retryable message body source =>
      fatal (lead ++ ": " ++ message) none (.stream (retryable message body source))

end StreamError

/-- The seconds that elapsed are given as they are printed, with one decimal. -/
def classifyReqwestError (e : ReqwestError) (elapsed : String) : StreamError :=
  if e.isTimeout then
    .retryable ("Stream read timed out after " ++ elapsed ++ "s: " ++ e.display) none (.reqwest e)
  else if e.isConnect then
    .retryable ("Connection error during stream after " ++ elapsed ++ "s: " ++ e.display) none (.reqwest e)
  else if e.isBody || e.isDecode then
    .retryable ("Stream body error (possible connection reset) after " ++ elapsed ++ "s: " ++ e.display)
      none (.reqwest e)
  else
    match e.status with
    | some status =>
        if status.isServerError then
          .retryable ("Server error " ++ status.render ++ " during stream after " ++ elapsed ++ "s: " ++
            e.display) none (.reqwest e)
        else
          .fatal ("Client error " ++ status.render ++ " during stream after " ++ elapsed ++ "s: " ++
            e.display) none (.reqwest e)
    | none => .retryable ("Stream error after " ++ elapsed ++ "s: " ++ e.display) none (.reqwest e)

def classifyHttpResponse (status : StatusCode) (body : String) : StreamError :=
  let message := "LLM HTTP " ++ status.render ++ ": " ++ body
  if status.code = 429 ∨ status.isServerError then .retryable message (some body) (.other message)
  else .fatal message (some body) (.other message)

def transientKeywords : List String :=
  ["overload", "unavailable", "limit", "quota", "capacity", "throttle", "congestion"]

def containsTransientKeyword (s : String) : Bool :=
  let lower := s.toList.map Char.toLower
  transientKeywords.any fun k => k.toList <:+: lower

/-! ### Backoff -/

abbrev Duration := Nat

namespace Duration

def fromMillis (millis : Nat) : Duration := millis * 1000000

/-- `u64::MAX` seconds and the last nanosecond before the next one. -/
def max : Duration := 2 ^ 64 * 1000000000 - 1

end Duration

structure RetryBudget where
  maxAttempts : Nat
  baseDelay : Duration
  escalated : Bool
  deriving DecidableEq, Repr

namespace RetryBudget

def defaultBudget : RetryBudget := ⟨3, .fromMillis 500, false⟩

def escalatedBudget : RetryBudget := ⟨5, .fromMillis 2000, true⟩

/-- `none` where the power or the product overflows. -/
def delayFor (budget : RetryBudget) (retryIndex : Nat) : Option Duration :=
  if 2 ^ retryIndex < 2 ^ 32 ∧ budget.baseDelay * 2 ^ retryIndex ≤ Duration.max then
    some (budget.baseDelay * 2 ^ retryIndex)
  else none

end RetryBudget

def escalateIfTransient (budget : RetryBudget) (err : StreamError) : RetryBudget :=
  if !budget.escalated && containsTransientKeyword err.keywordHaystack then .escalatedBudget else budget

structure RetryState where
  budget : RetryBudget
  attemptNum : Nat
  exponentIdx : Nat
  deriving DecidableEq, Repr

namespace RetryState

def new : RetryState := ⟨.defaultBudget, 1, 0⟩

/-- The delay before the next attempt, if there is to be one; `none` where computing it overflows. -/
def nextDelay (state : RetryState) (err : StreamError) : Option (Option Duration × RetryState) :=
  let upgraded := escalateIfTransient state.budget err
  let escalatedNow := upgraded.escalated && !state.budget.escalated
  let state := { state with budget := upgraded }
  if !err.isRetryable || state.budget.maxAttempts ≤ state.attemptNum then some (none, state)
  else
    let state := if escalatedNow then { state with exponentIdx := 0 } else state
    (state.budget.delayFor state.exponentIdx).map fun delay => (some delay, state)

/-- `none` where a counter overflows. -/
def advance (state : RetryState) : Option RetryState :=
  if state.attemptNum + 1 < 2 ^ 32 ∧ state.exponentIdx + 1 < 2 ^ 32 then
    some ⟨state.budget, state.attemptNum + 1, state.exponentIdx + 1⟩
  else none

end RetryState

/-- The error to return, or the delay that was slept and the state of the next attempt; `none` where
something overflows. -/
def handleFailure (state : RetryState) (err : StreamError) :
    Option (Except StreamError (Duration × RetryState)) :=
  match state.nextDelay err with
  | none => none
  | some (none, _) => some (.error err)
  | some (some delay, state) => state.advance.map fun state => .ok (delay, state)

/-! ### What a failure does to the state -/

/-- The states the client comes to: the default budget counts attempts and exponents together, the
escalated one starts its exponents over. -/
def RetryState.Regular (s : RetryState) : Prop :=
  (s.budget = .defaultBudget ∧ s.attemptNum = s.exponentIdx + 1 ∧ s.attemptNum ≤ 3) ∨
    (s.budget = .escalatedBudget ∧ s.exponentIdx < s.attemptNum ∧ s.attemptNum ≤ 5)

/-- What was slept last, once anything was. -/
def RetryState.floor (s : RetryState) : Duration := s.budget.baseDelay * 2 ^ s.exponentIdx / 2

theorem RetryState.regular_new : RetryState.new.Regular := .inl ⟨rfl, rfl, by decide⟩

theorem escalateIfTransient_cases (budget : RetryBudget) (err : StreamError) :
    escalateIfTransient budget err = budget ∨
      budget.escalated = false ∧ containsTransientKeyword err.keywordHaystack = true ∧
        escalateIfTransient budget err = .escalatedBudget := by
  unfold escalateIfTransient
  by_cases hescalate : (!budget.escalated && containsTransientKeyword err.keywordHaystack) = true
  · rw [if_pos hescalate]
    simp only [Bool.and_eq_true, Bool.not_eq_true'] at hescalate
    exact .inr ⟨hescalate.1, hescalate.2, rfl⟩
  · rw [if_neg hescalate]
    exact .inl rfl

theorem RetryBudget.delayFor_of_le {budget : RetryBudget} {i : Nat}
    (hbase : budget.baseDelay ≤ Duration.fromMillis 2000) (hi : i ≤ 3) :
    budget.delayFor i = some (budget.baseDelay * 2 ^ i) := by
  have hpow : 2 ^ i ≤ 2 ^ 3 := Nat.pow_le_pow_right (by decide) hi
  have hproduct : budget.baseDelay * 2 ^ i ≤ Duration.fromMillis 2000 * 2 ^ 3 := Nat.mul_le_mul hbase hpow
  have hmax : Duration.fromMillis 2000 * 2 ^ 3 ≤ Duration.max := by decide
  rw [delayFor, if_pos ⟨by omega, hproduct.trans hmax⟩]

/-- Half of the next product is the last one. -/
theorem mul_two_pow_succ_div (base i : Nat) : base * 2 ^ (i + 1) / 2 = base * 2 ^ i := by
  rw [Nat.pow_succ, ← Nat.mul_assoc, Nat.mul_div_cancel _ (by decide : 0 < 2)]

/-- A failure that escalates or does not leads to a budget and an exponent under which the next delay is
longer than the last one. -/
theorem RetryState.Regular.upgraded {s : RetryState} (h : s.Regular) (err : StreamError)
    (hmore : s.attemptNum < (escalateIfTransient s.budget err).maxAttempts) :
    ∃ i ≤ 3, (⟨escalateIfTransient s.budget err, s.attemptNum + 1, i + 1⟩ : RetryState).Regular ∧
      (if (escalateIfTransient s.budget err).escalated && !s.budget.escalated then 0 else s.exponentIdx) = i ∧
      s.floor < (escalateIfTransient s.budget err).baseDelay * 2 ^ i ∧
      (escalateIfTransient s.budget err).baseDelay ≤ Duration.fromMillis 2000 ∧
      ((escalateIfTransient s.budget err).escalated → s.budget.escalated = true ∨
        containsTransientKeyword err.keywordHaystack = true) := by
  obtain ⟨budget, attemptNum, exponentIdx⟩ := s
  have hhalf : ∀ base : Nat, 0 < base → base * 2 ^ exponentIdx / 2 < base * 2 ^ exponentIdx :=
    fun base hbase => Nat.div_lt_self (Nat.mul_pos hbase (Nat.two_pow_pos _)) (by decide)
  rcases h with ⟨hbudget, hcount, hle⟩ | ⟨hbudget, hcount, hle⟩
  · simp only at hbudget hcount hle hmore
    subst hbudget
    rcases escalateIfTransient_cases .defaultBudget err with hsame | ⟨-, hkeyword, hup⟩
    · rw [hsame] at hmore
      simp only [hsame]
      have hlt : attemptNum < 3 := hmore
      refine ⟨exponentIdx, by omega, .inl ⟨rfl, by simp only; omega, by simp only; omega⟩, rfl,
        hhalf RetryBudget.defaultBudget.baseDelay (by decide), by decide, nofun⟩
    · simp only [hup]
      refine ⟨0, by omega, .inr ⟨rfl, by simp only; omega, by simp only; omega⟩, rfl, ?_, le_rfl,
        fun _ => .inr hkeyword⟩
      have hpow : 2 ^ exponentIdx ≤ 2 ^ 2 := Nat.pow_le_pow_right (by decide) (by omega)
      have hproduct := Nat.mul_le_mul_left RetryBudget.defaultBudget.baseDelay hpow
      have hfloor : RetryBudget.defaultBudget.baseDelay * 2 ^ 2 / 2 <
        RetryBudget.escalatedBudget.baseDelay * 2 ^ 0 := by decide
      exact lt_of_le_of_lt (Nat.div_le_div_right hproduct) hfloor
  · simp only at hbudget hcount hle hmore
    subst hbudget
    have hsame : escalateIfTransient .escalatedBudget err = .escalatedBudget := by
      rcases escalateIfTransient_cases .escalatedBudget err with hsame | ⟨hnot, -⟩
      · exact hsame
      · cases hnot
    rw [hsame] at hmore
    simp only [hsame]
    have hlt : attemptNum < 5 := hmore
    refine ⟨exponentIdx, by omega, .inr ⟨rfl, by simp only; omega, by simp only; omega⟩, rfl,
      hhalf RetryBudget.escalatedBudget.baseDelay (by decide), by decide, fun _ => .inl rfl⟩

theorem RetryState.nextDelay_of_more {s : RetryState} {err : StreamError} (hretryable : err.isRetryable = true)
    (hmore : s.attemptNum < (escalateIfTransient s.budget err).maxAttempts) {i : Nat}
    (hexponent : (if (escalateIfTransient s.budget err).escalated && !s.budget.escalated then 0
      else s.exponentIdx) = i) :
    s.nextDelay err = ((escalateIfTransient s.budget err).delayFor i).map fun delay =>
      (some delay, ⟨escalateIfTransient s.budget err, s.attemptNum, i⟩) := by
  have hgo : ¬ (!err.isRetryable || (escalateIfTransient s.budget err).maxAttempts ≤ s.attemptNum) = true := by
    simp [hretryable, hmore]
  subst hexponent
  rw [nextDelay]
  dsimp only
  rw [if_neg hgo]
  cases (escalateIfTransient s.budget err).escalated && !s.budget.escalated with
  | true => rfl
  | false => rfl

theorem RetryState.nextDelay_of_stop {s : RetryState} {err : StreamError}
    (hstop : err.isRetryable = false ∨ (escalateIfTransient s.budget err).maxAttempts ≤ s.attemptNum) :
    s.nextDelay err = some (none, { s with budget := escalateIfTransient s.budget err }) := by
  have hnone : (!err.isRetryable || (escalateIfTransient s.budget err).maxAttempts ≤ s.attemptNum) = true := by
    simpa using hstop
  rw [nextDelay]
  exact if_pos hnone

/-- From a state the client comes to nothing overflows. Another attempt follows an error that can be
retried only, after a delay longer than the last one, and the budget escalates on a keyword only. -/
theorem handleFailure_spec {s : RetryState} (h : s.Regular) (err : StreamError) :
    handleFailure s err = some (.error err) ∨
      ∃ delay t, handleFailure s err = some (.ok (delay, t)) ∧ t.Regular ∧ err.isRetryable = true ∧
        t.attemptNum = s.attemptNum + 1 ∧ s.floor < delay ∧ t.floor = delay ∧
        (t.budget.escalated → s.budget.escalated = true ∨
          containsTransientKeyword err.keywordHaystack = true) := by
  unfold handleFailure
  by_cases hstop : err.isRetryable = false ∨ (escalateIfTransient s.budget err).maxAttempts ≤ s.attemptNum
  · left
    rw [RetryState.nextDelay_of_stop hstop]
  · right
    rw [not_or, Bool.not_eq_false, Nat.not_le] at hstop
    obtain ⟨hretryable, hmore⟩ := hstop
    obtain ⟨i, hi, hregular, hexponent, hfloor, hbase, hkeyword⟩ := h.upgraded err hmore
    have hattempts : s.attemptNum ≤ 5 := by
      rcases h with ⟨-, -, hle⟩ | ⟨-, -, hle⟩ <;> omega
    rw [RetryState.nextDelay_of_more hretryable hmore hexponent, RetryBudget.delayFor_of_le hbase hi]
    refine ⟨_, _, ?_, hregular, hretryable, rfl, hfloor, mul_two_pow_succ_div _ _, hkeyword⟩
    simp only [Option.map_some, RetryState.advance]
    rw [if_pos ⟨by omega, by omega⟩]
    rfl

end Overacp
