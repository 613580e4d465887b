import Overacp.Loop.Llm.Retry
import Overacp.Loop.Llm.Stream

/-!
# Streaming a completion

`stream_completion` posts the request until an attempt succeeds, fails for good or uses the budget up.
What an attempt meets is given: the transport fails, or a response comes with a status, a body and the
chunks the body is read by. An attempt that handed anything on is never repeated. The process ends in the middle of
an attempt where the calls of a response cannot be held.
-/

namespace Overacp

open Llm

/-! ### One attempt -/

structure Response where
  status : StatusCode
  text : String
  chunks : List (Except (ReqwestError × String) (List UInt8))

/-- What posting the request comes to; an error of the transport has the seconds that elapsed with it. -/
abbrev Sent := Except (ReqwestError × String) Response

def postOrClassify : Sent → Except StreamError Response
  | .ok resp =>
      if resp.status.isSuccess then .ok resp else .error (classifyHttpResponse resp.status resp.text)
  | .error e => .error (classifyReqwestError e.1 e.2)

/-- How an attempt ended, `none` with the process; the texts it passed to `on_text`, and `emitted`. -/
structure Attempt where
  outcome : Option (Except StreamError StreamedResponse)
  texts : List String
  emitted : Bool

def attempt (host : Host) (sent : Sent) : Attempt :=
  match postOrClassify sent with
  | .error e => ⟨some (.error e), [], false⟩
  | .ok resp =>
      let (outcome, texts, emitted) := processStream host resp.chunks
      ⟨outcome.map (Except.mapError fun e => classifyReqwestError e.1 e.2), texts, emitted⟩

/-! ### The loop -/

inductive Completed where
  | response (v : StreamedResponse)
  | error (e : StreamError)
  | overflow
  | exhausted

/-- What a completion came to, the attempts it made and the delays it slept between them. -/
structure Completion where
  outcome : Completed
  attempts : List Attempt
  slept : List Duration

def midStreamPrefix : String := "mid-stream error after partial output emitted; cannot retry safely"

/-- An error after partial output is fatal. -/
def guardEmitted (emitted : Bool) (e : StreamError) : StreamError :=
  if emitted && e.isRetryable then e.intoFatalWithPrefix midStreamPrefix else e

/-- What was handed on once is not handed on again. -/
theorem isRetryable_guardEmitted (e : StreamError) : (guardEmitted true e).isRetryable = false := by
  cases e with
  | retryable message body source => rfl
  | fatal message body source => rfl

section

variable (host : Host)

/-- The loop of `stream_completion`, for at most `fuel` attempts. -/
def streamCompletionLoop : Nat → RetryState → (Nat → Sent) → Option Completion
  | 0, _, _ => none
  | fuel + 1, state, sent =>
      let made := attempt host (sent 0)
      match made.outcome with
      | none => some ⟨.exhausted, [made], []⟩
      | some (.ok v) => some ⟨.response v, [made], []⟩
      | some (.error e) =>
          match handleFailure state (guardEmitted made.emitted e) with
          | none => some ⟨.overflow, [made], []⟩
          | some (.error e) => some ⟨.error e, [made], []⟩
          | some (.ok (delay, state)) =>
              (streamCompletionLoop fuel state fun n => sent (n + 1)).map fun c =>
                ⟨c.outcome, made :: c.attempts, delay :: c.slept⟩

end

/-- What a completion comes to that ends with the attempt. -/
def Attempt.completed (a : Attempt) : Completed :=
  match a.outcome with
  | none => .exhausted
  | some (.ok v) => .response v
  | some (.error e) => .error (guardEmitted a.emitted e)

section

variable {host : Host}

/-! ### What a stream hands on -/

/-- The content is the texts that were passed on, and nothing was handed on unless the flag says so. -/
def Assembly.Sound (asm : Assembly) : Prop :=
  asm.content = String.join asm.texts ∧ (asm.emitted = false → asm.texts = [] ∧ asm.toolCalls = some [])

namespace Assembly.Sound

variable {asm : Assembly}

theorem setUsage (h : asm.Sound) (usage : Option Usage) : (asm.setUsage usage).Sound := by
  cases usage with
  | none => exact h
  | some u => exact h

theorem setFinishReason (h : asm.Sound) (reason : Option StopReason) : (asm.setFinishReason reason).Sound := by
  cases reason with
  | none => exact h
  | some reason => exact h

theorem pushText (h : asm.Sound) (text : Option String) : (asm.pushText text).Sound := by
  cases text with
  | none => exact h
  | some text =>
      refine ⟨?_, fun hemitted => by cases hemitted⟩
      simp only [Assembly.pushText, h.1]
      simp

theorem pushToolCalls (h : asm.Sound) (deltas : Option (List ToolCallDelta)) :
    (asm.pushToolCalls host deltas).Sound := by
  cases deltas with
  | none => exact h
  | some deltas => exact ⟨h.1, fun hemitted => by cases hemitted⟩

theorem applyChoice (h : asm.Sound) (choice : Choice) : (asm.applyChoice host choice).Sound := by
  unfold Assembly.applyChoice
  split
  · exact h
  · exact ((h.setFinishReason _).pushText _).pushToolCalls _

theorem applyEvent (h : asm.Sound) (event : StreamEvent) : (asm.applyEvent host event).Sound := by
  rw [Assembly.applyEvent]
  have hstart := h.setUsage event.usage
  generalize asm.setUsage event.usage = start at hstart
  induction event.choices generalizing start with
  | nil => exact hstart
  | cons choice choices ih => exact ih (start.applyChoice host choice) (hstart.applyChoice choice)

theorem drainLines (h : asm.Sound) (fuel : Nat) (buffer : List Char) :
    (drainLines host fuel asm buffer).1.Sound := by
  induction fuel generalizing asm buffer with
  | zero => exact h
  | succ fuel ih =>
      rw [Overacp.drainLines]
      cases findLine buffer with
      | none => exact h
      | some found =>
          obtain ⟨line, rest⟩ := found
          dsimp only
          cases sseLine host line with
          | skip => exact ih h rest
          | done => exact h
          | event event => exact ih (h.applyEvent event) rest

theorem processChunks {ε : Type} (state : Assembly × List Char) (h : state.1.Sound)
    (chunks : List (Except ε (List UInt8))) : (processChunks host state chunks).2.Sound := by
  induction chunks generalizing state with
  | nil => exact h
  | cons chunk chunks ih =>
      cases chunk with
      | error e => exact h
      | ok chunk => exact ih (processChunk host state chunk) (h.drainLines _ _)

end Assembly.Sound

variable (host) in
/-- What an attempt had assembled when it ended. -/
def assembled (sent : Sent) : Assembly :=
  match postOrClassify sent with
  | .error _ => .empty
  | .ok resp => (processChunks host (.empty, []) resp.chunks).2

theorem assembled_sound (sent : Sent) : (assembled host sent).Sound := by
  have hempty : Assembly.empty.Sound := ⟨rfl, fun _ => ⟨rfl, rfl⟩⟩
  unfold assembled
  cases postOrClassify sent with
  | error e => exact hempty
  | ok resp => exact Assembly.Sound.processChunks (.empty, []) hempty resp.chunks

theorem texts_attempt (sent : Sent) : (attempt host sent).texts = (assembled host sent).texts := by
  unfold attempt assembled
  cases postOrClassify sent <;> rfl

theorem emitted_attempt (sent : Sent) : (attempt host sent).emitted = (assembled host sent).emitted := by
  unfold attempt assembled
  cases postOrClassify sent <;> rfl

/-- An attempt that handed nothing on passed no text and assembled no tool call. -/
theorem silent_of_not_emitted {sent : Sent} (h : (attempt host sent).emitted = false) :
    (attempt host sent).texts = [] ∧ (assembled host sent).toolCalls = some [] := by
  rw [emitted_attempt] at h
  rw [texts_attempt]
  exact (assembled_sound sent).2 h

/-- The text of a response, empty where it has none. -/
def StreamedResponse.text (v : StreamedResponse) : String := (v.message.content.bind Content.asText).getD ""

theorem text_responseOf (asm : Assembly) (calls : List PartialToolCall) :
    (asm.responseOf calls).text = asm.content := by
  simp only [StreamedResponse.text, Assembly.responseOf]
  by_cases hempty : asm.content = ""
  · rw [if_pos hempty, hempty]
    rfl
  · rw [if_neg hempty]
    rfl

/-- The texts of an attempt that succeeds are the text of its response. -/
theorem text_of_attempt {sent : Sent} {v : StreamedResponse} (h : (attempt host sent).outcome = some (.ok v)) :
    String.join (attempt host sent).texts = v.text := by
  rw [texts_attempt, ← (@assembled_sound host sent).1]
  unfold attempt at h
  unfold assembled
  cases hpost : postOrClassify sent with
  | error e =>
      rw [hpost] at h
      cases h
  | ok resp =>
      rw [hpost] at h
      obtain ⟨outcome, houtcome, hmapped⟩ := Option.map_eq_some_iff.mp h
      obtain ⟨response, hresponse, rfl⟩ := Option.map_eq_some_iff.mp houtcome
      obtain ⟨calls, -, rfl⟩ := Option.map_eq_some_iff.mp hresponse
      cases hfailed : (processChunks host (.empty, []) resp.chunks).1 with
      | some e =>
          rw [hfailed] at hmapped
          cases hmapped
      | none =>
          rw [hfailed] at hmapped
          rw [← Except.ok.inj hmapped, text_responseOf]

/-! ### Every sequence of attempts -/

variable (host) in
/-- What is the case of a completion that starts in a state and meets the given responses. -/
structure Retried (s : RetryState) (sent : Nat → Sent) (c : Completion) : Prop where
  attempts : c.attempts = (List.range c.attempts.length).map fun n => attempt host (sent n)
  slept : c.attempts.length = c.slept.length + 1
  made : c.attempts.length + s.attemptNum ≤ 6
  default : s.budget.escalated = false →
    (∀ a ∈ c.attempts, ∀ e, a.outcome = some (.error e) → containsTransientKeyword e.keywordHaystack = false) →
      c.attempts.length + s.attemptNum ≤ 4
  silent : ∀ n, n + 1 < c.attempts.length → (attempt host (sent n)).emitted = false ∧
    ∃ e, (attempt host (sent n)).outcome = some (.error e) ∧ e.isRetryable = true
  ends : c.attempts.getLast?.map Attempt.completed = some c.outcome
  text : ∀ v, c.outcome = .response v → String.join (c.attempts.flatMap Attempt.texts) = v.text
  longer : ∀ delay ∈ c.slept, s.floor < delay
  increasing : c.slept.Pairwise (· < ·)
  completes : c.outcome ≠ .overflow

theorem outcome_of_completed {a : Attempt} {v : StreamedResponse} (h : a.completed = .response v) :
    a.outcome = some (.ok v) := by
  unfold Attempt.completed at h
  split at h
  · cases h
  · rename_i hok
    rw [hok, Completed.response.inj h]
  · cases h

theorem completed_ne_overflow (a : Attempt) : a.completed ≠ .overflow := by
  unfold Attempt.completed
  split <;> exact Completed.noConfusion

/-- A completion that ends with its first attempt. -/
theorem Retried.single {s : RetryState} (h : s.Regular) (sent : Nat → Sent) :
    Retried host s sent ⟨(attempt host (sent 0)).completed, [attempt host (sent 0)], []⟩ where
  attempts := rfl
  slept := rfl
  made := by
    simp only [List.length_singleton]
    rcases h with ⟨-, -, hle⟩ | ⟨-, -, hle⟩ <;> omega
  default := by
    intro hdefault _
    simp only [List.length_singleton]
    rcases h with ⟨-, -, hle⟩ | ⟨hbudget, -, -⟩
    · omega
    · rw [hbudget] at hdefault
      cases hdefault
  silent := by
    intro n hn
    simp only [List.length_singleton] at hn
    omega
  ends := rfl
  text := by
    intro v hv
    rw [List.flatMap_singleton]
    exact text_of_attempt (outcome_of_completed hv)
  longer := by simp
  increasing := List.Pairwise.nil
  completes := completed_ne_overflow _

/-- An attempt that handed nothing on, before a completion that starts in the next state. -/
theorem Retried.cons {s t : RetryState} {sent : Nat → Sent} {c : Completion} {e : StreamError}
    (h : Retried host t (fun n => sent (n + 1)) c) (houtcome : (attempt host (sent 0)).outcome = some (.error e))
    (hsilent : (attempt host (sent 0)).emitted = false) (hretryable : e.isRetryable = true)
    (hattempt : t.attemptNum = s.attemptNum + 1)
    (hlonger : s.floor < t.floor)
    (hkeyword : t.budget.escalated → s.budget.escalated = true ∨
      containsTransientKeyword e.keywordHaystack = true) :
    Retried host s sent ⟨c.outcome, attempt host (sent 0) :: c.attempts, t.floor :: c.slept⟩ where
  attempts := by
    rw [List.length_cons, List.range_succ_eq_map, List.map_cons, List.map_map]
    exact congrArg _ h.attempts
  slept := by rw [List.length_cons, List.length_cons, h.slept]
  made := by
    have hmade := h.made
    rw [List.length_cons]
    omega
  default := by
    intro hdefault hclean
    have hnext : t.budget.escalated = false := by
      by_contra hescalated
      rcases hkeyword (by simpa using hescalated) with hold | hfound
      · rw [hdefault] at hold
        cases hold
      · rw [hclean _ List.mem_cons_self e houtcome] at hfound
        cases hfound
    have hrest := h.default hnext fun a ha => hclean a (List.mem_cons_of_mem _ ha)
    rw [List.length_cons]
    omega
  silent := by
    intro n hn
    cases n with
    | zero => exact ⟨hsilent, e, houtcome, hretryable⟩
    | succ n =>
        rw [List.length_cons] at hn
        exact h.silent n (by omega)
  ends := by
    rw [List.getLast?_cons_of_ne_nil, h.ends]
    intro hnil
    have hends := h.ends
    rw [hnil] at hends
    cases hends
  text := by
    intro v hv
    rw [List.flatMap_cons, (silent_of_not_emitted hsilent).1, List.nil_append]
    exact h.text v hv
  longer := by
    intro delay hdelay
    rcases List.mem_cons.mp hdelay with rfl | hlater
    · exact hlonger
    · exact hlonger.trans (h.longer delay hlater)
  increasing := List.pairwise_cons.mpr ⟨h.longer, h.increasing⟩
  completes := h.completes

theorem streamCompletionLoop_retried {fuel : Nat} {s : RetryState} {sent : Nat → Sent} (h : s.Regular)
    (hfuel : 6 ≤ fuel + s.attemptNum) :
    ∃ c, streamCompletionLoop host fuel s sent = some c ∧ Retried host s sent c := by
  induction fuel generalizing s sent with
  | zero =>
      have hle : s.attemptNum ≤ 5 := by
        rcases h with ⟨-, -, hle⟩ | ⟨-, -, hle⟩ <;> omega
      omega
  | succ fuel ih =>
      rw [streamCompletionLoop]
      cases houtcome : (attempt host (sent 0)).outcome with
      | none =>
          have hcompleted : (attempt host (sent 0)).completed = .exhausted := by rw [Attempt.completed, houtcome]
          exact ⟨_, rfl, hcompleted ▸ .single h sent⟩
      | some result =>
          cases result with
          | ok v =>
              have hcompleted : (attempt host (sent 0)).completed = .response v := by rw [Attempt.completed, houtcome]
              exact ⟨_, rfl, hcompleted ▸ .single h sent⟩
          | error e =>
              rcases handleFailure_spec h (guardEmitted (attempt host (sent 0)).emitted e) with hstop | hmore
              · simp only [hstop]
                have hcompleted : (attempt host (sent 0)).completed =
                    .error (guardEmitted (attempt host (sent 0)).emitted e) := by
                  rw [Attempt.completed, houtcome]
                exact ⟨_, rfl, hcompleted ▸ .single h sent⟩
              · obtain ⟨delay, t, hnext, hregular, hretryable, hattempt, hlonger, hfloor, hkeyword⟩ := hmore
                simp only [hnext]
                have hsilent : (attempt host (sent 0)).emitted = false := by
                  by_contra hemitted
                  rw [Bool.not_eq_false] at hemitted
                  rw [hemitted, isRetryable_guardEmitted] at hretryable
                  cases hretryable
                have hguard : guardEmitted (attempt host (sent 0)).emitted e = e := by
                  rw [guardEmitted, hsilent]
                  rfl
                rw [hguard] at hkeyword hretryable
                obtain ⟨c, hc, hretried⟩ := @ih t (fun n => sent (n + 1)) hregular (by omega)
                rw [hc]
                subst hfloor
                exact ⟨_, rfl, hretried.cons houtcome hsilent hretryable hattempt hlonger hkeyword⟩

/-- More fuel changes nothing. -/
theorem streamCompletionLoop_mono {fuel fuel' : Nat} {s : RetryState} {sent : Nat → Sent} {c : Completion}
    (hle : fuel ≤ fuel') (h : streamCompletionLoop host fuel s sent = some c) :
    streamCompletionLoop host fuel' s sent = some c := by
  induction fuel generalizing fuel' s sent c with
  | zero => cases h
  | succ fuel ih =>
      obtain ⟨k, rfl⟩ : ∃ k, fuel' = k + 1 := ⟨fuel' - 1, by omega⟩
      rw [streamCompletionLoop] at h ⊢
      cases houtcome : (attempt host (sent 0)).outcome with
      | none =>
          rw [houtcome] at h
          exact h
      | some result =>
          cases result with
          | ok v =>
              rw [houtcome] at h
              exact h
          | error e =>
              simp only [houtcome] at h ⊢
              cases hfailure : handleFailure s (guardEmitted (attempt host (sent 0)).emitted e) with
              | none =>
                  rw [hfailure] at h
                  exact h
              | some result =>
                  rw [hfailure] at h
                  cases result with
                  | error e => exact h
                  | ok next =>
                      obtain ⟨c', hc', hc⟩ := Option.map_eq_some_iff.mp h
                      exact Option.map_eq_some_iff.mpr ⟨c', ih (by omega) hc', hc⟩

end

/-- Whatever its attempts meet, a completion comes to an end: after five attempts at most, and after
three if none failed with a keyword. It comes to what its last attempt came to; every other failed with an error that
can be retried and handed on no text and no tool call, so the texts passed on are those of the response. The delays
grow, and nothing overflows. -/
theorem streamCompletion_retries (host : Host) (sent : Nat → Sent) :
    ∃ c, (∀ fuel, 5 ≤ fuel → streamCompletionLoop host fuel .new sent = some c) ∧
      (c.attempts = (List.range c.attempts.length).map fun n => attempt host (sent n)) ∧
      c.attempts.length ≤ 5 ∧
      ((∀ a ∈ c.attempts, ∀ e, a.outcome = some (.error e) → containsTransientKeyword e.keywordHaystack = false) →
        c.attempts.length ≤ 3) ∧
      (∀ n, n + 1 < c.attempts.length → (attempt host (sent n)).emitted = false ∧
        (attempt host (sent n)).texts = [] ∧ (assembled host (sent n)).toolCalls = some []) ∧
      (∀ n, n + 1 < c.attempts.length →
        ∃ e, (attempt host (sent n)).outcome = some (.error e) ∧ e.isRetryable = true) ∧
      c.attempts.getLast?.map Attempt.completed = some c.outcome ∧
      (∀ v, c.outcome = .response v → String.join (c.attempts.flatMap Attempt.texts) = v.text) ∧
      c.attempts.length = c.slept.length + 1 ∧ c.slept.Pairwise (· < ·) ∧ c.outcome ≠ .overflow := by
  obtain ⟨c, hc, h⟩ := @streamCompletionLoop_retried host 5 .new sent RetryState.regular_new (by decide)
  have hfive : c.attempts.length + 1 ≤ 6 := h.made
  refine ⟨c, fun fuel hfuel => streamCompletionLoop_mono hfuel hc, h.attempts, by omega, ?_, ?_,
    fun n hn => (h.silent n hn).2, h.ends, h.text, h.slept, h.increasing, h.completes⟩
  · intro hclean
    have hthree : c.attempts.length + 1 ≤ 4 := h.default rfl hclean
    omega
  · intro n hn
    exact ⟨(h.silent n hn).1, silent_of_not_emitted (h.silent n hn).1⟩

end Overacp
