import Overacp.Lib.ProgTwin
import Overacp.Loop.Session

/-!
# Two sessions that differ in text

Two sessions on messages that are the same but for their text, which hear the same from outside: the clock, the
model, the tools and the broker, each on its own. They take the same course, for a check that compacts in one of
them and not in the other has the model heard to say different things. So what they record is the same, as long
as what is recorded of a call is not the messages themselves.
-/

namespace Overacp

open Llm

/-! ### Messages without their text -/

def eraseBlock : TypedBlock → TypedBlock
  | .known (.text _) => .known (.text "")
  | block => block

def eraseContent : Content → Content
  | .text _ => .text ""
  | .blocks blocks => .blocks (blocks.map eraseBlock)

def eraseText (msg : Message) : Message := { msg with content := msg.content.map eraseContent }

theorem eraseBlock_eq {b b' : TypedBlock} (h : eraseBlock b = eraseBlock b') :
    b = b' ∨ ∃ s s', b = .known (.text s) ∧ b' = .known (.text s') := by
  have hother : ∀ {c : TypedBlock}, (∀ s, c ≠ .known (.text s)) → eraseBlock c = c := by
    intro c hc
    unfold eraseBlock
    split
    · rename_i s
      exact absurd rfl (hc s)
    · rfl
  by_cases htext : ∃ s, b = .known (.text s)
  · obtain ⟨s, rfl⟩ := htext
    by_cases htext' : ∃ s', b' = .known (.text s')
    · obtain ⟨s', rfl⟩ := htext'
      exact .inr ⟨s, s', rfl, rfl⟩
    · rw [hother fun s' hs' => htext' ⟨s', hs'⟩] at h
      exact absurd ⟨"", h.symm⟩ htext'
  · rw [hother fun s hs => htext ⟨s, hs⟩] at h
    by_cases htext' : ∃ s', b' = .known (.text s')
    · obtain ⟨s', rfl⟩ := htext'
      exact absurd ⟨"", h⟩ htext
    · rw [hother fun s' hs' => htext' ⟨s', hs'⟩] at h
      exact .inl h

/-- Files are resolved in the same way, for what is read of them is no text. -/
theorem eraseBlock_resolve (resolveFileUrl : String → Except String String) {b b' : TypedBlock}
    (h : eraseBlock b = eraseBlock b') :
    eraseBlock (resolveTypedBlock resolveFileUrl b) = eraseBlock (resolveTypedBlock resolveFileUrl b') := by
  rcases eraseBlock_eq h with rfl | ⟨s, s', rfl, rfl⟩
  · rfl
  · rfl

theorem eraseContent_resolve (resolveFileUrl : String → Except String String) {c c' : Content}
    (h : eraseContent c = eraseContent c') :
    eraseContent (resolveContent resolveFileUrl c) = eraseContent (resolveContent resolveFileUrl c') := by
  cases c with
  | text s =>
      cases c' with
      | text s' => rfl
      | blocks bs' => cases h
  | blocks bs =>
      cases c' with
      | text s' => cases h
      | blocks bs' =>
          have hblocks : bs.map eraseBlock = bs'.map eraseBlock := Content.blocks.inj h
          simp only [resolveContent, eraseContent, List.map_map, Content.blocks.injEq]
          induction bs generalizing bs' with
          | nil =>
              rw [List.map_nil] at hblocks
              rw [List.map_eq_nil_iff.mp hblocks.symm]
          | cons b bs ih =>
              cases bs' with
              | nil => cases hblocks
              | cons b' bs' =>
                  obtain ⟨hfirst, hrest⟩ := List.cons.inj hblocks
                  rw [List.map_cons, List.map_cons]
                  exact congrArg₂ List.cons (eraseBlock_resolve resolveFileUrl hfirst)
                    (ih bs' (congrArg Content.blocks hrest) hrest)

theorem eraseText_resolve (resolveFileUrl : String → Except String String) {m m' : Message}
    (h : eraseText m = eraseText m') :
    eraseText (resolveFileUrlsInMessage resolveFileUrl m) =
      eraseText (resolveFileUrlsInMessage resolveFileUrl m') := by
  obtain ⟨hrole, hcontent, hcalls, hid⟩ := Message.mk.inj h
  have hresolved : (m.content.map (resolveContent resolveFileUrl)).map eraseContent =
      (m'.content.map (resolveContent resolveFileUrl)).map eraseContent := by
    cases hleft : m.content with
    | none =>
        rw [hleft] at hcontent
        rw [Option.map_eq_none_iff.mp hcontent.symm]
    | some c =>
        rw [hleft] at hcontent
        obtain ⟨c', hright, heq⟩ := Option.map_eq_some_iff.mp hcontent.symm
        rw [hright]
        exact congrArg some (eraseContent_resolve resolveFileUrl heq.symm)
  rw [eraseText, eraseText, resolveFileUrlsInMessage, resolveFileUrlsInMessage, hresolved, hrole, hcalls, hid]

/-! ### Compaction without text -/

namespace Compaction

theorem unanswered_eraseText (messages : List Message) :
    unanswered (messages.map eraseText) = unanswered messages := by
  rw [unanswered, unanswered, List.foldl_map]
  rfl

theorem hasStraddlingPair_eraseText (messages : List Message) (start split : Nat) :
    hasStraddlingPair (messages.map eraseText) start split = hasStraddlingPair messages start split := by
  rw [hasStraddlingPair, hasStraddlingPair, ← List.map_take, ← List.map_drop, unanswered_eraseText]

theorem systemMsg_eraseText (messages : List Message) :
    systemMsg (messages.map eraseText) = (systemMsg messages).map eraseText := by
  cases messages with
  | nil => rfl
  | cons m messages =>
      rw [List.map_cons, systemMsg, systemMsg, List.head?_cons, List.head?_cons, Option.filter_some,
        Option.filter_some]
      show (if decide (m.role = .system) = true then some (eraseText m) else none) = _
      split <;> rfl

theorem start_eraseText (messages : List Message) : start (messages.map eraseText) = start messages := by
  rw [start, start, systemMsg_eraseText, Option.isSome_map]

theorem splitPoint_eraseText (messages : List Message) (keepRecent : Nat) :
    splitPoint (messages.map eraseText) keepRecent = splitPoint messages keepRecent := by
  have hretreat : ∀ start split, retreat (messages.map eraseText) start split = retreat messages start split := by
    intro start split
    induction split with
    | zero => rfl
    | succ split ih => rw [retreat, retreat, hasStraddlingPair_eraseText, ih]
  rw [splitPoint, splitPoint, findSafeSplit, findSafeSplit, start_eraseText, List.length_map, hretreat]

theorem toCompact_eraseText (messages : List Message) (keepRecent : Nat) :
    toCompact (messages.map eraseText) keepRecent =
      (toCompact messages keepRecent).map (List.map eraseText) := by
  rw [toCompact, toCompact, splitPoint_eraseText, start_eraseText, List.length_map]
  split
  · rfl
  · rw [Option.map_some, List.map_drop, List.map_take]

theorem compacted_eraseText {messages messages' : List Message}
    (h : messages.map eraseText = messages'.map eraseText) (keepRecent : Nat) (summary : String) :
    (compacted messages keepRecent summary).workingMessages.map eraseText =
      (compacted messages' keepRecent summary).workingMessages.map eraseText := by
  have hparts : ∀ ms : List Message, (compacted ms keepRecent summary).workingMessages.map eraseText =
      (systemMsg (ms.map eraseText)).toList ++ eraseText (compactedContext summary) ::
        recent (ms.map eraseText) keepRecent := by
    intro ms
    rw [compacted, List.map_append, List.map_cons, systemMsg_eraseText, recent, recent, splitPoint_eraseText,
      List.map_drop]
    cases systemMsg ms <;> rfl
  rw [hparts, hparts, h]

end Compaction

namespace AgenticLoop

/-! ### What is heard -/

inductive Source where
  | clock
  | model
  | tools
  | broker
  deriving DecidableEq, Repr

/-- What comes back from outside. -/
inductive Answer where
  | clock (now : Nanos)
  | completed (answer : Except String CompletionResponse)
  | streamed (answer : List String × Except LlmError StreamedResponse)
  | called (answer : Except String Json)
  | executed (answer : Except String ToolOutput)
  | quota (answer : Except String Bool)
  | updated (answer : Except String Unit)
  | notified (answer : Except String Unit)

def Answer.source : Answer → Source
  | clock _ => .clock
  | completed _ | streamed _ => .model
  | called _ | executed _ => .tools
  | quota _ | updated _ | notified _ => .broker

/-- The answer to the last event of a trace; nothing answers a record. -/
def reply (env : Environment) (trace : List Event) : Event → Option Answer
  | .clock => some (.clock (env.now trace))
  | .quotaCheck => some (.quota (env.quotaCheck trace))
  | .quotaUpdate .. => some (.updated (env.quotaUpdate trace))
  | .heartbeat | .streamTextDelta _ | .streamActivity _ | .streamToolCall .. | .streamToolResult ..
  | .contextCompacted .. | .turnEnd _ => some (.notified (env.notify trace))
  | .complete _ => some (.completed (env.complete trace))
  | .streamCompletion .. => some (.streamed (env.streamCompletion trace))
  | .toolsCall .. => some (.called (env.toolsCall trace))
  | .execute .. => some (.executed (env.execute trace))
  | .recordGeneration _ | .recordToolSpan _ | .finalize .. => none

/-- The answers to the events that come after some others. -/
def answersFrom (env : Environment) : List Event → List Event → List Answer
  | _, [] => []
  | before, event :: events =>
      (reply env (before ++ [event]) event).toList ++ answersFrom env (before ++ [event]) events

/-- What one source has said. -/
def heard (env : Environment) (source : Source) (trace : List Event) : List Answer :=
  (answersFrom env [] trace).filter fun answer => answer.source = source

variable {env : Environment}

theorem answersFrom_append (before events more : List Event) :
    answersFrom env before (events ++ more) =
      answersFrom env before events ++ answersFrom env (before ++ events) more := by
  induction events generalizing before with
  | nil => rw [List.append_nil]; rfl
  | cons event events ih =>
      rw [List.cons_append, answersFrom, answersFrom, ih, List.append_assoc, List.append_assoc,
        List.singleton_append]

theorem heard_append (source : Source) (trace more : List Event) :
    heard env source (trace ++ more) =
      heard env source trace ++ (answersFrom env trace more).filter fun answer => answer.source = source := by
  rw [heard, answersFrom_append, List.filter_append, List.nil_append]
  rfl

theorem heard_mono (source : Source) {trace trace' : List Event} (h : trace <+: trace') :
    heard env source trace <+: heard env source trace' := by
  obtain ⟨more, rfl⟩ := h
  rw [heard_append]
  exact List.prefix_append _ _

/-- What one more event has a source say. -/
theorem heard_concat (source : Source) (trace : List Event) (event : Event) :
    heard env source (trace ++ [event]) = heard env source trace ++
      (reply env (trace ++ [event]) event).toList.filter fun answer => answer.source = source := by
  rw [heard_append, answersFrom, answersFrom, List.append_nil]

/-! ### What is recorded -/

inductive Record where
  | generation (params : GenerationParams)
  | toolSpan (params : ToolSpanParams)
  | finalize (totalTokens : Nat) (cost : ℚ) (toolCount : Nat) (responseText : String)

def Event.record : Event → Option Record
  | recordGeneration params => some (.generation params)
  | recordToolSpan params => some (.toolSpan params)
  | finalize totalTokens cost toolCount responseText => some (.finalize totalTokens cost toolCount responseText)
  | _ => none

/-! ### The two runs -/

/-- The states are the same but for the text of the messages and what it went into. -/
structure Related (env : Environment) (s t : State) : Prop where
  messages : s.messages.map eraseText = t.messages.map eraseText
  heard : ∀ source, heard env source s.trace = AgenticLoop.heard env source t.trace
  recorded : s.trace.filterMap Event.record = t.trace.filterMap Event.record
  start : s.start = t.start
  totalUsage : s.totalUsage = t.totalUsage
  silentTurns : s.silentTurns = t.silentTurns
  lastHeartbeat : s.lastHeartbeat = t.lastHeartbeat
  responseText : s.responseText = t.responseText
  toolCount : s.toolCount = t.toolCount
  compactionCount : s.compactionCount = t.compactionCount

/-- The two may in the end have heard the same: one has heard as far as the other, or nothing comes after it. -/
structure Possible (env : Environment) (e e' : State × Bool) : Prop where
  agree : ∀ source, heard env source e.1.trace <+: heard env source e'.1.trace ∨
    heard env source e'.1.trace <+: heard env source e.1.trace
  left : e.2 = true → ∀ source, heard env source e'.1.trace <+: heard env source e.1.trace
  right : e'.2 = true → ∀ source, heard env source e.1.trace <+: heard env source e'.1.trace

/-- Of two lists one of which begins with the other, so it is with what they begin with. -/
theorem prefix_or_prefix {α : Type} {xs ys xs' ys' : List α} (hxs : xs <+: xs') (hys : ys <+: ys')
    (h : xs' <+: ys' ∨ ys' <+: xs') : xs <+: ys ∨ ys <+: xs := by
  rcases h with h | h
  · exact List.prefix_or_prefix_of_prefix (hxs.trans h) hys
  · exact List.prefix_or_prefix_of_prefix hxs (hys.trans h)

theorem Possible.symm {e e' : State × Bool} (h : Possible env e e') : Possible env e' e where
  agree source := (h.agree source).symm
  left := h.right
  right := h.left

theorem Possible.before {s s' : State} {b : Bool} {e : State × Bool} (hgrows : Grows s s')
    (h : Possible env (s', b) e) : Possible env (s, false) e where
  agree source := prefix_or_prefix (heard_mono source hgrows) (List.prefix_refl _) (h.agree source)
  left := nofun
  right hend source := (@heard_mono env source _ _ hgrows).trans (h.right hend source)

/-- Two runs of the loop that are to hear the same. -/
def twins (env : Environment) : Prog.Coupling State where
  related := Related env
  grows := Grows
  possible := Possible env
  refl _ := ⟨rfl, fun _ => rfl, rfl, rfl, rfl, rfl, rfl, rfl, rfl, rfl⟩
  frame := frame_grows
  left := Possible.before
  right hgrows h := (h.symm.before hgrows).symm

/-! ### The steps -/

variable {α : Type}

/-- Answers of one source to two runs that have heard the same from it are the same. -/
theorem reply_eq {trace trace' : List Event} {event event' : Event}
    (hheard : ∀ source, heard env source trace = heard env source trace')
    (hsource : (reply env (trace ++ [event]) event).map Answer.source =
      (reply env (trace' ++ [event']) event').map Answer.source)
    (hagree : ∀ source, heard env source (trace ++ [event]) <+: heard env source (trace' ++ [event']) ∨
      heard env source (trace' ++ [event']) <+: heard env source (trace ++ [event])) :
    reply env (trace ++ [event]) event = reply env (trace' ++ [event']) event' := by
  simp only [heard_concat, hheard, List.prefix_append_right_inj] at hagree
  cases hleft : reply env (trace ++ [event]) event with
  | none =>
      rw [hleft] at hsource
      exact (Option.map_eq_none_iff.mp hsource.symm).symm
  | some a =>
      rw [hleft] at hsource
      obtain ⟨b, hright, hb⟩ := Option.map_eq_some_iff.mp hsource.symm
      have hone := hagree a.source
      simp only [hleft, hright, Option.toList_some, List.filter_singleton, hb, decide_true, cond_true,
        List.cons_prefix_cons, List.prefix_rfl, and_true] at hone
      rw [hright, hone.elim id Eq.symm]

/-- Two questions to one source get the same answer. -/
theorem twin_ask {event event' : Event} {answer : List Event → α}
    (hsource : ∀ trace trace', (reply env trace event).map Answer.source =
      (reply env trace' event').map Answer.source) (hrecord : event.record = event'.record)
    (hread : ∀ trace trace', reply env trace event = reply env trace' event' → answer trace = answer trace') :
    Prog.Twin (twins env) (ask event answer) (ask event' answer) where
  growsLeft _ := List.prefix_append _ _
  growsRight _ := List.prefix_append _ _
  alike {s t} hrelated hpossible := by
    have hreply := reply_eq hrelated.heard (hsource _ _) hpossible.agree
    rw [ask, ask, hread _ _ hreply]
    refine .next _ { hrelated with heard := fun source => ?_, recorded := ?_ }
    · rw [heard_concat, heard_concat, hreply, hrelated.heard]
    · rw [List.filterMap_append, List.filterMap_append, hrelated.recorded, List.filterMap_cons,
        List.filterMap_cons, hrecord]

/-- The same question, asked in both. -/
theorem twin_ask_same {event : Event} {answer : List Event → α}
    (hsource : ∀ trace trace', (reply env trace event).map Answer.source =
      (reply env trace' event).map Answer.source)
    (hread : ∀ trace trace', reply env trace event = reply env trace' event → answer trace = answer trace') :
    Prog.Twin (twins env) (ask event answer) (ask event answer) := twin_ask hsource rfl hread

theorem twin_clock : Prog.Twin (twins env) (ask .clock env.now) (ask .clock env.now) :=
  twin_ask_same (fun _ _ => rfl) fun _ _ h => Answer.clock.inj (Option.some.inj h)

theorem twin_tell {event event' : Event}
    (hsource : ∀ trace trace', (reply env trace event).map Answer.source =
      (reply env trace' event').map Answer.source) (hrecord : event.record = event'.record) :
    Prog.Twin (twins env) (tell event) (tell event') := twin_ask hsource hrecord fun _ _ _ => rfl

theorem twin_notifyOrFail (text : String) :
    Prog.Twin (twins env) (notifyOrFail env (.streamTextDelta text))
      (notifyOrFail env (.streamTextDelta text)) := by
  apply Prog.Twin.bind
  · exact twin_ask_same (fun _ _ => rfl) fun _ _ h => Answer.notified.inj (Option.some.inj h)
  intro answer
  split
  · exact .pure ()
  · exact .fail _

/-- A change that is the same in both and leaves the trace alone. -/
theorem twin_modify {f g : State → State} (hf : ∀ s, (f s).trace = s.trace) (hg : ∀ s, (g s).trace = s.trace)
    (h : ∀ {s t}, Related env s t → Related env (f s) (g t)) :
    Prog.Twin (twins env) (Prog.modify f : Loop Unit) (Prog.modify g) := by
  have hgrows : ∀ {f : State → State}, (∀ s, (f s).trace = s.trace) → ∀ s, Grows s (f s) := by
    intro f hf s
    rw [Grows, hf]
  exact .modify (hgrows hf) (hgrows hg) h

theorem twin_pushMessage {msg msg' : Message} (h : eraseText msg = eraseText msg') :
    Prog.Twin (twins env) (pushMessage msg) (pushMessage msg') :=
  twin_modify (fun _ => rfl) (fun _ => rfl) fun hrelated =>
    { hrelated with
      messages := by rw [List.map_append, List.map_append, hrelated.messages, List.map_singleton,
        List.map_singleton, h] }

/-! ### The parts of an iteration -/

variable {config : LoopConfig}

theorem twin_checkTimeout : Prog.Twin (twins env) (checkTimeout env config) (checkTimeout env config) := by
  apply Prog.Twin.get
  intro s t hrelated
  rw [hrelated.start]
  apply twin_clock.bind
  intro now
  split
  · apply (twin_notifyOrFail _).bind
    intro _
    exact .stop
  · exact .pure ()

theorem twin_checkHeartbeat : Prog.Twin (twins env) (checkHeartbeat env) (checkHeartbeat env) := by
  apply Prog.Twin.get
  intro s t hrelated
  rw [hrelated.lastHeartbeat]
  apply twin_clock.bind
  intro now
  split
  · apply (twin_tell (fun _ _ => rfl) rfl).bind
    intro _
    apply twin_clock.bind
    intro now
    exact twin_modify (fun _ => rfl) (fun _ => rfl) fun hrelated => { hrelated with lastHeartbeat := rfl }
  · exact .pure ()

theorem twin_checkQuota : Prog.Twin (twins env) (checkQuota env) (checkQuota env) := by
  apply Prog.Twin.bind
  · exact twin_ask_same (fun _ _ => rfl) fun _ _ h => Answer.quota.inj (Option.some.inj h)
  intro answer
  split
  · apply (twin_notifyOrFail _).bind
    intro _
    exact .stop
  · exact .pure ()

theorem twin_preamble : Prog.Twin (twins env) (preamble env config) (preamble env config) := by
  apply twin_checkTimeout.bind
  intro _
  apply twin_checkHeartbeat.bind
  intro _
  exact twin_checkQuota

theorem twin_windDown (iteration : Nat) :
    Prog.Twin (twins env) (windDown config iteration) (windDown config iteration) := by
  unfold windDown
  dsimp only
  split
  · exact twin_pushMessage rfl
  · exact .pure ()

theorem twin_nudge : Prog.Twin (twins env) nudge nudge := by
  apply Prog.Twin.get
  intro s t hrelated
  rw [hrelated.silentTurns]
  split
  · apply (twin_pushMessage rfl).bind
    intro _
    exact twin_modify (fun _ => rfl) (fun _ => rfl) fun hrelated => { hrelated with silentTurns := rfl }
  · exact .pure ()

/-- The answer is reported without the messages, only with how many they are. -/
theorem twin_reportAnswer (hflag : config.langfuseCaptureInput = false) {messages messages' : List Message}
    (h : messages.map eraseText = messages'.map eraseText)
    (answer : List String × Except LlmError StreamedResponse) :
    Prog.Twin (twins env) (reportAnswer env config messages answer) (reportAnswer env config messages' answer) := by
  have hlength : messages.length = messages'.length := by
    rw [← @List.length_map _ _ messages eraseText, h, List.length_map]
  unfold reportAnswer
  simp only [hflag, Bool.false_eq_true, ↓reduceIte, hlength]
  apply Prog.Twin.bind
  · apply Prog.Twin.forEach
    intro delta
    split
    · exact twin_tell (fun _ _ => rfl) rfl
    · exact .pure ()
  intro _
  split
  · apply (twin_tell (fun _ _ => rfl) rfl).bind
    intro _
    apply (twin_notifyOrFail _).bind
    intro _
    exact .stop
  · apply (twin_tell (fun _ _ => rfl) rfl).bind
    intro _
    apply Prog.Twin.bind
    · exact twin_modify (fun _ => rfl) (fun _ => rfl) fun hrelated =>
        { hrelated with responseText := by rw [hrelated.responseText] }
    intro _
    exact .pure _

theorem twin_callLlm (hflag : config.langfuseCaptureInput = false) :
    Prog.Twin (twins env) (callLlm env config) (callLlm env config) := by
  apply Prog.Twin.get
  intro s t hrelated
  apply Prog.Twin.bind
  · exact twin_ask (fun _ _ => rfl) rfl fun _ _ h => Answer.streamed.inj (Option.some.inj h)
  intro answer
  exact twin_reportAnswer hflag hrelated.messages answer

theorem twin_trackUsage (usage : Option Usage) :
    Prog.Twin (twins env) (trackUsage usage) (trackUsage usage) := by
  cases usage with
  | none => exact .pure ()
  | some usage =>
      apply Prog.Twin.bind
      · exact twin_modify (fun _ => rfl) (fun _ => rfl) fun hrelated =>
          { hrelated with totalUsage := by rw [hrelated.totalUsage] }
      intro _
      exact twin_tell (fun _ _ => rfl) rfl

theorem twin_invoke (name : String) (arguments : Json) :
    Prog.Twin (twins env) (invoke env name arguments) (invoke env name arguments) := by
  unfold invoke
  split
  · apply Prog.Twin.bind
    · exact twin_ask_same (fun _ _ => rfl) fun _ _ h => Answer.called.inj (Option.some.inj h)
    intro answer
    exact .pure _
  · exact twin_ask_same (fun _ _ => rfl) fun _ _ h => Answer.executed.inj (Option.some.inj h)

theorem twin_handleToolCall (tc : ToolCall) :
    Prog.Twin (twins env) (handleToolCall env tc) (handleToolCall env tc) := by
  unfold handleToolCall
  dsimp only
  split
  · apply (twin_tell (fun _ _ => rfl) rfl).bind
    intro _
    apply (twin_tell (fun _ _ => rfl) rfl).bind
    intro _
    apply (twin_tell (fun _ _ => rfl) rfl).bind
    intro _
    exact twin_pushMessage rfl
  · apply (twin_tell (fun _ _ => rfl) rfl).bind
    intro _
    apply (twin_tell (fun _ _ => rfl) rfl).bind
    intro _
    apply (twin_invoke _ _).bind
    intro result
    apply (twin_tell (fun _ _ => rfl) rfl).bind
    intro _
    apply Prog.Twin.bind
    · exact twin_modify (fun _ => rfl) (fun _ => rfl) fun hrelated =>
        { hrelated with toolCount := by rw [hrelated.toolCount] }
    intro _
    apply (twin_tell (fun _ _ => rfl) rfl).bind
    intro _
    exact twin_pushMessage rfl

theorem twin_finish (reason : Option StopReason) :
    Prog.Twin (twins env) (finish env reason) (finish env reason) := by
  unfold finish
  split
  · exact .stop
  · exact .stop
  · apply (twin_notifyOrFail _).bind
    intro _
    exact .stop
  · apply (twin_notifyOrFail _).bind
    intro _
    exact .stop
  · exact .pure ()

theorem twin_rest (hflag : config.langfuseCaptureInput = false) (iteration : Nat) :
    Prog.Twin (twins env) (rest env config iteration) (rest env config iteration) := by
  apply (twin_windDown iteration).bind
  intro _
  apply twin_nudge.bind
  intro _
  apply (twin_callLlm hflag).bind
  intro streamed
  apply (twin_trackUsage _).bind
  intro _
  apply Prog.Twin.bind
  · exact twin_modify (fun _ => rfl) (fun _ => rfl) fun hrelated =>
      { hrelated with silentTurns := by rw [hrelated.silentTurns] }
  intro _
  apply (twin_pushMessage rfl).bind
  intro _
  split
  · exact .forEach _ twin_handleToolCall
  · exact twin_finish _

theorem twin_epilogue : Prog.Twin (twins env) epilogue epilogue := by
  apply Prog.Twin.get
  intro s t hrelated
  rw [hrelated.totalUsage, hrelated.toolCount, hrelated.responseText]
  apply (twin_tell (fun _ _ => rfl) rfl).bind
  intro _
  exact twin_tell (fun _ _ => rfl) rfl

/-! ### The compaction check and the rest -/

theorem twin_adopt {result result' : Compaction.CompactionResult} (hsummary : result.summary = result'.summary)
    (hworking : result.workingMessages.map eraseText = result'.workingMessages.map eraseText) :
    Prog.Twin (twins env) (adopt result) (adopt result') := by
  have hmessages : Prog.Twin (twins env)
      (Prog.modify fun s => { s with messages := result.workingMessages } : Loop Unit)
      (Prog.modify fun s => { s with messages := result'.workingMessages }) :=
    twin_modify (fun _ => rfl) (fun _ => rfl) fun hrelated => { hrelated with messages := hworking }
  apply Prog.Twin.get
  intro s t hrelated
  rw [hsummary]
  dsimp only
  split
  · apply Prog.Twin.bind
    · exact twin_tell (fun _ _ => rfl) rfl
    intro _
    apply Prog.Twin.bind
    · exact twin_modify (fun _ => rfl) (fun _ => rfl) fun hrelated =>
        { hrelated with compactionCount := by rw [hrelated.compactionCount] }
    intro _
    exact hmessages
  · exact hmessages

theorem twin_compactMessages {messages messages' : List Message}
    (h : messages.map eraseText = messages'.map eraseText) (keepRecent : Nat) :
    Prog.Twin (twins env) (compactMessages env messages keepRecent >>= adopt)
      (compactMessages env messages' keepRecent >>= adopt) := by
  have hslices := congrArg (Compaction.toCompact · keepRecent) h
  simp only [Compaction.toCompact_eraseText] at hslices
  unfold compactMessages
  cases hslice : Compaction.toCompact messages keepRecent with
  | none =>
      rw [hslice] at hslices
      rw [Option.map_eq_none_iff.mp hslices.symm]
      exact @twin_adopt env (Compaction.unchanged messages) (Compaction.unchanged messages') rfl h
  | some slice =>
      rw [hslice] at hslices
      obtain ⟨slice', hslice', -⟩ := Option.map_eq_some_iff.mp hslices.symm
      rw [hslice']
      dsimp only
      rw [Prog.bind_assoc, Prog.bind_assoc]
      apply Prog.Twin.bind
      · exact twin_ask (fun _ _ => rfl) rfl fun _ _ h => Answer.completed.inj (Option.some.inj h)
      intro answer
      cases answer with
      | error e => exact .fail e
      | ok response =>
          cases hsummary : Compaction.summaryOf response with
          | error e =>
              simp only [hsummary]
              exact .fail e
          | ok summary =>
              simp only [hsummary]
              exact twin_adopt rfl (Compaction.compacted_eraseText h keepRecent summary)

/-- Where nothing is asked of the model the check does nothing, or panics over a log line. -/
theorem checkCompaction_still {s : State} (h : ∀ slice, ¬ Asks env config s slice) :
    checkCompaction env config s = .panic s ∨ checkCompaction env config s = .next () s := by
  by_cases hdue : Due env config s
  · cases hslice : Compaction.toCompact s.messages config.compactionKeepRecent with
    | none =>
        rw [checkCompaction_due hdue, compactMessages_none hslice]
        exact .inr rfl
    | some slice => exact absurd ⟨hdue, hslice⟩ (h slice)
  · simp only [checkCompaction, Prog.run_bind, Prog.run_get, Outcome.andThen]
    split_ifs with hover hcount
    · have hlog : env.infoEnabled = true ∧ config.contextWindow = 0 := by
        by_contra hlog
        exact hdue ⟨hover, hcount, hlog⟩
      left
      simp only [logPercentage, if_pos hlog, Prog.run_bind, Prog.run_panic, Outcome.andThen]
    · unfold logPercentage
      split
      · exact .inl rfl
      · exact .inr rfl
    · exact .inr rfl

/-- The model is asked to go on before anything else is asked. -/
theorem rest_streams (iteration : Nat) (s : State) : ∃ messages tools,
    s.trace ++ [.streamCompletion messages tools] <+: (rest env config iteration s).state.trace := by
  have hwindDown : ∃ t, windDown config iteration s = .next () t ∧ t.trace = s.trace := by
    have hpush : ∀ msg, ∃ t, pushMessage msg s = .next () t ∧ t.trace = s.trace := fun _ => ⟨_, rfl, rfl⟩
    rw [windDown]
    by_cases hfew : config.maxIterations - iteration = windDownIters
    · rw [if_pos hfew]
      exact hpush _
    · rw [if_neg hfew]
      exact ⟨s, rfl, rfl⟩
  obtain ⟨s₁, hs₁, htrace₁⟩ := hwindDown
  have hnudge : ∃ t, nudge s₁ = .next () t ∧ t.trace = s₁.trace := by
    simp only [nudge, Prog.run_bind, Prog.run_get, Outcome.andThen]
    split
    · exact ⟨_, rfl, rfl⟩
    · exact ⟨s₁, rfl, rfl⟩
  obtain ⟨s₂, hs₂, htrace₂⟩ := hnudge
  refine ⟨s₂.messages, env.definitions s₂.trace, ?_⟩
  let event := Event.streamCompletion s₂.messages (env.definitions s₂.trace)
  have hsteps := steps_emits (P := fun _ => True) env fun _ _ => trivial
  have hgrows : Prog.Relates Grows (do
      let streamed ← reportAnswer env config s₂.messages (env.streamCompletion (s₂.trace ++ [event]))
      trackUsage streamed.usage
      afterUsage env streamed) := by
    apply relates_grows (P := fun _ => True)
    apply hsteps.bind (hsteps.reportAnswer hsteps.text _ _)
    intro streamed
    apply hsteps.bind (trackUsage_emits (fun _ _ => trivial) _)
    intro _
    exact hsteps.afterUsage (fun _ _ _ => ask_emits trivial _) (fun _ _ _ => ask_emits trivial _) _
  have hrest := hgrows { s₂ with trace := s₂.trace ++ [event] }
  rw [← htrace₁, ← htrace₂]
  show _ <+: ((windDown config iteration s).andThen _).state.trace
  rw [hs₁]
  show _ <+: ((nudge s₁).andThen _).state.trace
  rw [hs₂]
  exact hrest

theorem Related.symm {s t : State} (h : Related env s t) : Related env t s where
  messages := h.messages.symm
  heard source := (h.heard source).symm
  recorded := h.recorded.symm
  start := h.start.symm
  totalUsage := h.totalUsage.symm
  silentTurns := h.silentTurns.symm
  lastHeartbeat := h.lastHeartbeat.symm
  responseText := h.responseText.symm
  toolCount := h.toolCount.symm
  compactionCount := h.compactionCount.symm

/-- The model is heard to say something next. -/
def SaysNext (env : Environment) (answer : Answer) (s : State) (e : State × Bool) : Prop :=
  answer.source = .model ∧ heard env .model s.trace ++ [answer] <+: heard env .model e.1.trace

theorem saysNext_of_prefix {s : State} {e : State × Bool} {event : Event} {answer : Answer}
    (hevent : s.trace ++ [event] <+: e.1.trace) (hreply : reply env (s.trace ++ [event]) event = some answer)
    (hsource : answer.source = .model) : SaysNext env answer s e := by
  refine ⟨hsource, ?_⟩
  have hheard := @heard_mono env .model _ _ hevent
  rw [heard_concat, hreply, Option.toList_some, List.filter_singleton, hsource] at hheard
  exact hheard

/-- The next thing two runs hear from the model is one and the same. -/
theorem SaysNext.unique {s t : State} {e e' : State × Bool} {answer answer' : Answer} (hrelated : Related env s t)
    (h : SaysNext env answer s e) (h' : SaysNext env answer' t e') (hpossible : Possible env e e') :
    answer = answer' := by
  have hleft := h.2
  have hright := h'.2
  rw [hrelated.heard .model] at hleft
  have hlength : (heard env .model t.trace ++ [answer]).length ≤
      (heard env .model t.trace ++ [answer']).length := by
    rw [List.length_append, List.length_append, List.length_singleton, List.length_singleton]
  have hsame : heard env .model t.trace ++ [answer] <+: heard env .model t.trace ++ [answer'] := by
    rcases hpossible.agree .model with hagree | hagree
    · exact List.prefix_of_prefix_length_le (hleft.trans hagree) hright hlength
    · exact List.prefix_of_prefix_length_le hleft (hright.trans hagree) hlength
  rw [List.prefix_append_right_inj, List.cons_prefix_cons] at hsame
  exact hsame.1

/-- Beside a panic nothing more is heard. -/
theorem SaysNext.not_panic {s t : State} {e : State × Bool} {answer : Answer} (hrelated : Related env s t)
    (h : SaysNext env answer s e) : ¬ Possible env e (t, true) := by
  intro hpossible
  have hlength : (heard env .model s.trace ++ [answer]).length ≤ (heard env .model t.trace).length :=
    (h.2.trans (hpossible.right rfl .model)).length_le
  rw [hrelated.heard .model, List.length_append, List.length_singleton] at hlength
  omega

/-- The outcome of the rest, or of a check that comes to nothing and the rest. -/
theorem rest_saysNext (iteration : Nat) (s : State) : ∃ answer,
    SaysNext env (.streamed answer) s (rest env config iteration s).ending := by
  obtain ⟨messages, tools, hevent⟩ := @rest_streams env config iteration s
  rw [← Outcome.ending_fst] at hevent
  exact ⟨_, saysNext_of_prefix hevent rfl rfl⟩

theorem checked_grows {iteration : Nat} :
    Prog.Relates Grows (checkCompaction env config >>= fun _ => rest env config iteration) :=
  frame_grows.bind checkCompaction_grows fun _ => relates_grows (rest_asks_nothing iteration)

theorem checked_saysNext {s : State} {slice : List Message} (h : Asks env config s slice) (iteration : Nat) :
    ∃ answer, SaysNext env (.completed answer) s
      ((checkCompaction env config >>= fun _ => rest env config iteration) s).ending := by
  obtain ⟨more, htrace, -⟩ := checkCompaction_trace h
  have hevent : s.trace ++ [.complete (Compaction.summaryMessages slice)] <+:
      ((checkCompaction env config >>= fun _ => rest env config iteration) s).ending.1.trace := by
    have hcheck : s.trace ++ [.complete (Compaction.summaryMessages slice)] <+:
        (checkCompaction env config s).ending.1.trace := by
      rw [Outcome.ending_fst, htrace]
      exact List.prefix_append _ _
    rcases @Prog.Twin.ending_bind _ _ _ _ (twins env) (checkCompaction env config)
      (fun _ => rest env config iteration) (fun _ => relates_grows (rest_asks_nothing iteration)) s with
      heq | ⟨s', hend, hgrows⟩
    · rw [heq]
      exact hcheck
    · rw [hend] at hcheck
      exact hcheck.trans hgrows
  exact ⟨_, saysNext_of_prefix hevent rfl rfl⟩

/-- Where one run has the model summarize and the other has not, they do not hear the same. -/
theorem not_possible_of_asks {s t : State} {slice : List Message} (hrelated : Related env s t)
    (hs : Asks env config s slice) (ht : ∀ slice, ¬ Asks env config t slice) (iteration : Nat) :
    ¬ Possible env ((checkCompaction env config >>= fun _ => rest env config iteration) s).ending
      ((checkCompaction env config >>= fun _ => rest env config iteration) t).ending := by
  intro hpossible
  obtain ⟨answer, hasked⟩ := checked_saysNext hs iteration
  rw [Prog.run_bind _ _ t] at hpossible
  rcases checkCompaction_still ht with hstill | hstill
  · rw [hstill] at hpossible
    exact hasked.not_panic hrelated hpossible
  · rw [hstill] at hpossible
    obtain ⟨answer', hstreamed⟩ := @rest_saysNext env config iteration t
    exact absurd (hasked.unique hrelated hstreamed hpossible) nofun

theorem twin_checked (hflag : config.langfuseCaptureInput = false) (iteration : Nat) :
    Prog.Twin (twins env) (checkCompaction env config >>= fun _ => rest env config iteration)
      (checkCompaction env config >>= fun _ => rest env config iteration) where
  growsLeft := checked_grows
  growsRight := checked_grows
  alike := by
    intro s t hrelated hpossible
    by_cases hs : ∃ slice, Asks env config s slice
    · obtain ⟨slice, hs⟩ := hs
      by_cases ht : ∃ slice, Asks env config t slice
      · -- both have the model summarize
        obtain ⟨slice', ht⟩ := ht
        have htwin := (@twin_compactMessages env _ _ hrelated.messages config.compactionKeepRecent).bind
          fun _ => twin_rest hflag iteration
        have hright : ∀ {u slice}, Asks env config u slice →
            (checkCompaction env config >>= fun _ => rest env config iteration) u =
              ((compactMessages env u.messages config.compactionKeepRecent >>= adopt) >>=
                fun _ => rest env config iteration) u := by
          intro u slice hu
          rw [Prog.run_bind, Prog.run_bind, Prog.run_bind, checkCompaction_due hu.due]
        rw [hright hs, hright ht] at hpossible ⊢
        exact htwin.alike hrelated hpossible
      · exact absurd hpossible (not_possible_of_asks hrelated hs (not_exists.mp ht) iteration)
    · by_cases ht : ∃ slice, Asks env config t slice
      · obtain ⟨slice, ht⟩ := ht
        exact absurd hpossible.symm (not_possible_of_asks hrelated.symm ht (not_exists.mp hs) iteration)
      · -- neither does
        obtain ⟨answer, hleft⟩ := @rest_saysNext env config iteration s
        obtain ⟨answer', hright⟩ := @rest_saysNext env config iteration t
        rw [Prog.run_bind, Prog.run_bind] at hpossible ⊢
        rcases checkCompaction_still (not_exists.mp hs) with hs' | hs' <;>
          rcases checkCompaction_still (not_exists.mp ht) with ht' | ht' <;> rw [hs', ht'] at hpossible ⊢
        · exact .panic hrelated
        · exact absurd hpossible.symm (hright.not_panic hrelated.symm)
        · exact absurd hpossible (hleft.not_panic hrelated)
        · exact (twin_rest hflag iteration).alike hrelated hpossible

/-! ### A turn -/

theorem twin_iterations (hflag : config.langfuseCaptureInput = false) (left iteration : Nat) :
    Prog.Twin (twins env) (iterations env config left iteration) (iterations env config left iteration) := by
  induction left generalizing iteration with
  | zero => exact .pure ()
  | succ left ih =>
      apply Prog.Twin.bind
      · apply twin_preamble.bind
        intro _
        exact twin_checked hflag iteration
      intro _
      exact ih (iteration + 1)

theorem run_ending (env : Environment) (config : LoopConfig) (trace : List Event) (messages : List Message) :
    let loop := iterations env config config.maxIterations 0 (initial env trace messages)
    (run env config trace messages).ending = loop.ending ∨
      ∃ s, loop.ending = (s, false) ∧ Grows s (run env config trace messages).ending.1 := by
  dsimp only
  unfold run
  cases iterations env config config.maxIterations 0 (initial env trace messages) with
  | next _ s | stop s =>
      right
      refine ⟨s, rfl, ?_⟩
      rw [Outcome.ending_fst]
      exact relates_grows epilogue_asks_nothing s
  | fail e s | panic s => exact .inl rfl

theorem initial_grows (env : Environment) (config : LoopConfig) (trace : List Event) (messages : List Message) :
    Grows (initial env trace messages) (run env config trace messages).state := by
  apply run_relates frame_grows (relates_grows preamble_asks_nothing)
  · exact fun iteration => relates_grows (rest_asks_nothing iteration)
  · exact relates_grows epilogue_asks_nothing
  · exact fun s _ => checkCompaction_grows s

/-- Two turns on histories that are the same without their text, after the same has been heard and recorded. -/
structure Comparable (env : Environment) (trace trace' : List Event) (messages messages' : List Message) :
    Prop where
  messages : messages.map eraseText = messages'.map eraseText
  heard : ∀ source, heard env source trace = AgenticLoop.heard env source trace'
  recorded : trace.filterMap Event.record = trace'.filterMap Event.record

theorem initial_related {trace trace' : List Event} {messages messages' : List Message}
    (h : Comparable env trace trace' messages messages')
    (hagree : ∀ source, heard env source (initial env trace messages).trace <+:
        heard env source (initial env trace' messages').trace ∨
      heard env source (initial env trace' messages').trace <+:
        heard env source (initial env trace messages).trace) :
    Related env (initial env trace messages) (initial env trace' messages') := by
  have hbefore : ∀ source, heard env source (trace ++ [Event.clock]) <+: heard env source (trace' ++ [Event.clock]) ∨
      heard env source (trace' ++ [Event.clock]) <+: heard env source (trace ++ [Event.clock]) := fun source =>
    prefix_or_prefix (heard_mono source (List.prefix_append _ _)) (heard_mono source (List.prefix_append _ _))
      (hagree source)
  have hfirst := reply_eq h.heard rfl hbefore
  have hheard : ∀ source, heard env source (trace ++ [Event.clock]) = heard env source (trace' ++ [Event.clock]) := by
    intro source
    rw [heard_concat source trace Event.clock, heard_concat source trace' Event.clock, hfirst, h.heard]
  have hsecond := reply_eq hheard rfl hagree
  exact {
    messages := h.messages
    heard := fun source => by
      show heard env source (trace ++ [Event.clock] ++ [Event.clock]) =
        heard env source (trace' ++ [Event.clock] ++ [Event.clock])
      rw [heard_concat source (trace ++ [Event.clock]) Event.clock,
        heard_concat source (trace' ++ [Event.clock]) Event.clock, hsecond, hheard]
    recorded := by
      show (trace ++ [Event.clock] ++ [Event.clock]).filterMap _ =
        (trace' ++ [Event.clock] ++ [Event.clock]).filterMap _
      rw [List.filterMap_append, List.filterMap_append, List.filterMap_append, List.filterMap_append, h.recorded]
    start := Answer.clock.inj (Option.some.inj hfirst)
    totalUsage := rfl
    silentTurns := rfl
    lastHeartbeat := Answer.clock.inj (Option.some.inj hsecond)
    responseText := rfl
    toolCount := rfl
    compactionCount := rfl }

/-- Two such turns are alike, if they may in the end have heard the same. -/
theorem run_alike (hflag : config.langfuseCaptureInput = false) {trace trace' : List Event}
    {messages messages' : List Message} (h : Comparable env trace trace' messages messages')
    (hpossible : Possible env (run env config trace messages).ending (run env config trace' messages').ending) :
    Outcome.Alike (Related env) (run env config trace messages) (run env config trace' messages') := by
  have hrelated : Related env (initial env trace messages) (initial env trace' messages') := by
    refine initial_related h fun source => prefix_or_prefix (heard_mono source ?_) (heard_mono source ?_)
      (hpossible.agree source)
    · rw [Outcome.ending_fst]
      exact initial_grows env config trace messages
    · rw [Outcome.ending_fst]
      exact initial_grows env config trace' messages'
  have hloop : Possible env
      (iterations env config config.maxIterations 0 (initial env trace messages)).ending
      (iterations env config config.maxIterations 0 (initial env trace' messages')).ending := by
    have hleft : Possible env
        (iterations env config config.maxIterations 0 (initial env trace messages)).ending
        (run env config trace' messages').ending := by
      rcases run_ending env config trace messages with heq | ⟨s, hend, hgrows⟩
      · rw [← heq]
        exact hpossible
      · rw [hend]
        exact hpossible.before hgrows
    rcases run_ending env config trace' messages' with heq | ⟨s, hend, hgrows⟩
    · rw [← heq]
      exact hleft
    · rw [hend]
      exact (hleft.symm.before hgrows).symm
  have halike := (twin_iterations hflag config.maxIterations 0).alike hrelated hloop
  unfold run at hpossible ⊢
  cases hleft : iterations env config config.maxIterations 0 (initial env trace messages) <;>
    cases hright : iterations env config config.maxIterations 0 (initial env trace' messages') <;>
      rw [hleft, hright] at halike hpossible <;> cases halike
  · rename_i hstate
    exact twin_epilogue.alike hstate hpossible
  · rename_i hstate
    exact twin_epilogue.alike hstate hpossible
  · rename_i hstate
    exact .fail _ hstate
  · rename_i hstate
    exact .panic hstate

end AgenticLoop

end Overacp
