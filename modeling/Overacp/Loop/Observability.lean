import Mathlib.Data.List.Forall2
import Overacp.Lib.Json.Integer
import Overacp.Loop.Config
import Overacp.Loop.Twins

/-!
# What is sent to Langfuse

The bodies that are posted for a trace, its generations, its tool spans and its end, and the outer loop with the
posts of every turn. Each post takes two ids and three readings of the clock, by its number.
-/

namespace Overacp

open Llm

/-! ### The preview of the input -/

namespace Preview

def detailTail : Nat := 3

def systemTruncate : Nat := 200

def assistantTruncate : Nat := 300

def toolTruncate : Nat := 200

def contentToText : Option Content → String
  | none => ""
  | some (.text s) => s
  | some (.blocks blocks) => String.intercalate "\n" (blocks.map fun
      | .known (.text text) => text
      | .known (.imageUrl _) | .known (.image _) => "[image]"
      | .known (.inputAudio _) => "[audio]"
      | .unknown _ => "[media]")

def truncateStr (s : String) (max : Nat) : String :=
  let bytes := Utf8.encode s.toList
  if bytes.length ≤ max then s
  else String.ofList (Utf8.decodeLossy (bytes.take (AgenticLoop.boundaryBelow bytes max))) ++ "…[truncated]"

theorem truncateForTrace_eq (s : String) :
    AgenticLoop.truncateForTrace s = truncateStr s AgenticLoop.lfTruncate := rfl

/-- One message of the snapshot. -/
def detail (m : Message) : String :=
  let body := contentToText m.content
  match m.role with
  | .system => "\n[SYSTEM]: " ++ truncateStr body systemTruncate
  | .user => "\n[USER]: " ++ body
  | .assistant => "\n[AGENT]: " ++ truncateStr body assistantTruncate
  | .tool => "\n[TOOL " ++ m.toolCallId.getD "?" ++ "]: " ++ truncateStr body toolTruncate

def buildContextSnapshot (messages : List Message) : Json :=
  let detailStart := max (messages.length - detailTail) 1
  let skipped := detailStart - 1
  let head := if 0 < skipped then s!"<{skipped} more messages...>\n" else ""
  .string (head ++ String.join ((messages.drop detailStart).map detail))

end Preview

/-! ### The tracer -/

namespace Langfuse

structure LangfuseInner where
  baseUrl : String
  publicKey : String
  secretKey : String

structure LangfuseTracer where
  inner : Option LangfuseInner
  environment : String

structure SessionTraceInner where
  client : LangfuseInner
  traceId : String
  sessionId : String
  environment : String

def LangfuseTracer.new {F64 F32 : Type} (config : Config F64 F32) : LangfuseTracer where
  inner := match config.langfusePublicKey, config.langfuseSecretKey with
    | some pk, some sk =>
        some ⟨String.ofList (config.langfuseHost.toList.reverse.dropWhile (· = '/')).reverse, pk, sk⟩
    | _, _ => none
  environment := config.langfuseEnvironment

def LangfuseTracer.startSession (tracer : LangfuseTracer) (traceId sessionId : String) : Option SessionTraceInner :=
  tracer.inner.map fun client => ⟨client, traceId, sessionId, tracer.environment⟩

/-- What one post has of its own: the ids of the event and of its body, the time of the post, and the times at
which what it is about began and ended. -/
structure Stamp where
  id : String
  bodyId : String
  ts : String
  start : String
  finish : String

/-- A call of the session's trace. -/
inductive Report where
  | createTrace (userMessage : String) (tags : List String)
  | record (record : AgenticLoop.Record)

/-- A request to the ingestion API, with its basic authentication. -/
structure Ingestion where
  url : String
  username : String
  password : String
  body : Json

def postIngestion (client : LangfuseInner) (body : Json) : Ingestion :=
  ⟨client.baseUrl ++ "/api/public/ingestion", client.publicKey, client.secretKey, body⟩

def nat (n : Nat) : Json := .number (.ofInt n)

/-- The batch of one event. -/
def batch (stamp : Stamp) (kind : String) (body : List (String × Json)) : Json :=
  .object [("batch", .array [.object [("body", .object body), ("id", .string stamp.id),
    ("timestamp", .string stamp.ts), ("type", .string kind)]])]

section

variable (trace : SessionTraceInner) (stamp : Stamp)

def createTrace (userMessage : String) (tags : List String) : Json :=
  batch stamp "trace-create" [
    ("environment", .string trace.environment),
    ("id", .string trace.traceId),
    ("input", .string userMessage),
    ("name", .string "agent-session"),
    ("sessionId", .string trace.sessionId),
    ("tags", .array ((trace.environment :: tags).map .string)),
    ("timestamp", .string stamp.ts)]

def inputPreview : AgenticLoop.InputPreview → Json
  | .snapshot messages => Preview.buildContextSnapshot messages
  | .messageCount count => .object [("message_count", nat count)]

def optionalText : Option String → Json
  | some text => .string text
  | none => .null

/-- `float` writes a cost. -/
def recordGeneration (float : ℚ → Json) (params : AgenticLoop.GenerationParams) : Json :=
  batch stamp "generation-create" <| [
    ("endTime", .string stamp.finish),
    ("environment", .string trace.environment),
    ("id", .string stamp.bodyId),
    ("input", inputPreview params.inputPreview)] ++
    (params.level.map fun level => ("level", Json.string level)).toList ++ [
    ("metadata", .object [
      ("cache_creation_tokens", nat params.cacheCreationTokens),
      ("cache_read_tokens", nat params.cacheReadTokens),
      ("cost_usd", float params.cost),
      ("message_count", nat params.messageCount),
      ("stop_reason", .string params.stopReason)]),
    ("model", .string params.model),
    ("name", .string "llm-call"),
    ("output", optionalText params.outputText),
    ("startTime", .string stamp.start)] ++
    (params.statusMessage.map fun msg => ("statusMessage", Json.string msg)).toList ++ [
    ("traceId", .string trace.traceId),
    ("usage", .object [
      ("completionTokens", nat params.completionTokens),
      ("promptTokens", nat params.promptTokens),
      ("totalTokens", nat (params.promptTokens + params.completionTokens))])]

def recordToolSpan (params : AgenticLoop.ToolSpanParams) : Json :=
  batch stamp "span-create" [
    ("endTime", .string stamp.finish),
    ("environment", .string trace.environment),
    ("id", .string stamp.bodyId),
    ("input", .string params.input),
    ("level", .string (if params.isError then "ERROR" else "DEFAULT")),
    ("metadata", .object [("is_error", .bool params.isError)]),
    ("name", .string params.name),
    ("output", .string params.output),
    ("startTime", .string stamp.start),
    ("traceId", .string trace.traceId)]

def finalize (float : ℚ → Json) (totalTokens : Nat) (totalCost : ℚ) (toolCount : Nat) (response : String) : Json :=
  batch stamp "trace-create" [
    ("environment", .string trace.environment),
    ("id", .string trace.traceId),
    ("metadata", .object [
      ("tool_calls", nat toolCount),
      ("total_cost_usd", float totalCost),
      ("total_tokens", nat totalTokens)]),
    ("name", .string "agent-session"),
    ("output", .string response),
    ("sessionId", .string trace.sessionId),
    ("timestamp", .string stamp.ts)]

def body (float : ℚ → Json) : Report → Json
  | .createTrace userMessage tags => createTrace trace stamp userMessage tags
  | .record (.generation params) => recordGeneration trace stamp float params
  | .record (.toolSpan params) => recordToolSpan trace stamp params
  | .record (.finalize totalTokens totalCost toolCount response) =>
      finalize trace stamp float totalTokens totalCost toolCount response

end

/-- The post of a body says the user's message, and nothing else tells two of them apart. -/
theorem createTrace_inj {trace : SessionTraceInner} {stamp : Stamp} {tags : List String}
    {userMessage userMessage' : String} :
    createTrace trace stamp userMessage tags = createTrace trace stamp userMessage' tags ↔
      userMessage = userMessage' := by
  constructor
  · intro h
    simp only [createTrace, batch, Json.object.injEq, List.cons.injEq, Prod.mk.injEq, Json.array.injEq,
      Json.string.injEq, true_and, and_true] at h
    exact h
  · intro h
    rw [h]

end Langfuse

/-! ### The outer loop with its posts -/

/-- A process with its tracer. The ids and times that go into the posts come by turn and by post; `float` writes
a cost. -/
structure Process (F64 F32 : Type) where
  config : Config F64 F32
  above : F64 → Nat → Nat → Bool
  env : AgenticLoop.Environment
  resolveFileUrl : String → Except String String
  init : InitializeResult
  sessionId : String
  traceId : Nat → String
  stamp : Nat → Langfuse.Stamp
  float : ℚ → Json

namespace Process

variable {F64 F32 : Type}

def setting (P : Process F64 F32) : Session.Setting :=
  ⟨P.env, P.config.loopConfig P.above, P.resolveFileUrl, P.init⟩

def tracer (P : Process F64 F32) : Langfuse.LangfuseTracer := Langfuse.LangfuseTracer.new P.config

structure State where
  session : Session
  turns : Nat
  sent : List Langfuse.Ingestion

variable (P : Process F64 F32)

def userPreview (userMsg : Message) : String :=
  ((resolveFileUrlsInMessage P.resolveFileUrl userMsg).content.bind Content.extractText).getD ""

/-- The previews of the messages among some pushes. -/
def previews (pushes : List NextPush) : List String := pushes.filterMap fun
  | .message userMsg => some (P.userPreview userMsg)
  | .cancel => none

/-- What a turn reports, from its message and the events it has added. -/
def reports (userMsg : Message) (events : List AgenticLoop.Event) : List Langfuse.Report :=
  .createTrace (P.userPreview userMsg) (P.config.model :: P.config.agentName.toList) ::
    (events.filterMap AgenticLoop.Event.record).map .record

/-- The posts for some reports, the first of which has the given number. -/
def posts (turn number : Nat) (reports : List Langfuse.Report) : List Langfuse.Ingestion :=
  match P.tracer.startSession (P.traceId turn) P.sessionId with
  | none => []
  | some trace => (reports.zipIdx number).map fun report =>
      Langfuse.postIngestion trace.client (Langfuse.body trace (P.stamp report.2) P.float report.1)

def step (s : State) (push : NextPush) : Option State :=
  (Session.step P.setting s.session push).map fun session =>
    match push with
    | .message userMsg =>
        ⟨session, s.turns + 1, s.sent ++ P.posts s.turns s.sent.length
          (P.reports userMsg (session.trace.drop s.session.trace.length))⟩
    | .cancel => { s with session := session }

def system : Transition.System State NextPush where
  init := ⟨(Session.system P.setting).init, 0, []⟩
  step := P.step

/-! ### Two sessions -/

variable {P}

/-- The same push, but for the text of a message. -/
inductive SamePush : NextPush → NextPush → Prop
  | message {m m' : Message} (h : eraseText m = eraseText m') : SamePush (.message m) (.message m')
  | cancel : SamePush .cancel .cancel

/-- What one source outside has said in a session. -/
def heard (P : Process F64 F32) (s : State) (source : AgenticLoop.Source) : List AgenticLoop.Answer :=
  AgenticLoop.heard P.env source s.session.trace

/-- Two sessions that have had the same course. -/
structure Linked (P : Process F64 F32) (s s' : State) : Prop where
  comparable : AgenticLoop.Comparable P.env s.session.trace s'.session.trace s.session.messages s'.session.messages
  turns : s.turns = s'.turns
  sent : s.sent.length = s'.sent.length

/-- The state after the turn that a message starts. -/
def next (P : Process F64 F32) (s : State) (userMsg : Message) : State :=
  let outcome := Session.turn P.setting s.session userMsg
  ⟨⟨outcome.state.trace, outcome.state.messages, !Session.panicked outcome⟩, s.turns + 1,
    s.sent ++ P.posts s.turns s.sent.length
      (P.reports userMsg (outcome.state.trace.drop s.session.trace.length))⟩

theorem step_cases {s t : State} {push : NextPush} (hstep : P.step s push = some t) :
    (∃ userMsg, push = .message userMsg ∧ t = P.next s userMsg) ∨
      push = .cancel ∧ t = { s with session := { s.session with alive := false } } := by
  obtain ⟨session, hsession, rfl⟩ := Option.map_eq_some_iff.mp hstep
  obtain ⟨_, ⟨userMsg, rfl, rfl⟩ | ⟨rfl, rfl⟩⟩ := Session.step_cases hsession
  · exact .inl ⟨userMsg, rfl, rfl⟩
  · exact .inr ⟨rfl, rfl⟩

theorem next_trace (s : State) (m : Message) :
    s.session.trace <+: (Session.turn P.setting s.session m).state.trace := by
  refine List.IsPrefix.trans ?_ (AgenticLoop.initial_grows P.env (P.config.loopConfig P.above) s.session.trace _)
  show s.session.trace <+: s.session.trace ++ [.clock] ++ [.clock]
  rw [List.append_assoc]
  exact List.prefix_append _ _

theorem step_trace {s t : State} {push : NextPush} (hstep : P.step s push = some t) :
    s.session.trace <+: t.session.trace := by
  rcases step_cases hstep with ⟨userMsg, _, rfl⟩ | ⟨_, rfl⟩
  · exact next_trace s userMsg
  · exact List.prefix_refl _

theorem run_trace {s t : State} {pushes : List NextPush} (hrun : P.system.run s pushes = some t) :
    s.session.trace <+: t.session.trace := by
  refine P.system.run_invariant (I := fun t => s.session.trace <+: t.session.trace) ?_ hrun (List.prefix_refl _)
  intro u push t hstep hu
  exact hu.trans (step_trace hstep)

/-- A dead session takes no further push. -/
theorem run_dead {s t : State} {pushes : List NextPush} (hdead : s.session.alive = false)
    (hrun : P.system.run s pushes = some t) : t = s := by
  cases pushes with
  | nil => exact (Option.some.inj hrun).symm
  | cons push pushes =>
      obtain ⟨u, hu, _⟩ := P.system.run_cons_eq_some.mp hrun
      obtain ⟨session, hsession, _⟩ := Option.map_eq_some_iff.mp hu
      obtain ⟨halive, _⟩ := Session.step_cases hsession
      rw [hdead] at halive
      cases halive

theorem previews_cons (push : NextPush) (pushes : List NextPush) :
    P.previews (push :: pushes) = P.previews [push] ++ P.previews pushes := by
  rw [← List.singleton_append, previews, List.filterMap_append]
  rfl

/-- Posts are the same if their reports are, and there are none if there is no tracer. -/
theorem posts_eq_iff {turn number : Nat} {userMsg userMsg' : Message} {events events' : List AgenticLoop.Event}
    (hrecords : events.filterMap AgenticLoop.Event.record = events'.filterMap AgenticLoop.Event.record) :
    P.posts turn number (P.reports userMsg events) = P.posts turn number (P.reports userMsg' events') ↔
      P.tracer.inner = none ∨ P.userPreview userMsg = P.userPreview userMsg' := by
  unfold posts reports
  cases hinner : P.tracer.inner with
  | none =>
      rw [Langfuse.LangfuseTracer.startSession, hinner]
      exact ⟨fun _ => .inl rfl, fun _ => rfl⟩
  | some client =>
      rw [Langfuse.LangfuseTracer.startSession, hinner, hrecords, Option.map_some]
      simp only [List.zipIdx_cons, List.map_cons, List.cons.injEq, and_true, reduceCtorEq, false_or]
      rw [Langfuse.body, Langfuse.body, Langfuse.postIngestion, Langfuse.postIngestion,
        Langfuse.Ingestion.mk.injEq]
      simp only [true_and]
      exact Langfuse.createTrace_inj

theorem posts_length {turn number number' : Nat} {reports reports' : List Langfuse.Report}
    (h : reports.length = reports'.length) :
    (P.posts turn number reports).length = (P.posts turn number' reports').length := by
  unfold posts
  cases P.tracer.startSession (P.traceId turn) P.sessionId with
  | none => rfl
  | some trace =>
      dsimp only
      rw [List.length_map, List.length_map, List.length_zipIdx, List.length_zipIdx, h]

/-- Two sessions that may in the end have heard the same; nothing comes after one that is dead. -/
structure Possible (P : Process F64 F32) (u u' : State) : Prop where
  agree : ∀ source, P.heard u source <+: P.heard u' source ∨ P.heard u' source <+: P.heard u source
  left : u.session.alive = false → ∀ source, P.heard u' source <+: P.heard u source
  right : u'.session.alive = false → ∀ source, P.heard u source <+: P.heard u' source

theorem panicked_of_ending {o : Outcome AgenticLoop.State String Unit} (h : o.ending.2 = true) :
    Session.panicked o = true := by
  cases o with
  | panic s => rfl
  | next _ s | stop s | fail _ s => cases h

/-- Turns on messages that are the same but for their text are alike. -/
theorem turn_alike (hflag : P.config.langfuseCaptureInput = false) {s s' : State} {m m' : Message}
    (h : Linked P s s') (herase : eraseText m = eraseText m') (hpossible : Possible P (P.next s m) (P.next s' m')) :
    Outcome.Alike (AgenticLoop.Related P.env) (Session.turn P.setting s.session m)
      (Session.turn P.setting s'.session m') := by
  have hcomparable : AgenticLoop.Comparable P.env s.session.trace s'.session.trace
      (s.session.messages ++ [resolveFileUrlsInMessage P.resolveFileUrl m])
      (s'.session.messages ++ [resolveFileUrlsInMessage P.resolveFileUrl m']) :=
    { h.comparable with
      messages := by rw [List.map_append, List.map_append, h.comparable.messages, List.map_singleton,
        List.map_singleton, eraseText_resolve P.resolveFileUrl herase] }
  have hdead : ∀ {s : State} {m : Message}, (Session.turn P.setting s.session m).ending.2 = true →
      (P.next s m).session.alive = false := by
    intro s m hend
    show (!Session.panicked (Session.turn P.setting s.session m)) = false
    rw [panicked_of_ending hend, Bool.not_true]
  refine AgenticLoop.run_alike hflag hcomparable ⟨?_, ?_, ?_⟩
  · rw [Outcome.ending_fst, Outcome.ending_fst]
    exact hpossible.agree
  · intro hend
    rw [Outcome.ending_fst, Outcome.ending_fst]
    exact hpossible.left (hdead hend)
  · intro hend
    rw [Outcome.ending_fst, Outcome.ending_fst]
    exact hpossible.right (hdead hend)

/-- What two turns that are alike record is the same. -/
theorem records_eq {s s' : State} {m m' : Message} (h : Linked P s s')
    (hrelated : AgenticLoop.Related P.env (Session.turn P.setting s.session m).state
      (Session.turn P.setting s'.session m').state) :
    ((Session.turn P.setting s.session m).state.trace.drop s.session.trace.length).filterMap
        AgenticLoop.Event.record =
      ((Session.turn P.setting s'.session m').state.trace.drop s'.session.trace.length).filterMap
        AgenticLoop.Event.record := by
  obtain ⟨events, hevents⟩ := next_trace (P := P) s m
  obtain ⟨events', hevents'⟩ := next_trace (P := P) s' m'
  have hrecorded := hrelated.recorded
  rw [← hevents, ← hevents', List.filterMap_append, List.filterMap_append, h.comparable.recorded] at hrecorded
  rw [← hevents, ← hevents', List.drop_left, List.drop_left]
  exact List.append_cancel_left hrecorded

theorem next_linked (hflag : P.config.langfuseCaptureInput = false) {s s' : State} {m m' : Message}
    (h : Linked P s s') (herase : eraseText m = eraseText m') (hpossible : Possible P (P.next s m) (P.next s' m')) :
    Linked P (P.next s m) (P.next s' m') ∧ ((P.next s m).sent = (P.next s' m').sent ↔
      s.sent = s'.sent ∧ (P.tracer.inner = none ∨ P.userPreview m = P.userPreview m')) := by
  have hrelated := (turn_alike hflag h herase hpossible).state
  have hrecords := records_eq h hrelated
  have hlength : (P.reports m ((Session.turn P.setting s.session m).state.trace.drop
        s.session.trace.length)).length =
      (P.reports m' ((Session.turn P.setting s'.session m').state.trace.drop s'.session.trace.length)).length := by
    unfold reports
    rw [List.length_cons, List.length_cons, hrecords]
  refine ⟨⟨⟨hrelated.messages, hrelated.heard, hrelated.recorded⟩, congrArg (· + 1) h.turns, ?_⟩, ?_⟩
  · rw [next, next, List.length_append, List.length_append, h.sent, h.turns, posts_length hlength]
  · rw [next, next, h.turns, h.sent]
    constructor
    · intro hsent
      obtain ⟨hbefore, hposts⟩ := List.append_inj hsent h.sent
      exact ⟨hbefore, (posts_eq_iff hrecords).mp hposts⟩
    · rintro ⟨hbefore, hposts⟩
      rw [hbefore, (posts_eq_iff hrecords).mpr hposts]

theorem step_linked (hflag : P.config.langfuseCaptureInput = false) {s s' u u' : State} {push push' : NextPush}
    (h : Linked P s s') (hsame : SamePush push push') (hstep : P.step s push = some u)
    (hstep' : P.step s' push' = some u') (hpossible : Possible P u u') :
    Linked P u u' ∧ (u.sent = u'.sent ↔
      s.sent = s'.sent ∧ (P.tracer.inner = none ∨ P.previews [push] = P.previews [push'])) := by
  cases hsame with
  | cancel =>
      obtain ⟨_, hpush, _⟩ | ⟨_, rfl⟩ := step_cases hstep
      · cases hpush
      obtain ⟨_, hpush, _⟩ | ⟨_, rfl⟩ := step_cases hstep'
      · cases hpush
      exact ⟨⟨h.comparable, h.turns, h.sent⟩, fun heq => ⟨heq, .inr rfl⟩, fun heq => heq.1⟩
  | message herase =>
      obtain ⟨_, hpush, rfl⟩ | ⟨hpush, _⟩ := step_cases hstep
      swap
      · cases hpush
      obtain rfl := NextPush.message.inj hpush
      obtain ⟨_, hpush', rfl⟩ | ⟨hpush', _⟩ := step_cases hstep'
      swap
      · cases hpush'
      obtain rfl := NextPush.message.inj hpush'
      refine ⟨(next_linked hflag h herase hpossible).1, (next_linked hflag h herase hpossible).2.trans ?_⟩
      show _ ↔ _ ∧ (_ ∨ [_] = [_])
      rw [List.singleton_inj]

/-- Sessions whose last states have heard the same may have heard the same in every state before. -/
theorem possible_of_run {u u' t t' : State} {pushes pushes' : List NextPush}
    (hrun : P.system.run u pushes = some t) (hrun' : P.system.run u' pushes' = some t')
    (hheard : ∀ source, P.heard t source = P.heard t' source) : Possible P u u' where
  agree source := by
    have hleft := @AgenticLoop.heard_mono P.env source _ _ (run_trace hrun)
    have hright := @AgenticLoop.heard_mono P.env source _ _ (run_trace hrun')
    change _ <+: P.heard t' source at hright
    rw [← hheard source] at hright
    exact List.prefix_or_prefix_of_prefix hleft hright
  left hdead source := by
    rw [← run_dead hdead hrun, hheard source]
    exact AgenticLoop.heard_mono source (run_trace hrun')
  right hdead source := by
    rw [← run_dead hdead hrun', ← hheard source]
    exact AgenticLoop.heard_mono source (run_trace hrun)

theorem run_sent_iff (hflag : P.config.langfuseCaptureInput = false) {pushes pushes' : List NextPush}
    (hsame : List.Forall₂ SamePush pushes pushes') {s s' t t' : State} (h : Linked P s s')
    (hrun : P.system.run s pushes = some t) (hrun' : P.system.run s' pushes' = some t')
    (hheard : ∀ source, P.heard t source = P.heard t' source) :
    t.sent = t'.sent ↔
      s.sent = s'.sent ∧ (P.tracer.inner = none ∨ P.previews pushes = P.previews pushes') := by
  induction hsame generalizing s s' with
  | nil =>
      cases hrun
      cases hrun'
      exact ⟨fun heq => ⟨heq, .inr rfl⟩, fun heq => heq.1⟩
  | @cons push push' pushes pushes' hpush hpushes ih =>
      obtain ⟨u, hu, hrest⟩ := P.system.run_cons_eq_some.mp hrun
      obtain ⟨u', hu', hrest'⟩ := P.system.run_cons_eq_some.mp hrun'
      obtain ⟨hlinked, hsent⟩ := step_linked hflag h hpush hu hu' (possible_of_run hrest hrest' hheard)
      rw [ih hlinked hrest hrest', hsent]
      have hlength : (P.previews [push]).length = (P.previews [push']).length := by
        cases hpush <;> rfl
      rw [previews_cons push pushes, previews_cons push' pushes']
      constructor
      · rintro ⟨⟨hs, hfirst⟩, hrest⟩
        refine ⟨hs, ?_⟩
        rcases hfirst with hnone | hfirst
        · exact .inl hnone
        rcases hrest with hnone | hrest
        · exact .inl hnone
        exact .inr (by rw [hfirst, hrest])
      · rintro ⟨hs, hnone | hpreviews⟩
        · exact ⟨⟨hs, .inl hnone⟩, .inl hnone⟩
        · obtain ⟨hfirst, hrest⟩ := List.append_inj hpreviews hlength
          exact ⟨⟨hs, .inr hfirst⟩, .inr hrest⟩

/-- Where the input is not captured, two sessions that are told the same but for texts, and hear the same, send
the same if and only if there is no tracer or the texts are the same after all. -/
theorem sent_eq_iff (P : Process F64 F32) (hflag : P.config.langfuseCaptureInput = false)
    {pushes pushes' : List NextPush} (hsame : List.Forall₂ SamePush pushes pushes') {t t' : State}
    (hrun : P.system.run P.system.init pushes = some t) (hrun' : P.system.run P.system.init pushes' = some t')
    (hheard : ∀ source, P.heard t source = P.heard t' source) :
    t.sent = t'.sent ↔ P.tracer.inner = none ∨ P.previews pushes = P.previews pushes' := by
  rw [run_sent_iff hflag hsame ⟨⟨rfl, fun _ => rfl, rfl⟩, rfl, rfl⟩ hrun hrun' hheard]
  exact and_iff_right rfl

/-! ### A tracer without the input -/

/-- A configuration with both keys of Langfuse, as the environment gives it. -/
def tracedConfig : Config ℕ ℚ where
  llmApiKey := "k"
  llmApiUrl := "https://openrouter.ai/api/v1"
  model := "m"
  workspace := "."
  mcpServers := []
  maxIterations := 100
  timeoutMinutes := 60
  contextWindow := 128000
  compactionThreshold := 80
  compactionKeepRecent := 10
  maxCompactions := 3
  agentName := none
  sentryDsn := none
  sentryEnvironment := "local"
  sentryTracesSampleRate := 0.1
  langfusePublicKey := some "pk"
  langfuseSecretKey := some "sk"
  langfuseHost := "https://cloud.langfuse.com"
  langfuseEnvironment := "local"
  langfuseCaptureInput := false

/-- A traced process whose model always ends the turn and says nothing; the threshold is in hundredths. -/
def traced : Process ℕ ℚ where
  config := tracedConfig
  above threshold window tokens := threshold * window < 100 * tokens
  env := AgenticLoop.speechless
  resolveFileUrl _ := .error "no such file"
  init := ⟨"You are a careful assistant.", [], .null⟩
  sessionId := "s"
  traceId turn := s!"t{turn}"
  stamp number := ⟨s!"e{number}", s!"b{number}", "", "", ""⟩
  float _ := Langfuse.nat 0

/-- Where the session is after one message. -/
def afterText (text : String) : State := traced.next traced.system.init (Compaction.textMessage .user text)

/-- The session that one message makes. -/
structure Told (text : String) (t : State) : Prop where
  run : traced.system.run traced.system.init [.message (Compaction.textMessage .user text)] = some t
  heard : ∀ source, traced.heard t source = traced.heard (afterText "hello") source

theorem told_hello : Told "hello" (afterText "hello") := ⟨rfl, fun _ => rfl⟩

theorem told_goodbye : Told "goodbye" (afterText "goodbye") where
  run := rfl
  heard source := by cases source <;> rfl

theorem samePush_text (text text' : String) : SamePush (.message (Compaction.textMessage .user text))
    (.message (Compaction.textMessage .user text')) := .message rfl

theorem sent_eq_iff_traced : ∃ t t', Told "hello" t ∧ Told "goodbye" t' ∧
    (t.sent = t'.sent ↔ traced.tracer.inner = none ∨
      traced.previews [.message (Compaction.textMessage .user "hello")] =
        traced.previews [.message (Compaction.textMessage .user "goodbye")]) :=
  ⟨_, _, told_hello, told_goodbye, sent_eq_iff traced rfl (.cons (samePush_text "hello" "goodbye") .nil)
    told_hello.run told_goodbye.run fun source => (told_goodbye.heard source).symm⟩

/-- The input is not captured, and what the user says is sent all the same. -/
theorem texts_are_sent : traced.config.langfuseCaptureInput = false ∧
    SamePush (.message (Compaction.textMessage .user "hello")) (.message (Compaction.textMessage .user "goodbye")) ∧
    ∃ t t', Told "hello" t ∧ Told "goodbye" t' ∧ t.sent ≠ t'.sent := by
  refine ⟨rfl, samePush_text "hello" "goodbye", _, _, told_hello, told_goodbye, ?_⟩
  intro hsent
  have hbodies : (afterText "hello").sent.map (fun post => post.body.print) =
      (afterText "goodbye").sent.map (fun post => post.body.print) := by
    rw [hsent]
  exact absurd hbodies (by decide +kernel)

end Process

end Overacp
