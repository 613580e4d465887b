import Overacp.Lib.Tally
import Overacp.Lib.Transition
import Overacp.Loop.Acp
import Overacp.Loop.Checks

/-!
# The session

The life of one process: the context it starts with, then one turn after the other on the same history,
until it is cancelled or panics. A turn that ends in an error leaves the history as it was then, and the
session goes on.
-/

namespace Overacp

open Llm

/-! ### Files -/

/-- `image_url["url"] = url`, in an object that has the key. -/
def setUrl : Json → String → Json
  | .object members, url => .object (members.map fun m => if m.1 = "url" then ("url", .string url) else m)
  | value, _ => value

section

variable (resolveFileUrl : String → Except String String)

/-- `resolveFileUrl` reads the file and says its data URL, or why it cannot. -/
def resolveContentBlock : ContentBlock → ContentBlock
  | .imageUrl imageUrl =>
      match (imageUrl.get "url").bind Json.asStr with
      | none => .imageUrl imageUrl
      | some urlStr =>
          if "file:///".toList.isPrefixOf urlStr.toList then
            let pathStr := String.ofList (urlStr.toList.drop 7)
            match resolveFileUrl pathStr with
            | .ok dataUrl => .imageUrl (setUrl imageUrl dataUrl)
            | .error err => .text s!"[Image not available: {pathStr}: {err}]"
          else .imageUrl imageUrl
  | block => block

def resolveTypedBlock : TypedBlock → TypedBlock
  | .known block => .known (resolveContentBlock resolveFileUrl block)
  | .unknown value => .unknown value

def resolveContent : Content → Content
  | .blocks blocks => .blocks (blocks.map (resolveTypedBlock resolveFileUrl))
  | .text text => .text text

def resolveFileUrlsInMessage (msg : Message) : Message :=
  { msg with content := msg.content.map (resolveContent resolveFileUrl) }

def resolveFileUrls (messages : List Message) : List Message :=
  messages.map (resolveFileUrlsInMessage resolveFileUrl)

/-! ### The start -/

structure InitializeResult where
  systemPrompt : String
  messages : List Message
  toolsConfig : Json

/-- The history with the system prompt put before it, unless it has a system message there. -/
def workingContext (init : InitializeResult) : List Message :=
  let messages := resolveFileUrls resolveFileUrl init.messages
  if messages.head?.map Message.role = some .system then messages
  else AgenticLoop.systemMsg init.systemPrompt :: messages

end

/-! ### The outer loop -/

structure Session where
  trace : List AgenticLoop.Event
  messages : List Message
  alive : Bool

namespace Session

/-- The process with what it does not decide: the broker, the model, the tools, and the files. -/
structure Setting where
  env : AgenticLoop.Environment
  config : AgenticLoop.LoopConfig
  resolveFileUrl : String → Except String String
  init : InitializeResult

variable (S : Setting)

/-- The turn that a message from the user starts. -/
def turn (s : Session) (userMsg : Message) : Outcome AgenticLoop.State String Unit :=
  AgenticLoop.run S.env S.config s.trace (s.messages ++ [resolveFileUrlsInMessage S.resolveFileUrl userMsg])

def panicked : Outcome AgenticLoop.State String Unit → Bool
  | .panic _ => true
  | _ => false

/-- One round of the outer loop; an error of the turn is only logged. -/
def step (s : Session) (push : NextPush) : Option Session :=
  if s.alive then
    match push with
    | .message userMsg =>
        let outcome := turn S s userMsg
        some ⟨outcome.state.trace, outcome.state.messages, !panicked outcome⟩
    | .cancel => some { s with alive := false }
  else none

def system : Transition.System Session NextPush where
  init := ⟨[], workingContext S.resolveFileUrl S.init, true⟩
  step := step S

variable {S}

/-- A step is a turn, or the end. -/
theorem step_cases {s t : Session} {push : NextPush} (h : step S s push = some t) :
    s.alive = true ∧ ((∃ userMsg, push = .message userMsg ∧
        t = ⟨(turn S s userMsg).state.trace, (turn S s userMsg).state.messages,
          !panicked (turn S s userMsg)⟩) ∨
      push = .cancel ∧ t = { s with alive := false }) := by
  unfold step at h
  by_cases halive : s.alive = true
  · rw [if_pos halive] at h
    refine ⟨halive, ?_⟩
    cases push with
    | message userMsg => exact .inl ⟨userMsg, rfl, (Option.some.inj h).symm⟩
    | cancel => exact .inr ⟨rfl, (Option.some.inj h).symm⟩
  · rw [if_neg halive] at h
    cases h

/-! ### The first message -/

theorem resolveFileUrls_head (resolveFileUrl : String → Except String String) (messages : List Message) :
    (resolveFileUrls resolveFileUrl messages).head?.map Message.role = messages.head?.map Message.role := by
  cases messages <;> rfl

/-- Whatever the operator returns, the context starts with a system message. -/
theorem workingContext_head (resolveFileUrl : String → Except String String) (init : InitializeResult) :
    (workingContext resolveFileUrl init).head?.map Message.role = some .system := by
  unfold workingContext
  dsimp only
  split
  · assumption
  · rfl

end Session

/-! ### The head of the history -/

namespace AgenticLoop

/-- A system message at the head stays there. -/
def HeadKept (s t : State) : Prop :=
  ∀ m : Message, m.role = .system → s.messages.head? = some m → t.messages.head? = some m

theorem frame_headKept : Prog.Frame HeadKept where
  refl _ _ _ h := h
  trans _ _ _ hst htu m hrole h := htu m hrole (hst m hrole h)

theorem Appends.headKept {s t : State} (h : Appends s t) : HeadKept s t := by
  intro m _ hhead
  obtain ⟨more, hmore⟩ := h.messages
  rw [← hmore, List.head?_append, hhead]
  rfl

theorem relates_headKept {α : Type} {m : Loop α} (h : Prog.Relates Appends m) :
    Prog.Relates HeadKept m := Prog.relates_mono (fun _ _ => Appends.headKept) h

theorem checkCompaction_headKept (env : Environment) (config : LoopConfig) :
    Prog.Relates HeadKept (checkCompaction env config) := by
  intro s m hrole hhead
  rcases checkCompaction_cases env config s with
    ⟨_, hstate⟩ | ⟨slice, _, ⟨e, _, hstate⟩ | ⟨summary, _, hstate⟩⟩
  · rw [hstate]
    exact hhead
  · rw [hstate]
    exact hhead
  · have hsystem : Compaction.systemMsg s.messages = some m := by
      rw [Compaction.systemMsg, hhead, Option.filter_some, if_pos (by simpa using hrole)]
    rw [hstate, adopt_state]
    show ((Compaction.systemMsg s.messages).toList ++ _).head? = _
    rw [hsystem]
    rfl

theorem run_headKept (env : Environment) (config : LoopConfig) (trace : List Event)
    (messages : List Message) :
    HeadKept (initial env trace messages) (run env config trace messages).state := by
  apply run_relates frame_headKept
  · exact relates_headKept (relates_appends (preamble_untouched env config))
  · exact fun iteration => relates_headKept (rest_appends env config iteration)
  · exact relates_headKept (relates_appends epilogue_untouched)
  · exact fun s' _ => checkCompaction_headKept env config s'

end AgenticLoop

namespace Session

variable {S : Setting}

/-- Once the context starts with a system message, every turn and every compaction keeps it. -/
theorem head_kept {s t : Session} {pushes : List NextPush} {m : Message}
    (hrun : (system S).run s pushes = some t) (hrole : m.role = .system)
    (hhead : s.messages.head? = some m) : t.messages.head? = some m := by
  refine (system S).run_invariant (I := fun s => s.messages.head? = some m) ?_ hrun hhead
  intro s push t hstep hs
  obtain ⟨_, ⟨userMsg, _, ht⟩ | ⟨_, ht⟩⟩ := step_cases hstep
  · rw [ht]
    apply AgenticLoop.run_headKept S.env S.config s.trace _ m hrole
    show (s.messages ++ _).head? = _
    rw [List.head?_append, hs]
    rfl
  · rw [ht]
    exact hs

/-! ### Starting again after a compaction -/

/-- A system message with the prompt comes first, then the summary and the messages that were kept; and
the prompt stays first. -/
structure Resumed (S : Setting) (summary : Message) (canonical : List Message) : Prop where
  context : ∃ p : Message, p.role = .system ∧ p.content = some (.text S.init.systemPrompt) ∧
    workingContext S.resolveFileUrl S.init = p :: resolveFileUrls S.resolveFileUrl (summary :: canonical)
  kept : ∀ pushes t, (system S).run (system S).init pushes = some t →
    ∃ p : Message, p.role = .system ∧ p.content = some (.text S.init.systemPrompt) ∧
      t.messages.head? = some p

/-- A history that starts with the summary, a system message, is taken to have its prompt already. -/
theorem workingContext_documented {S : Setting} {summary : Message} {canonical : List Message}
    (hmessages : S.init.messages = summary :: canonical) (hrole : summary.role = .system) :
    workingContext S.resolveFileUrl S.init = resolveFileUrls S.resolveFileUrl (summary :: canonical) := by
  unfold workingContext
  dsimp only
  rw [resolveFileUrls_head, hmessages, if_pos]
  rw [List.head?_cons, Option.map_some, hrole]

theorem documented_resume_never_resumed {S : Setting} {summary : Message} {canonical : List Message}
    (hmessages : S.init.messages = summary :: canonical) (hrole : summary.role = .system) :
    ¬ Resumed S summary canonical := by
  intro hresumed
  obtain ⟨p, _, _, hcontext⟩ := hresumed.context
  rw [workingContext_documented hmessages hrole] at hcontext
  have hlength := congrArg List.length hcontext
  rw [List.length_cons] at hlength
  omega

/-- A cold start after a compaction, with nothing to read and nothing wrong. -/
def resuming : Setting where
  env := AgenticLoop.speechless
  config := AgenticLoop.tight
  resolveFileUrl _ := .error "no such file"
  init := ⟨"You are a careful assistant.",
    [AgenticLoop.systemMsg "The user is looking for a file.", Compaction.textMessage .user "the one I opened"],
    .null⟩

theorem resuming_never_resumed :
    ¬ Resumed resuming (AgenticLoop.systemMsg "The user is looking for a file.")
      [Compaction.textMessage .user "the one I opened"] :=
  documented_resume_never_resumed rfl rfl

/-- The process starts with the summary for its first message, and without the prompt. -/
theorem resuming_loses_prompt :
    (workingContext resuming.resolveFileUrl resuming.init).head? =
        some (AgenticLoop.systemMsg "The user is looking for a file.") ∧
      AgenticLoop.systemMsg resuming.init.systemPrompt ∉
        workingContext resuming.resolveFileUrl resuming.init ∧
      ¬ Resumed resuming (AgenticLoop.systemMsg "The user is looking for a file.")
        [Compaction.textMessage .user "the one I opened"] := by
  have hcontext : workingContext resuming.resolveFileUrl resuming.init = resuming.init.messages := by rfl
  refine ⟨by rfl, ?_, ?_⟩
  · rw [hcontext]
    simp [resuming, AgenticLoop.systemMsg, Compaction.textMessage]
  · intro hresumed
    obtain ⟨p, _, _, hstart⟩ := hresumed.context
    rw [hcontext] at hstart
    have hlength := congrArg List.length hstart
    rw [List.length_cons] at hlength
    exact absurd hlength (by decide)

/-- Where the history does not start with a system message, the prompt does come first, and it stays. -/
theorem prompt_kept {S : Setting} (h : S.init.messages.head?.map Message.role ≠ some .system)
    {pushes : List NextPush} {t : Session} (hrun : (system S).run (system S).init pushes = some t) :
    workingContext S.resolveFileUrl S.init =
        AgenticLoop.systemMsg S.init.systemPrompt :: resolveFileUrls S.resolveFileUrl S.init.messages ∧
      t.messages.head? = some (AgenticLoop.systemMsg S.init.systemPrompt) := by
  have hcontext : workingContext S.resolveFileUrl S.init =
      AgenticLoop.systemMsg S.init.systemPrompt :: resolveFileUrls S.resolveFileUrl S.init.messages := by
    unfold workingContext
    dsimp only
    rw [resolveFileUrls_head, if_neg h]
  refine ⟨hcontext, head_kept hrun rfl ?_⟩
  show (workingContext S.resolveFileUrl S.init).head? = _
  rw [hcontext]
  rfl

end Session

end Overacp
