import Mathlib.Data.Finset.Basic
import Overacp.Loop.Llm.Types

/-!
# Compaction

Older messages are replaced by a summary when the context grows too large. What to ask the language
model, and what to make of its answer, are two functions here; the call between them belongs to the
loop.
-/

namespace Overacp

open Llm

namespace Compaction

def compactionPrompt : String :=
  "You are summarizing a conversation between a user and an AI assistant. " ++
  "Preserve all important context: decisions made, files modified, " ++
  "key findings, current task state, and any commitments or next steps. " ++
  "Be concise but complete — this summary replaces the original messages."

structure CompactionResult where
  workingMessages : List Message
  canonicalMessages : List Message
  summary : String

/-! ### The split -/

/-- The calls of `messages` that no tool message of it has answered. -/
def unanswered (messages : List Message) : Finset String :=
  messages.foldl (fun open_ msg =>
    match msg.role with
    | .assistant => (msg.toolCalls.getD []).foldl (fun open_ c => insert c.id open_) open_
    | .tool =>
        match msg.toolCallId with
        | some id => open_.erase id
        | none => open_
    | _ => open_) ∅

def hasStraddlingPair (messages : List Message) (start split : Nat) : Bool :=
  unanswered ((messages.take split).drop start) ≠ ∅

/-- The loop of `find_safe_split`: back from the proposed split to one that parts no pair. -/
def retreat (messages : List Message) (start : Nat) : Nat → Nat
  | 0 => 0
  | split + 1 =>
      if split + 1 > start ∧ hasStraddlingPair messages start (split + 1) = true then
        retreat messages start split
      else split + 1

def findSafeSplit (messages : List Message) (start proposed : Nat) : Nat :=
  retreat messages start (min proposed messages.length)

/-! ### The summary -/

def roleName : Role → String
  | .user => "User"
  | .assistant => "Assistant"
  | .tool => "Tool"
  | .system => "System"

def textMessage (role : Role) (text : String) : Message := ⟨role, some (.text text), none, none⟩

/-- The messages `summarize` sends. -/
def summaryMessages (messages : List Message) : List Message :=
  let parts := messages.filterMap fun m =>
    (m.content.bind Content.extractText).map fun text => roleName m.role ++ ": " ++ text
  [textMessage .system compactionPrompt,
    textMessage .user ("Summarize this conversation:\n\n" ++ String.intercalate "\n\n" parts)]

/-- What `summarize` makes of the response. -/
def summaryOf (response : CompletionResponse) : Except String String :=
  match ((response.choices.head?.bind Choice.message).bind Message.content).bind Content.asText with
  | some summary => .ok summary
  | none => .error "compaction returned empty response"

def compactedContext (summary : String) : Message :=
  textMessage .system ("<compacted_context>\n" ++ summary ++ "\n</compacted_context>")

/-! ### `compact_messages` -/

/-- The system prompt at the head of the history. -/
def systemMsg (messages : List Message) : Option Message :=
  messages.head?.filter fun m => m.role = .system

def start (messages : List Message) : Nat := if (systemMsg messages).isSome then 1 else 0

def splitPoint (messages : List Message) (keepRecent : Nat) : Nat :=
  findSafeSplit messages (start messages) (messages.length - keepRecent)

/-- The messages to be summarized; `none` where the history is left as it is. -/
def toCompact (messages : List Message) (keepRecent : Nat) : Option (List Message) :=
  if messages.length ≤ keepRecent + 2 ∨ splitPoint messages keepRecent ≤ start messages then none
  else some ((messages.take (splitPoint messages keepRecent)).drop (start messages))

def recent (messages : List Message) (keepRecent : Nat) : List Message :=
  messages.drop (splitPoint messages keepRecent)

def unchanged (messages : List Message) : CompactionResult := ⟨messages, messages, ""⟩

def compacted (messages : List Message) (keepRecent : Nat) (summary : String) : CompactionResult where
  workingMessages := (systemMsg messages).toList ++ compactedContext summary :: recent messages keepRecent
  canonicalMessages := recent messages keepRecent
  summary := summary

def estimateTokens (messages : List Message) : Nat :=
  ((messages.filterMap Message.content).map Content.estimateTokens).sum

end Compaction

end Overacp
