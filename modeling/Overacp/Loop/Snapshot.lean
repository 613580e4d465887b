import Mathlib.Data.List.DropRight
import Overacp.Loop.Truncation

/-!
# What a snapshot shows and what it leaves out

The snapshot is the one text of a conversation that leaves for the tracing service when capturing is
switched on. It must not depend on what images, sounds and unknown blocks hold, and it must account
for every message: the system prompt at the front, those it only counts, and those it renders.
-/

namespace Overacp

open Llm

namespace Preview

/-! ### Conversations that differ in their media -/

/-- The same block up to the payload of a media block. -/
inductive BlockAlike : TypedBlock → TypedBlock → Prop
  | text (text : String) : BlockAlike (.known (.text text)) (.known (.text text))
  | imageUrl (v v' : Json) : BlockAlike (.known (.imageUrl v)) (.known (.imageUrl v'))
  | image (v v' : Json) : BlockAlike (.known (.image v)) (.known (.image v'))
  | inputAudio (v v' : Json) : BlockAlike (.known (.inputAudio v)) (.known (.inputAudio v'))
  | unknown (v v' : Json) : BlockAlike (.unknown v) (.unknown v')

inductive ContentAlike : Option Content → Option Content → Prop
  | none : ContentAlike none none
  | text (text : String) : ContentAlike (some (.text text)) (some (.text text))
  | blocks {bs bs' : List TypedBlock} (h : List.Forall₂ BlockAlike bs bs') :
      ContentAlike (some (.blocks bs)) (some (.blocks bs'))

structure MessageAlike (m m' : Message) : Prop where
  role : m.role = m'.role
  content : ContentAlike m.content m'.content
  toolCalls : m.toolCalls = m'.toolCalls
  toolCallId : m.toolCallId = m'.toolCallId

/-- Two message lists that differ only in the payload inside media blocks. -/
def DifferInMedia (messages messages' : List Message) : Prop := List.Forall₂ MessageAlike messages messages'

/-- What related elements are sent to alike, related lists are. -/
theorem map_eq_of_forall₂ {α β : Type} {R : α → α → Prop} {f : α → β} (hf : ∀ a b, R a b → f a = f b)
    {as bs : List α} (h : List.Forall₂ R as bs) : as.map f = bs.map f := by
  induction h with
  | nil => rfl
  | cons hab _ ih => rw [List.map_cons, List.map_cons, hf _ _ hab, ih]

theorem contentToText_alike {c c' : Option Content} (h : ContentAlike c c') :
    contentToText c = contentToText c' := by
  cases h with
  | none => rfl
  | text text => rfl
  | blocks hblocks =>
      refine congrArg (String.intercalate "\n") (map_eq_of_forall₂ ?_ hblocks)
      intro b b' hb
      cases hb <;> rfl

theorem detail_alike {m m' : Message} (h : MessageAlike m m') : detail m = detail m' := by
  unfold detail
  rw [contentToText_alike h.content, h.role, h.toolCallId]

/-! ### How a message is shown -/

open Truncation (Shortened)

/-- On a line of its own behind its role, and short, but for what a user says. -/
inductive Shown (m : Message) : String → Prop
  | system (body : String) (hrole : m.role = .system) (hbody : Shortened (contentToText m.content) 200 (some body)) :
      Shown m ("\n[SYSTEM]: " ++ body)
  | user (hrole : m.role = .user) : Shown m ("\n[USER]: " ++ contentToText m.content)
  | assistant (body : String) (hrole : m.role = .assistant)
      (hbody : Shortened (contentToText m.content) 300 (some body)) : Shown m ("\n[AGENT]: " ++ body)
  | tool (body : String) (hrole : m.role = .tool) (hbody : Shortened (contentToText m.content) 200 (some body)) :
      Shown m ("\n[TOOL " ++ m.toolCallId.getD "?" ++ "]: " ++ body)

theorem truncateStr_shortened (s : String) (limit : Nat) : Shortened s limit (some (truncateStr s limit)) := by
  rw [← Truncation.truncateStr_eq 0]
  exact Truncation.truncateWithin_shortened 0 limit s

theorem detail_shown (m : Message) : Shown m (detail m) := by
  unfold detail
  cases hrole : m.role with
  | system => exact .system _ hrole (truncateStr_shortened _ _)
  | user => exact .user hrole
  | assistant => exact .assistant _ hrole (truncateStr_shortened _ _)
  | tool => exact .tool _ hrole (truncateStr_shortened _ _)

/-! ### The window -/

/-- The messages that are only counted. -/
def skipped (messages : List Message) : Nat := max (messages.length - detailTail) 1 - 1

/-- The messages that are rendered. -/
def rendered (messages : List Message) : List Message :=
  messages.drop (max (messages.length - detailTail) 1)

def moreMessages (skipped : Nat) : String :=
  if 0 < skipped then s!"<{skipped} more messages...>\n" else ""

theorem buildContextSnapshot_eq (messages : List Message) :
    buildContextSnapshot messages =
      .string (moreMessages (skipped messages) ++ String.join ((rendered messages).map detail)) := rfl

theorem buildContextSnapshot_alike {messages messages' : List Message} (h : DifferInMedia messages messages') :
    buildContextSnapshot messages = buildContextSnapshot messages' := by
  have hlength : messages.length = messages'.length := h.length_eq
  have hrendered : (rendered messages).map detail = (rendered messages').map detail := by
    rw [rendered, rendered, List.map_drop, List.map_drop, hlength,
      map_eq_of_forall₂ (fun _ _ hm => detail_alike hm) h]
  rw [buildContextSnapshot_eq, buildContextSnapshot_eq, hrendered, skipped, skipped, hlength]

theorem rendered_eq {messages : List Message} (hne : messages ≠ []) :
    rendered messages = messages.rtake (min detailTail (messages.length - 1)) := by
  have hpos := List.length_pos_iff.mpr hne
  rw [rendered, List.rtake]
  congr 1
  unfold detailTail
  omega

theorem length_rendered (messages : List Message) (hne : messages ≠ []) :
    skipped messages + (rendered messages).length + 1 = messages.length := by
  have hpos := List.length_pos_iff.mpr hne
  rw [rendered, skipped, List.length_drop]
  unfold detailTail
  omega

/-! ### The count a reader finds -/

/-- The number stated at the front of a snapshot; zero where none is. -/
def statedSkipped (snapshot : String) : Nat :=
  match snapshot.toList with
  | '<' :: cs => Nat.ofDigitChars 10 (cs.takeWhile Char.isDigit) 0
  | _ => 0

theorem takeWhile_toDigits (n : Nat) {c : Char} (hc : c.isDigit = false) (cs : List Char) :
    (Nat.toDigits 10 n ++ c :: cs).takeWhile Char.isDigit = Nat.toDigits 10 n := by
  have hall : ∀ d ∈ Nat.toDigits 10 n, d.isDigit = true :=
    fun d hd => Nat.isDigit_of_mem_toDigits (by decide) (by decide) hd
  rw [List.takeWhile_append_of_pos hall, List.takeWhile_cons_of_neg, List.append_nil]
  rw [hc]
  exact Bool.false_ne_true

/-- Each rendered message starts on a line of its own. -/
theorem detail_front (m : Message) : ∃ cs, (detail m).toList = '\n' :: cs := by
  unfold detail
  cases m.role <;> simp only [String.toList_append, String.append_assoc] <;> exact ⟨_, rfl⟩

theorem statedSkipped_details (ms : List Message) : statedSkipped (String.join (ms.map detail)) = 0 := by
  cases ms with
  | nil => rfl
  | cons m ms =>
      obtain ⟨cs, hcs⟩ := detail_front m
      have hfront : (String.join ((m :: ms).map detail)).toList =
          '\n' :: (cs ++ (String.join (ms.map detail)).toList) := by
        rw [List.map_cons, String.join_cons, String.toList_append, hcs, List.cons_append]
      rw [statedSkipped, hfront]
      rfl

theorem statedSkipped_eq (n : Nat) (ms : List Message) :
    statedSkipped (moreMessages n ++ String.join (ms.map detail)) = n := by
  unfold moreMessages
  split
  · have hfront : (s!"<{n} more messages...>\n" ++ String.join (ms.map detail)).toList =
        '<' :: (Nat.toDigits 10 n ++ ' ' :: ("more messages...>\n".toList ++
          (String.join (ms.map detail)).toList)) := by
      have hdigits : (toString n).toList = Nat.toDigits 10 n := Nat.toList_repr
      simp only [String.toList_append, hdigits, List.append_assoc]
      rfl
    rw [statedSkipped, hfront]
    show Nat.ofDigitChars 10 (List.takeWhile _ _) 0 = n
    rw [takeWhile_toDigits n (by decide), Nat.ofDigitChars_ten_toDigits]
  · rename_i hzero
    rw [String.empty_append, statedSkipped_details]
    omega

/-- Nothing of a media payload reaches the snapshot; and of a conversation that is not empty, the first message is left
out, the stated number is skipped, and the rest is shown in order, one message after the other. -/
theorem snapshot_redacts_and_accounts (messages : List Message) :
    (∀ messages', DifferInMedia messages messages' →
      buildContextSnapshot messages = buildContextSnapshot messages') ∧
    (messages ≠ [] → ∃ (snapshot : String) (shown : List String), buildContextSnapshot messages = .string snapshot ∧
      snapshot = moreMessages (statedSkipped snapshot) ++ String.join shown ∧
      List.Forall₂ Shown (messages.rtake (min 3 (messages.length - 1))) shown ∧
      statedSkipped snapshot + shown.length + 1 = messages.length) := by
  refine ⟨fun messages' h => buildContextSnapshot_alike h, fun hne => ?_⟩
  have hstated := statedSkipped_eq (skipped messages) (rendered messages)
  refine ⟨_, (rendered messages).map detail, buildContextSnapshot_eq messages, ?_, ?_, ?_⟩
  · rw [hstated]
  · rw [show 3 = detailTail from rfl, ← rendered_eq hne, List.forall₂_map_right_iff, List.forall₂_same]
    exact fun m _ => detail_shown m
  · rw [hstated, List.length_map]
    exact length_rendered messages hne

private def withImage (url : String) : Message where
  role := .user
  content := some (.blocks [.known (.text "see this"), .known (.imageUrl (.object [("url", .string url)]))])
  toolCalls := none
  toolCallId := none

theorem snapshot_withImage :
    buildContextSnapshot [withImage "data:a", withImage "data:b"] =
        buildContextSnapshot [withImage "data:c", withImage "data:d"] ∧
      ∃ (snapshot : String) (shown : List String),
        buildContextSnapshot [withImage "data:a", withImage "data:b"] = .string snapshot ∧
        snapshot = moreMessages (statedSkipped snapshot) ++ String.join shown ∧
        List.Forall₂ Shown [withImage "data:b"] shown ∧ statedSkipped snapshot + shown.length + 1 = 2 := by
  have halike : ∀ url url', MessageAlike (withImage url) (withImage url') := fun _ _ =>
    ⟨rfl, .blocks (.cons (.text _) (.cons (.imageUrl _ _) .nil)), rfl, rfl⟩
  obtain ⟨hredacted, haccounts⟩ := snapshot_redacts_and_accounts [withImage "data:a", withImage "data:b"]
  exact ⟨hredacted _ (.cons (halike _ _) (.cons (halike _ _) .nil)), haccounts (List.cons_ne_nil _ _)⟩

end Preview

end Overacp
