import Overacp.Loop.Compaction

/-!
# What the token estimate counts

A request carries the texts of a message in four kinds of places: its text content, its text blocks
and the names and arguments of its tool calls. The estimate looks into the content alone.
-/

namespace Overacp

open Llm

namespace Compaction

inductive TextField where
  | content
  | block
  | callName
  | callArguments
  deriving DecidableEq

/-- A text at the end of one field of a message, everything else as it was. -/
inductive AppendedTo (suffix : String) : TextField → Message → Message → Prop
  | content (role : Role) (text : String) (calls : Option (List ToolCall)) (id : Option String) :
      AppendedTo suffix .content ⟨role, some (.text text), calls, id⟩
        ⟨role, some (.text (text ++ suffix)), calls, id⟩
  | block (role : Role) (before after : List TypedBlock) (text : String) (calls : Option (List ToolCall))
      (id : Option String) :
      AppendedTo suffix .block ⟨role, some (.blocks (before ++ .known (.text text) :: after)), calls, id⟩
        ⟨role, some (.blocks (before ++ .known (.text (text ++ suffix)) :: after)), calls, id⟩
  | callName (role : Role) (content : Option Content) (before after : List ToolCall)
      (callId callType name arguments : String) (id : Option String) :
      AppendedTo suffix .callName
        ⟨role, content, some (before ++ ⟨callId, callType, name, arguments⟩ :: after), id⟩
        ⟨role, content, some (before ++ ⟨callId, callType, name ++ suffix, arguments⟩ :: after), id⟩
  | callArguments (role : Role) (content : Option Content) (before after : List ToolCall)
      (callId callType name arguments : String) (id : Option String) :
      AppendedTo suffix .callArguments
        ⟨role, content, some (before ++ ⟨callId, callType, name, arguments⟩ :: after), id⟩
        ⟨role, content, some (before ++ ⟨callId, callType, name, arguments ++ suffix⟩ :: after), id⟩

/-- The same for one message of a list. -/
inductive Appended (suffix : String) (field : TextField) : List Message → List Message → Prop
  | mk (before after : List Message) {m m' : Message} (h : AppendedTo suffix field m m') :
      Appended suffix field (before ++ m :: after) (before ++ m' :: after)

/-- What the estimate takes a message for. -/
def messageTokens (m : Message) : Nat := (m.content.map Content.estimateTokens).getD 0

theorem estimateTokens_cons (m : Message) (messages : List Message) :
    estimateTokens (m :: messages) = messageTokens m + estimateTokens messages := by
  unfold estimateTokens messageTokens
  cases hcontent : m.content with
  | none => rw [List.filterMap_cons_none hcontent, Option.map_none, Option.getD_none, Nat.zero_add]
  | some content =>
      rw [List.filterMap_cons_some hcontent, List.map_cons, List.sum_cons, Option.map_some, Option.getD_some]

theorem estimateTokens_append (before after : List Message) :
    estimateTokens (before ++ after) = estimateTokens before + estimateTokens after := by
  unfold estimateTokens
  rw [List.filterMap_append, List.map_append, List.sum_append]

/-- Four bytes at the end of a text are one more token, wherever the text ended. -/
theorem textTokens_append (text : String) {suffix : String} {k : Nat} (hk : suffix.utf8ByteSize = 4 * k) :
    (text ++ suffix).utf8ByteSize / 4 = text.utf8ByteSize / 4 + k := by
  rw [String.utf8ByteSize_append, hk]
  omega

/-- A field of the content. -/
def TextField.IsContent (field : TextField) : Prop := field = .content ∨ field = .block

theorem messageTokens_appendedTo {suffix : String} {field : TextField} {m m' : Message} {k : Nat}
    (h : AppendedTo suffix field m m') (hk : suffix.utf8ByteSize = 4 * k) :
    (field.IsContent → messageTokens m' = messageTokens m + k) ∧
      (¬ field.IsContent → messageTokens m' = messageTokens m) := by
  cases h with
  | content role text calls id =>
      refine ⟨fun _ => ?_, fun hnot => absurd (.inl rfl) hnot⟩
      exact textTokens_append text hk
  | block role before after text calls id =>
      refine ⟨fun _ => ?_, fun hnot => absurd (.inr rfl) hnot⟩
      have htext := textTokens_append text hk
      simp only [messageTokens, Option.map_some, Option.getD_some, Content.estimateTokens, List.map_append,
        List.map_cons, List.sum_append, List.sum_cons, TypedBlock.estimateTokens]
      omega
  | callName =>
      refine ⟨fun hfield => ?_, fun _ => rfl⟩
      rcases hfield with hfield | hfield <;> cases hfield
  | callArguments =>
      refine ⟨fun hfield => ?_, fun _ => rfl⟩
      rcases hfield with hfield | hfield <;> cases hfield

theorem estimateTokens_appended {suffix : String} {field : TextField} {messages messages' : List Message}
    {k : Nat} (h : Appended suffix field messages messages') (hk : suffix.utf8ByteSize = 4 * k) :
    (field.IsContent → estimateTokens messages' = estimateTokens messages + k) ∧
      (¬ field.IsContent → estimateTokens messages' = estimateTokens messages) := by
  cases h with
  | mk before after hto =>
      obtain ⟨hcontent, hcall⟩ := messageTokens_appendedTo hto hk
      simp only [estimateTokens_append, estimateTokens_cons]
      constructor
      · intro hfield
        have := hcontent hfield
        omega
      · intro hfield
        have := hcall hfield
        omega

/-- The estimate has gone up by the tokens appended, and is past any window they are past. -/
def Accounts (messages messages' : List Message) (k : Nat) : Prop :=
  estimateTokens messages + k ≤ estimateTokens messages' ∧
    ∀ window, window < k → window < estimateTokens messages'

theorem accounts_iff {suffix : String} {field : TextField} {messages messages' : List Message} {k : Nat}
    (h : Appended suffix field messages messages') (hk : suffix.utf8ByteSize = 4 * k) :
    Accounts messages messages' k ↔ field = .content ∨ field = .block ∨ suffix = "" := by
  obtain ⟨hcontent, hcall⟩ := estimateTokens_appended h hk
  have hempty : suffix = "" ↔ k = 0 := by
    rw [← String.utf8ByteSize_eq_zero_iff, hk]
    omega
  rw [← or_assoc, hempty]
  constructor
  · intro haccounts
    by_cases hfield : field.IsContent
    · exact .inl hfield
    · have hsame := hcall hfield
      have hle := haccounts.1
      exact .inr (by omega)
  · intro hcond
    have hle : estimateTokens messages + k ≤ estimateTokens messages' := by
      rcases hcond with hfield | hzero
      · exact (hcontent hfield).ge
      · by_cases hfield : field.IsContent
        · exact (hcontent hfield).ge
        · rw [hzero, hcall hfield, Nat.add_zero]
    exact ⟨hle, fun window hwindow => by omega⟩

/-- An assistant's call of a tool with the arguments. -/
private def writing (arguments : String) : List Message :=
  [⟨.assistant, none, some [⟨"call_1", "function", "write", arguments⟩], none⟩]

private def saying (text : String) : List Message := [⟨.user, some (.text text), none, none⟩]

theorem accounts_saying : Accounts (saying "hell") (saying ("hell" ++ "o yo")) 1 :=
  (accounts_iff (.mk [] [] (.content .user "hell" none none)) (by decide)).mpr (.inl rfl)

theorem estimateTokens_writing (arguments : String) : estimateTokens (writing arguments) = 0 := rfl

private def fourBytes : Nat → String
  | 0 => ""
  | n + 1 => fourBytes n ++ "aaaa"

private theorem utf8ByteSize_fourBytes (n : Nat) : (fourBytes n).utf8ByteSize = 4 * n := by
  induction n with
  | zero => rfl
  | succ n ih =>
      have hfour : "aaaa".utf8ByteSize = 4 := rfl
      rw [fourBytes, String.utf8ByteSize_append, ih, hfour]
      omega

/-- Arguments count for nothing, whatever the window they fill. -/
theorem arguments_not_accounted :
    (¬ ∀ suffix field messages messages' k, Appended suffix field messages messages' →
      suffix.utf8ByteSize = 4 * k → Accounts messages messages' k) ∧
    ∀ window, ∃ arguments, window < arguments.utf8ByteSize / 4 ∧ estimateTokens (writing arguments) = 0 := by
  constructor
  · intro h
    have haccounts := h "data" .callArguments (writing "") (writing ("" ++ "data")) 1
      (.mk [] [] (.callArguments .assistant none [] [] "call_1" "function" "write" "" none)) (by decide)
    have hle := haccounts.1
    rw [estimateTokens_writing, estimateTokens_writing] at hle
    omega
  · intro window
    refine ⟨fourBytes (window + 1), ?_, estimateTokens_writing _⟩
    rw [utf8ByteSize_fourBytes]
    omega

end Compaction

end Overacp
