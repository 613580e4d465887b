import Mathlib.Data.Finset.Dedup
import Mathlib.Data.Finset.Lattice.Lemmas
import Mathlib.Order.Bounds.Basic
import Overacp.Loop.CompactionRounds

/-!
# Where a history may be split

A history is made of groups: an assistant message with its tool calls and the answers that follow it, or
any other message alone. `find_safe_split` walks back from the proposed split with a set of unanswered
calls, and ends at the largest split that cuts no group; so `compact_messages` parts the history into whole
groups. What it does not see to is that a split leaves more than one message to be summarized.
-/

namespace Overacp

open Llm

namespace Compaction

/-! ### Groups -/

/-- The tool calls that an assistant makes in a message. -/
def callsOf (m : Message) : List ToolCall := if m.role = .assistant then m.toolCalls.getD [] else []

/-- A tool message that answers a call. -/
def Answers (call : ToolCall) (m : Message) : Prop := m.role = .tool ∧ m.toolCallId = some call.id

/-- Every message is followed by one tool message for each of its calls, in the order of the calls, and
there are no other tool messages. Ids are told apart within one message only. -/
inductive Grouped : List Message → Prop
  | nil : Grouped []
  | group {m : Message} {answers rest : List Message} (hrole : m.role ≠ .tool)
      (hdistinct : ((callsOf m).map ToolCall.id).Nodup) (hanswers : List.Forall₂ Answers (callsOf m) answers)
      (hrest : Grouped rest) : Grouped (m :: (answers ++ rest))

/-- The split comes after a message with calls and before the last of their answers. -/
def CutAt (messages : List Message) (split : Nat) : Prop :=
  ∃ i m, messages[i]? = some m ∧ i < split ∧ split ≤ i + (callsOf m).length

theorem callsOf_tool {m : Message} (h : m.role = .tool) : callsOf m = [] := by
  rw [callsOf, if_neg]
  rw [h]
  exact nofun

theorem callsOf_system {m : Message} (h : m.role = .system) : callsOf m = [] := by
  rw [callsOf, if_neg]
  rw [h]
  exact nofun

theorem callsOf_answer {calls : List ToolCall} {answers : List Message} {i : Nat} {m : Message}
    (h : List.Forall₂ Answers calls answers) (hm : answers[i]? = some m) : callsOf m = [] := by
  induction h generalizing i with
  | nil => cases hm
  | cons hanswer hrest ih =>
      cases i with
      | zero =>
          obtain rfl := Option.some.inj hm
          exact callsOf_tool hanswer.1
      | succ i => exact ih hm

theorem not_cutAt_zero (messages : List Message) : ¬ CutAt messages 0 := by
  rintro ⟨i, m, _, hlt, _⟩
  omega

/-- A split within a group cuts it. -/
theorem cutAt_within {m : Message} {tail : List Message} {k : Nat} (hk : k < (callsOf m).length) :
    CutAt (m :: tail) (k + 1) := ⟨0, m, rfl, by omega, by omega⟩

/-- A split after a group cuts what comes after the group, or nothing. -/
theorem cutAt_after {m : Message} {answers rest : List Message} {k : Nat}
    (hanswers : List.Forall₂ Answers (callsOf m) answers) :
    CutAt (m :: (answers ++ rest)) (answers.length + k + 1) ↔ CutAt rest k := by
  have hlength := hanswers.length_eq
  constructor
  · rintro ⟨i, m', hm', hlt, hle⟩
    cases i with
    | zero =>
        obtain rfl := Option.some.inj hm'
        exact ⟨0, m, by omega, by omega, by omega⟩
    | succ i =>
        rw [List.getElem?_cons_succ] at hm'
        by_cases hi : i < answers.length
        · rw [List.getElem?_append_left hi] at hm'
          rw [callsOf_answer hanswers hm', List.length_nil] at hle
          omega
        · rw [List.getElem?_append_right (by omega)] at hm'
          exact ⟨i - answers.length, m', hm', by omega, by omega⟩
  · rintro ⟨i, m', hm', hlt, hle⟩
    refine ⟨answers.length + i + 1, m', ?_, by omega, by omega⟩
    rw [List.getElem?_cons_succ, List.getElem?_append_right (by omega), Nat.add_sub_cancel_left]
    exact hm'

/-! ### Unanswered calls -/

def stepUnanswered (open_ : Finset String) (msg : Message) : Finset String :=
  match msg.role with
  | .assistant => (msg.toolCalls.getD []).foldl (fun open_ c => insert c.id open_) open_
  | .tool =>
      match msg.toolCallId with
      | some id => open_.erase id
      | none => open_
  | _ => open_

theorem unanswered_eq (messages : List Message) : unanswered messages = messages.foldl stepUnanswered ∅ := rfl

theorem foldl_insert (calls : List ToolCall) (open_ : Finset String) :
    calls.foldl (fun open_ c => insert c.id open_) open_ = (calls.map ToolCall.id).toFinset ∪ open_ := by
  induction calls generalizing open_ with
  | nil => exact (Finset.empty_union open_).symm
  | cons c calls ih =>
      rw [List.foldl_cons, ih, List.map_cons, List.toFinset_cons, Finset.insert_union, Finset.union_insert]

theorem stepUnanswered_calls {m : Message} (h : m.role ≠ .tool) :
    stepUnanswered ∅ m = ((callsOf m).map ToolCall.id).toFinset := by
  unfold stepUnanswered callsOf
  cases hrole : m.role with
  | assistant => rw [foldl_insert, if_pos rfl, Finset.union_empty]
  | tool => exact absurd hrole h
  | system | user => rfl

/-- So many answers on, the calls of the others are left. -/
theorem foldl_answers {calls : List ToolCall} {answers : List Message}
    (hanswers : List.Forall₂ Answers calls answers) (hdistinct : (calls.map ToolCall.id).Nodup) (k : Nat) :
    (answers.take k).foldl stepUnanswered (calls.map ToolCall.id).toFinset =
      ((calls.drop k).map ToolCall.id).toFinset := by
  induction hanswers generalizing k with
  | nil => cases k <;> rfl
  | @cons call m calls answers hanswer hrest ih =>
      cases k with
      | zero => rfl
      | succ k =>
          rw [List.map_cons, List.nodup_cons] at hdistinct
          have hstep : stepUnanswered ((call :: calls).map ToolCall.id).toFinset m =
              (calls.map ToolCall.id).toFinset := by
            unfold stepUnanswered
            rw [hanswer.1, hanswer.2, List.map_cons, List.toFinset_cons]
            apply Finset.erase_insert
            rw [List.mem_toFinset]
            exact hdistinct.1
          rw [List.take_succ_cons, List.foldl_cons, hstep, List.drop_succ_cons]
          exact ih hdistinct.2 k

/-- Up to a split there is a call without its answer just where the split cuts a group. -/
theorem unanswered_take_iff {messages : List Message} (h : Grouped messages) (split : Nat) :
    unanswered (messages.take split) ≠ ∅ ↔ CutAt messages split := by
  induction h generalizing split with
  | nil =>
      rw [List.take_nil]
      refine ⟨fun hne => absurd rfl hne, ?_⟩
      rintro ⟨i, m, hm, _⟩
      cases hm
  | @group m answers rest hrole hdistinct hanswers _ ih =>
      have hlength := hanswers.length_eq
      cases split with
      | zero => exact ⟨fun hne => absurd rfl hne, fun hcut => absurd hcut (not_cutAt_zero _)⟩
      | succ k =>
          rw [unanswered_eq, List.take_succ_cons, List.foldl_cons, stepUnanswered_calls hrole,
            List.take_append, List.foldl_append, foldl_answers hanswers hdistinct]
          by_cases hk : k < (callsOf m).length
          · rw [Nat.sub_eq_zero_of_le (by omega), List.take_zero, List.foldl_nil]
            refine ⟨fun _ => cutAt_within hk, fun _ hempty => ?_⟩
            rw [List.toFinset_eq_empty_iff, List.map_eq_nil_iff, List.drop_eq_nil_iff] at hempty
            omega
          · obtain ⟨j, rfl⟩ := Nat.exists_eq_add_of_le (Nat.le_of_not_lt hk)
            rw [List.drop_eq_nil_of_le (by omega), List.map_nil, List.toFinset_nil, hlength,
              Nat.add_sub_cancel_left, cutAt_after hanswers]
            exact ih j

/-! ### Parts of a history -/

/-- A split that cuts no group leaves groups on both sides. -/
theorem Grouped.split {messages : List Message} (h : Grouped messages) {split : Nat}
    (hcut : ¬ CutAt messages split) : Grouped (messages.take split) ∧ Grouped (messages.drop split) := by
  induction h generalizing split with
  | nil => rw [List.take_nil, List.drop_nil]; exact ⟨.nil, .nil⟩
  | @group m answers rest hrole hdistinct hanswers hrest ih =>
      have hlength := hanswers.length_eq
      cases split with
      | zero => exact ⟨.nil, .group hrole hdistinct hanswers hrest⟩
      | succ k =>
          have hk : answers.length ≤ k := by
            by_contra hlt
            exact hcut (cutAt_within (by omega))
          obtain ⟨j, rfl⟩ := Nat.exists_eq_add_of_le hk
          rw [cutAt_after hanswers] at hcut
          obtain ⟨hbefore, hafter⟩ := ih hcut
          rw [List.take_succ_cons, List.drop_succ_cons, List.take_length_add_append,
            List.drop_length_add_append]
          exact ⟨.group hrole hdistinct hanswers hbefore, hafter⟩

theorem CutAt.of_take {messages : List Message} {split start : Nat}
    (h : CutAt (messages.take split) start) : CutAt messages start := by
  obtain ⟨i, m, hm, hlt, hle⟩ := h
  refine ⟨i, m, ?_, hlt, hle⟩
  rw [List.getElem?_take] at hm
  split at hm
  · exact hm
  · cases hm

/-- Past a start that cuts nothing, the cuts are those of what comes after it. -/
theorem cutAt_drop_iff {messages : List Message} {start split : Nat} (hstart : ¬ CutAt messages start)
    (hle : start ≤ split) : CutAt (messages.drop start) (split - start) ↔ CutAt messages split := by
  constructor
  · rintro ⟨i, m, hm, hlt, hcut⟩
    rw [List.getElem?_drop] at hm
    exact ⟨start + i, m, hm, by omega, by omega⟩
  · rintro ⟨i, m, hm, hlt, hcut⟩
    have hi : start ≤ i := by
      by_contra hbefore
      exact hstart ⟨i, m, hm, by omega, by omega⟩
    refine ⟨i - start, m, ?_, by omega, by omega⟩
    rw [List.getElem?_drop, Nat.add_sub_cancel' hi]
    exact hm

/-- Every call of a part is answered in the part. -/
def CallsAnswered (part : List Message) : Prop :=
  ∀ i m j call, part[i]? = some m → (callsOf m)[j]? = some call →
    ∃ answer, part[i + 1 + j]? = some answer ∧ Answers call answer

/-- Every answer of a part has its call in the part. -/
def AnswersCalled (part : List Message) : Prop :=
  ∀ k answer, part[k]? = some answer → answer.role = .tool →
    ∃ i m j call, k = i + 1 + j ∧ part[i]? = some m ∧ (callsOf m)[j]? = some call ∧ Answers call answer

theorem answer_of_call {calls : List ToolCall} {answers : List Message} {j : Nat} {call : ToolCall}
    (h : List.Forall₂ Answers calls answers) (hcall : calls[j]? = some call) :
    ∃ answer, answers[j]? = some answer ∧ Answers call answer := by
  induction h generalizing j with
  | nil => cases hcall
  | @cons first m calls answers hanswer hrest ih =>
      cases j with
      | zero =>
          obtain rfl := Option.some.inj hcall
          exact ⟨m, rfl, hanswer⟩
      | succ j => exact ih hcall

theorem call_of_answer {calls : List ToolCall} {answers : List Message} {j : Nat} {answer : Message}
    (h : List.Forall₂ Answers calls answers) (hanswer : answers[j]? = some answer) :
    ∃ call, calls[j]? = some call ∧ Answers call answer := by
  induction h generalizing j with
  | nil => cases hanswer
  | @cons call m calls answers hfirst hrest ih =>
      cases j with
      | zero =>
          obtain rfl := Option.some.inj hanswer
          exact ⟨call, rfl, hfirst⟩
      | succ j => exact ih hanswer

theorem Grouped.callsAnswered {part : List Message} (h : Grouped part) : CallsAnswered part := by
  induction h with
  | nil =>
      intro i m j call hm _
      cases hm
  | @group first answers rest hrole hdistinct hanswers _ ih =>
      intro i m j call hm hcall
      cases i with
      | zero =>
          obtain rfl := Option.some.inj hm
          obtain ⟨answer, hanswer, hanswers'⟩ := answer_of_call hanswers hcall
          refine ⟨answer, ?_, hanswers'⟩
          rw [Nat.zero_add, Nat.add_comm, List.getElem?_cons_succ,
            List.getElem?_append_left (List.getElem?_eq_some_iff.mp hanswer).1]
          exact hanswer
      | succ i =>
          rw [List.getElem?_cons_succ] at hm
          by_cases hi : i < answers.length
          · rw [List.getElem?_append_left hi] at hm
            rw [callsOf_answer hanswers hm] at hcall
            cases hcall
          · rw [List.getElem?_append_right (by omega)] at hm
            obtain ⟨answer, hanswer, hanswers'⟩ := ih _ m j call hm hcall
            refine ⟨answer, ?_, hanswers'⟩
            rw [show i + 1 + 1 + j = i + 1 + j + 1 by omega, List.getElem?_cons_succ,
              List.getElem?_append_right (by omega),
              show i + 1 + j - answers.length = i - answers.length + 1 + j by omega]
            exact hanswer

theorem Grouped.answersCalled {part : List Message} (h : Grouped part) : AnswersCalled part := by
  induction h with
  | nil =>
      intro k answer hanswer _
      cases hanswer
  | @group first answers rest hrole hdistinct hanswers _ ih =>
      intro k answer hanswer htool
      cases k with
      | zero =>
          obtain rfl := Option.some.inj hanswer
          exact absurd htool hrole
      | succ k =>
          rw [List.getElem?_cons_succ] at hanswer
          by_cases hk : k < answers.length
          · rw [List.getElem?_append_left hk] at hanswer
            obtain ⟨call, hcall, hanswers'⟩ := call_of_answer hanswers hanswer
            exact ⟨0, first, k, call, by omega, rfl, hcall, hanswers'⟩
          · rw [List.getElem?_append_right (by omega)] at hanswer
            obtain ⟨i, m, j, call, heq, hm, hcall, hanswers'⟩ := ih _ answer hanswer htool
            refine ⟨answers.length + i + 1, m, j, call, by omega, ?_, hcall, hanswers'⟩
            rw [List.getElem?_cons_succ, List.getElem?_append_right (by omega), Nat.add_sub_cancel_left]
            exact hm

/-! ### The safe split -/

/-- The retreat ends at the start, or at the first split on the way back that parts no pair. -/
theorem retreat_spec {messages : List Message} {start proposed : Nat} (hle : start ≤ proposed) :
    let split := retreat messages start proposed
    start ≤ split ∧ split ≤ proposed ∧ (split = start ∨ hasStraddlingPair messages start split = false) ∧
      ∀ s, split < s → s ≤ proposed → hasStraddlingPair messages start s = true := by
  induction proposed with
  | zero => exact ⟨hle, Nat.le_refl _, .inl (Nat.le_zero.mp hle).symm, fun s hlt hs => by omega⟩
  | succ proposed ih =>
      unfold retreat
      dsimp only
      by_cases hback : proposed + 1 > start ∧ hasStraddlingPair messages start (proposed + 1) = true
      · rw [if_pos hback]
        obtain ⟨hstart, hsplit, hend, hpassed⟩ := ih (by omega)
        refine ⟨hstart, by omega, hend, ?_⟩
        intro s hlt hs
        rcases Nat.lt_or_eq_of_le hs with hs | rfl
        · exact hpassed s hlt (by omega)
        · exact hback.2
      · rw [if_neg hback]
        refine ⟨hle, Nat.le_refl _, ?_, fun s hlt hs => by omega⟩
        by_cases hstart : proposed + 1 = start
        · exact .inl hstart
        · right
          rw [← Bool.not_eq_true]
          exact fun hstraddling => hback ⟨by omega, hstraddling⟩

theorem start_le_length (messages : List Message) : start messages ≤ messages.length := by
  cases messages with
  | nil => exact Nat.le_refl 0
  | cons m ms =>
      rw [start, List.length_cons]
      split <;> omega

/-- The system prompt makes no calls. -/
theorem not_cutAt_start (messages : List Message) : ¬ CutAt messages (start messages) := by
  rintro ⟨i, m, hm, hlt, hle⟩
  by_cases hsystem : (systemMsg messages).isSome = true
  · rw [start, if_pos hsystem] at hlt hle
    obtain rfl : i = 0 := by omega
    have hrole : m.role = .system := by
      rw [systemMsg, List.head?_eq_getElem?, hm, Option.filter_some] at hsystem
      by_contra hrole
      rw [if_neg (by simpa using hrole)] at hsystem
      cases hsystem
    rw [callsOf_system hrole, List.length_nil] at hle
    omega
  · rw [start, if_neg hsystem] at hlt
    omega

/-- In a grouped history the backward walk sees just the cuts. -/
theorem hasStraddlingPair_iff {messages : List Message} (h : Grouped messages) {split : Nat}
    (hle : start messages ≤ split) :
    hasStraddlingPair messages (start messages) split = true ↔ CutAt messages split := by
  have hstart := not_cutAt_start messages
  rw [hasStraddlingPair, decide_eq_true_eq, List.drop_take, ne_eq, ← ne_eq,
    unanswered_take_iff (h.split hstart).2, cutAt_drop_iff hstart hle]

/-- The split found is the largest one up to the proposed that cuts no group. -/
theorem findSafeSplit_isGreatest {messages : List Message} (h : Grouped messages) {proposed : Nat}
    (hle : start messages ≤ proposed) :
    IsGreatest {split | start messages ≤ split ∧ split ≤ proposed ∧ split ≤ messages.length ∧
      ¬ CutAt messages split} (findSafeSplit messages (start messages) proposed) := by
  have hstart := start_le_length messages
  obtain ⟨hlow, hhigh, hend, hpassed⟩ := @retreat_spec messages (start messages)
    (min proposed messages.length) (by omega)
  constructor
  · refine ⟨hlow, by unfold findSafeSplit; omega, by unfold findSafeSplit; omega, ?_⟩
    rcases hend with heq | hfalse
    · rw [findSafeSplit, heq]
      exact not_cutAt_start messages
    · intro hcut
      have htrue := (hasStraddlingPair_iff h hlow).mpr hcut
      rw [hfalse] at htrue
      cases htrue
  · intro split hsplit
    obtain ⟨hfrom, hproposed, hlength, hcut⟩ := hsplit
    by_contra hlt
    exact hcut ((hasStraddlingPair_iff h hfrom).mp
      (hpassed split (by unfold findSafeSplit at hlt; omega) (by omega)))

/-! ### `compact_messages` -/

/-- Given what the language model answers to a list of messages. -/
def summarize (llm : List Message → Except String CompletionResponse) (messages : List Message) :
    Except String String :=
  llm (summaryMessages messages) >>= summaryOf

def compactMessages (llm : List Message → Except String CompletionResponse) (messages : List Message)
    (keepRecent : Nat) : Except String CompactionResult :=
  match toCompact messages keepRecent with
  | none => .ok (unchanged messages)
  | some slice => (summarize llm slice).map (compacted messages keepRecent)

/-- The history is compacted, and the language model asked for it. -/
def Compacts (messages : List Message) (keepRecent : Nat) : Prop := (toCompact messages keepRecent).isSome

theorem compactMessages_compacts {llm : List Message → Except String CompletionResponse}
    {messages : List Message} {keepRecent : Nat} {result : CompactionResult}
    (hcompacts : Compacts messages keepRecent) (hok : compactMessages llm messages keepRecent = .ok result) :
    ∃ summary, result = compacted messages keepRecent summary := by
  obtain ⟨slice, hslice⟩ := Option.isSome_iff_exists.mp hcompacts
  rw [compactMessages, hslice] at hok
  dsimp only at hok
  cases hsummary : summarize llm slice with
  | error e =>
      rw [hsummary] at hok
      cases hok
  | ok summary =>
      rw [hsummary] at hok
      exact ⟨summary, (Except.ok.inj hok).symm⟩

/-- Where it compacts, there is a split for it. -/
theorem splitPoint_of_compacts {messages : List Message} {keepRecent : Nat}
    (h : Compacts messages keepRecent) :
    keepRecent + 2 < messages.length ∧ start messages < splitPoint messages keepRecent ∧
      splitPoint messages keepRecent ≤ messages.length - keepRecent := by
  obtain ⟨slice, hslice⟩ := Option.isSome_iff_exists.mp h
  have hlong : keepRecent + 2 < messages.length := by
    by_contra hshort
    rw [toCompact, if_pos (.inl (by omega))] at hslice
    cases hslice
  have hstart := start_le_length messages
  have hone : start messages ≤ 1 := by
    rw [start]
    split <;> omega
  have hsplit := (@retreat_spec messages (start messages)
    (min (messages.length - keepRecent) messages.length) (by omega)).2.1
  exact ⟨hlong, (toCompact_some hslice).1, by rw [splitPoint, findSafeSplit]; omega⟩

/-- The history is parted into whole groups, the second part no shorter than it must be, and both come back
as they were. -/
theorem compactMessages_parts_groups {messages : List Message} (h : Grouped messages) (keepRecent : Nat) :
    (∀ proposed, start messages ≤ proposed →
        IsGreatest {split | start messages ≤ split ∧ split ≤ proposed ∧ split ≤ messages.length ∧
          ¬ CutAt messages split} (findSafeSplit messages (start messages) proposed)) ∧
      ∀ llm result, Compacts messages keepRecent → compactMessages llm messages keepRecent = .ok result →
        ∃ summarized recent, toCompact messages keepRecent = some summarized ∧
          result.workingMessages =
            (systemMsg messages).toList ++ [compactedContext result.summary] ++ recent ∧
          result.canonicalMessages = recent ∧ summarized ++ recent = messages.drop (start messages) ∧
          keepRecent ≤ recent.length ∧ CallsAnswered summarized ∧ AnswersCalled summarized ∧
          CallsAnswered recent ∧ AnswersCalled recent := by
  refine ⟨fun proposed hle => findSafeSplit_isGreatest h hle, ?_⟩
  intro llm result hcompacts hok
  obtain ⟨summary, rfl⟩ := compactMessages_compacts hcompacts hok
  obtain ⟨hlong, hstart, hsplit⟩ := splitPoint_of_compacts hcompacts
  obtain ⟨slice, hslice⟩ := Option.isSome_iff_exists.mp hcompacts
  have hone := start_le_length messages
  have hcut : ¬ CutAt messages (splitPoint messages keepRecent) :=
    (@findSafeSplit_isGreatest messages h (messages.length - keepRecent) (by omega)).1.2.2.2
  obtain ⟨hbefore, hafter⟩ := h.split hcut
  have hsummarized : Grouped slice := by
    rw [(toCompact_some hslice).2]
    exact (hbefore.split fun hstart => not_cutAt_start messages hstart.of_take).2
  refine ⟨slice, recent messages keepRecent, hslice, ?_, rfl, ?_, ?_, hsummarized.callsAnswered,
    hsummarized.answersCalled, hafter.callsAnswered, hafter.answersCalled⟩
  · rw [List.append_assoc]
    rfl
  · have hparts := parts_of_toCompact hslice
    rw [systemMsg_toList, List.append_assoc] at hparts
    exact List.append_cancel_left (hparts.symm.trans (List.take_append_drop _ _).symm)
  · rw [recent, List.length_drop]
    omega

/-- A search for a file, answered in two calls. -/
def searchHistory : List Message :=
  [⟨.system, some (.text "You are a careful assistant."), none, none⟩,
    ⟨.user, some (.text "Where is the lock taken?"), none, none⟩,
    ⟨.assistant, none, some [⟨"call_1", "function", ⟨"grep", "\x7b\x7d"⟩⟩], none⟩,
    ⟨.tool, some (.text "in queue.rs"), none, some "call_1"⟩,
    ⟨.assistant, none, some [⟨"call_1", "function", ⟨"read", "\x7b\x7d"⟩⟩], none⟩,
    ⟨.tool, some (.text "fn push"), none, some "call_1"⟩]

theorem searchHistory_grouped : Grouped searchHistory := by
  refine @Grouped.group _ [] _ nofun .nil .nil ?_
  refine @Grouped.group _ [] _ nofun .nil .nil ?_
  refine @Grouped.group _ [_] _ nofun (List.nodup_singleton _) (.cons ⟨rfl, rfl⟩ .nil) ?_
  exact @Grouped.group _ [_] _ nofun (List.nodup_singleton _) (.cons ⟨rfl, rfl⟩ .nil) .nil

/-- A language model that sums the search up. -/
def searchSummary (_ : List Message) : Except String CompletionResponse :=
  .ok ⟨[⟨some ⟨.assistant, some (.text "the lock is taken in push"), none, none⟩, none, none⟩], none⟩

/-- The walk goes back over a pair whose id comes twice; with one message to be kept at least, the pair is. -/
theorem searchHistory_split : Grouped searchHistory ∧
    IsGreatest {split | start searchHistory ≤ split ∧ split ≤ 5 ∧ split ≤ searchHistory.length ∧
      ¬ CutAt searchHistory split} (findSafeSplit searchHistory (start searchHistory) 5) ∧
    findSafeSplit searchHistory (start searchHistory) 5 = 4 ∧
    ∃ result summarized recent, compactMessages searchSummary searchHistory 1 = .ok result ∧
      toCompact searchHistory 1 = some summarized ∧ summarized.length = 3 ∧ recent.length = 2 ∧
      result.workingMessages =
        (systemMsg searchHistory).toList ++ [compactedContext result.summary] ++ recent ∧
      result.canonicalMessages = recent ∧ summarized ++ recent = searchHistory.drop (start searchHistory) ∧
      1 ≤ recent.length ∧ CallsAnswered summarized ∧ AnswersCalled summarized ∧ CallsAnswered recent ∧
      AnswersCalled recent := by
  obtain ⟨hgreatest, hparts⟩ := compactMessages_parts_groups searchHistory_grouped 1
  have hsplit : splitPoint searchHistory 1 = 4 := by decide
  have hslice : toCompact searchHistory 1 = some ((searchHistory.take 4).drop 1) := by
    rw [toCompact, if_neg (by decide)]
    rfl
  have hok : compactMessages searchSummary searchHistory 1 =
      .ok (compacted searchHistory 1 "the lock is taken in push") := by
    rw [compactMessages, hslice]
    rfl
  have hcompacts : Compacts searchHistory 1 := by
    rw [Compacts, hslice]
    rfl
  obtain ⟨summarized, recent, hcompact, hworking, hcanonical, hrest⟩ := hparts searchSummary _ hcompacts hok
  have hkept : recent.length = 2 := by
    rw [← hcanonical]
    show (searchHistory.drop (splitPoint searchHistory 1)).length = 2
    rw [hsplit]
    rfl
  have hsummarized : summarized.length = 3 := by
    rw [Option.some.inj (hcompact.symm.trans hslice)]
    rfl
  exact ⟨searchHistory_grouped, hgreatest 5 (by decide), by decide, _, summarized, recent, hok, hcompact, hsummarized,
    hkept, hworking, hcanonical, hrest⟩

/-! ### Progress -/

theorem length_compacted {messages : List Message} {keepRecent : Nat} (h : Compacts messages keepRecent)
    (summary : String) :
    (compacted messages keepRecent summary).workingMessages.length + splitPoint messages keepRecent =
      messages.length + start messages + 1 := by
  obtain ⟨hlong, hstart, hsplit⟩ := splitPoint_of_compacts h
  have hprompt : (systemMsg messages).toList.length = start messages := by
    rw [systemMsg_toList, List.length_take_of_le (start_le_length messages)]
  rw [compacted, List.length_append, List.length_cons, hprompt, recent, List.length_drop]
  omega

/-- Some split leaves at least two messages to be summarized, if any split does that leaves one. -/
def SplitsTwo (messages : List Message) (keepRecent : Nat) : Prop :=
  messages.length ≤ keepRecent + 2 ∨
    hasStraddlingPair messages (start messages) (start messages + 1) = true ∨
    ∃ split, start messages + 2 ≤ split ∧ split ≤ messages.length - keepRecent ∧
      hasStraddlingPair messages (start messages) split = false

theorem splitPoint_ne_succ_start_iff {messages : List Message} {keepRecent : Nat}
    (hlong : keepRecent + 2 < messages.length) :
    splitPoint messages keepRecent ≠ start messages + 1 ↔ SplitsTwo messages keepRecent := by
  have hone : start messages ≤ 1 := by
    rw [start]
    split <;> omega
  have hmin : min (messages.length - keepRecent) messages.length = messages.length - keepRecent := by omega
  obtain ⟨hlow, hhigh, hend, hpassed⟩ := @retreat_spec messages (start messages)
    (messages.length - keepRecent) (by omega)
  have hsplit : splitPoint messages keepRecent =
      retreat messages (start messages) (messages.length - keepRecent) := by
    rw [splitPoint, findSafeSplit, hmin]
  rw [← hsplit] at hlow hhigh hend hpassed
  constructor
  · intro hne
    by_cases hstart : splitPoint messages keepRecent = start messages
    · exact .inr (.inl (hpassed (start messages + 1) (by omega) (by omega)))
    · exact .inr (.inr ⟨splitPoint messages keepRecent, by omega, hhigh, hend.resolve_left hstart⟩)
  · rintro (hshort | hstraddling | ⟨split, hsplit, hproposed, hfalse⟩) heq
    · omega
    · rw [heq, hstraddling] at hend
      rcases hend with hend | hend
      · omega
      · cases hend
    · have htrue := hpassed split (by omega) hproposed
      rw [hfalse] at htrue
      cases htrue

/-- A compaction makes the context shorter just where it leaves itself two messages to summarize. -/
theorem compaction_shortens_iff (messages : List Message) (keepRecent : Nat) :
    (∀ llm result, Compacts messages keepRecent → compactMessages llm messages keepRecent = .ok result →
        result.workingMessages.length < messages.length) ↔ SplitsTwo messages keepRecent := by
  constructor
  · intro hshorter
    by_cases hcompacts : Compacts messages keepRecent
    · obtain ⟨hlong, hstart, hsplit⟩ := splitPoint_of_compacts hcompacts
      obtain ⟨slice, hslice⟩ := Option.isSome_iff_exists.mp hcompacts
      let llm : List Message → Except String CompletionResponse := fun _ =>
        .ok ⟨[⟨some (textMessage .assistant "done"), none, none⟩], none⟩
      have hok : compactMessages llm messages keepRecent = .ok (compacted messages keepRecent "done") := by
        rw [compactMessages, hslice]
        rfl
      have hlt := hshorter llm _ hcompacts hok
      have hlength := length_compacted hcompacts "done"
      rw [← splitPoint_ne_succ_start_iff hlong]
      omega
    · by_cases hlong : keepRecent + 2 < messages.length
      · rw [← splitPoint_ne_succ_start_iff hlong]
        intro heq
        apply hcompacts
        rw [Compacts, toCompact, if_neg (by omega)]
        rfl
      · exact .inl (by omega)
  · intro hsplits llm result hcompacts hok
    obtain ⟨summary, rfl⟩ := compactMessages_compacts hcompacts hok
    obtain ⟨hlong, hstart, hsplit⟩ := splitPoint_of_compacts hcompacts
    have hne := (splitPoint_ne_succ_start_iff hlong).mpr hsplits
    have hlength := length_compacted hcompacts summary
    omega

/-- The split is taken back from within a pair, and one message is left to be replaced by its summary. -/
theorem one_message_summarized : ∃ llm result,
    compactMessages llm (searchHistory.take 4) 1 = .ok result ∧ Compacts (searchHistory.take 4) 1 ∧
      ¬ result.workingMessages.length < (searchHistory.take 4).length := by
  refine ⟨fun _ => .ok ⟨[⟨some (textMessage .assistant "a question"), none, none⟩], none⟩, _, rfl, ?_, ?_⟩
  · show (toCompact (searchHistory.take 4) 1).isSome = true
    decide
  · decide

end Compaction

/-! ### In the loop -/

namespace AgenticLoop

/-- The loop compacts with the answer its environment gives to the request. -/
theorem compactMessages_outcome (env : Environment) (keepRecent : Nat) (s : State) :
    let compacting := Compaction.compactMessages (fun request => env.complete (s.trace ++ [.complete request]))
      s.messages keepRecent
    (∀ result, compacting = .ok result → ∃ t, compactMessages env s.messages keepRecent s = .next result t) ∧
      ∀ e, compacting = .error e → ∃ t, compactMessages env s.messages keepRecent s = .fail e t := by
  dsimp only
  cases hslice : Compaction.toCompact s.messages keepRecent with
  | none =>
      have hcompacting (llm : List Message → Except String CompletionResponse) :
          Compaction.compactMessages llm s.messages keepRecent = .ok (Compaction.unchanged s.messages) := by
        rw [Compaction.compactMessages, hslice]
      rw [hcompacting]
      constructor
      · intro result hok
        obtain rfl := Except.ok.inj hok
        exact ⟨s, compactMessages_none hslice⟩
      · intro e herror
        cases herror
  | some slice =>
      have hcompacting : Compaction.compactMessages
          (fun request => env.complete (s.trace ++ [.complete request])) s.messages keepRecent =
            (summaryAnswer env s slice).map (Compaction.compacted s.messages keepRecent) := by
        rw [Compaction.compactMessages, hslice]
        rfl
      rw [hcompacting]
      cases hanswer : summaryAnswer env s slice with
      | error e =>
          constructor
          · intro result hok
            cases hok
          · intro e' herror
            obtain rfl := Except.error.inj herror
            exact ⟨_, compactMessages_error hslice hanswer⟩
      | ok summary =>
          constructor
          · intro result hok
            obtain rfl := Except.ok.inj hok
            exact ⟨_, compactMessages_ok hslice hanswer⟩
          · intro e herror
            cases herror

end AgenticLoop

end Overacp
