import Mathlib.Data.Finset.Card
import Overacp.Loop.Llm.Chunking

/-!
# The tool calls of a streamed response

Fragments of tool calls come in one stream, each with the index of its call, and the calls are put together
in a list by their index. What a call becomes depends on its own fragments only; how many calls there are
depends on the largest index only, and an index that no fragment has is filled with an empty call. An index
for which so many calls cannot be held ends the process.
-/

namespace Overacp

open Llm

/-! ### The fragments of a call -/

namespace ToolCalls

def nameOf (delta : ToolCallDelta) : Option String := delta.function.bind FunctionCallDelta.name

def argumentsOf (delta : ToolCallDelta) : Option String := delta.function.bind FunctionCallDelta.arguments

/-- The fragments with an index, in order. -/
def fragments (i : Nat) (deltas : List ToolCallDelta) : List ToolCallDelta :=
  deltas.filter fun delta => delta.index = i

/-- The last id and the last name that were given, and all the arguments in a row. -/
def joined (deltas : List ToolCallDelta) : PartialToolCall where
  id := (deltas.filterMap ToolCallDelta.id).getLast?.getD ""
  name := (deltas.filterMap nameOf).getLast?.getD ""
  arguments := String.join (deltas.filterMap argumentsOf)

/-- The calls that the fragments make from nothing, were there always room for them. -/
def collected (deltas : List ToolCallDelta) : List PartialToolCall := deltas.foldl updateCall []

/-- The calls that the fragments make from nothing. -/
def accumulated (host : Host) (deltas : List ToolCallDelta) : Option (List PartialToolCall) :=
  deltas.foldlM (accumulateToolCall host) []

/-- The last of several values, where one more may have come. -/
theorem getLast_filterMap_concat {f : ToolCallDelta → Option String} (deltas : List ToolCallDelta)
    (delta : ToolCallDelta) :
    ((deltas ++ [delta]).filterMap f).getLast?.getD "" =
      (f delta).getD ((deltas.filterMap f).getLast?.getD "") := by
  rw [List.filterMap_append]
  cases hf : f delta with
  | none => rw [List.filterMap_cons_none hf, List.filterMap_nil, List.append_nil]; rfl
  | some text => rw [List.filterMap_cons_some hf, List.filterMap_nil, List.getLast?_concat]; rfl

theorem join_filterMap_concat {f : ToolCallDelta → Option String} (deltas : List ToolCallDelta)
    (delta : ToolCallDelta) :
    String.join ((deltas ++ [delta]).filterMap f) =
      String.join (deltas.filterMap f) ++ (f delta).getD "" := by
  rw [List.filterMap_append]
  cases hf : f delta with
  | none =>
      rw [List.filterMap_cons_none hf, List.filterMap_nil, List.append_nil]
      exact (String.append_empty).symm
  | some text =>
      rw [List.filterMap_cons_some hf, List.filterMap_nil]
      simp only [String.join, List.foldl_append, List.foldl_cons, List.foldl_nil, Option.getD_some]

/-- One more fragment updates the call as the accumulator does. -/
theorem joined_concat (deltas : List ToolCallDelta) (delta : ToolCallDelta) :
    joined (deltas ++ [delta]) = (joined deltas).update delta := by
  unfold joined PartialToolCall.update
  rw [getLast_filterMap_concat, getLast_filterMap_concat, join_filterMap_concat]
  rfl

theorem fragments_concat (i : Nat) (deltas : List ToolCallDelta) (delta : ToolCallDelta) :
    fragments i (deltas ++ [delta]) =
      fragments i deltas ++ (if delta.index = i then [delta] else []) := by
  unfold fragments
  rw [List.filter_append, List.filter_singleton]
  by_cases hindex : delta.index = i
  · rw [if_pos hindex, decide_eq_true hindex]
    rfl
  · rw [if_neg hindex, decide_eq_false hindex]
    rfl

/-! ### The list of calls -/

/-- What stands at an index after one more fragment. -/
theorem updateCall_getElem? (calls : List PartialToolCall) (delta : ToolCallDelta) (i : Nat) :
    (updateCall calls delta)[i]? =
      if i = delta.index then some ((calls[i]?.getD .empty).update delta)
      else if i < delta.index then some (calls[i]?.getD .empty)
      else calls[i]? := by
  have hfilled (j : Nat) : (calls ++ List.replicate (delta.index + 1 - calls.length) .empty)[j]? =
      if j ≤ delta.index then some (calls[j]?.getD .empty) else calls[j]? := by
    by_cases hj : j < calls.length
    · rw [List.getElem?_append_left hj, List.getElem?_eq_getElem hj]
      split <;> rfl
    · rw [List.getElem?_append_right (by omega), List.getElem?_eq_none (Nat.le_of_not_lt hj)]
      by_cases hle : j ≤ delta.index
      · rw [List.getElem?_replicate_of_lt (by omega), if_pos hle]
        rfl
      · rw [if_neg hle, List.getElem?_eq_none]
        rw [List.length_replicate]
        omega
  unfold updateCall
  dsimp only
  by_cases hindex : i = delta.index
  · rw [if_pos hindex, hindex, List.getElem?_modify_eq, hfilled, if_pos (Nat.le_refl _)]
    rfl
  · rw [if_neg hindex, List.getElem?_modify_ne _ _ (fun h => hindex h.symm), hfilled]
    by_cases hlt : i < delta.index
    · rw [if_pos hlt, if_pos (Nat.le_of_lt hlt)]
    · rw [if_neg hlt, if_neg (by omega)]

/-- Every index up to the largest has the call its own fragments make. -/
theorem collected_getElem? (deltas : List ToolCallDelta) (i : Nat) :
    (collected deltas)[i]? =
      if ∃ delta ∈ deltas, i ≤ delta.index then some (joined (fragments i deltas)) else none := by
  induction deltas using List.reverseRecOn with
  | nil => rw [if_neg (by simp)]; rfl
  | append_singleton deltas delta ih =>
      have hstep : collected (deltas ++ [delta]) = updateCall (collected deltas) delta :=
        List.foldl_concat ..
      -- an index that was not filled yet has had no fragments
      have hold : (collected deltas)[i]?.getD .empty = joined (fragments i deltas) := by
        rw [ih]
        split
        · rfl
        · rename_i hnone
          have hfragments : fragments i deltas = [] := by
            rw [fragments, List.filter_eq_nil_iff]
            intro d hd hdi
            exact hnone ⟨d, hd, Nat.le_of_eq (of_decide_eq_true hdi).symm⟩
          rw [hfragments]
          rfl
      rw [hstep, updateCall_getElem?, fragments_concat, hold]
      by_cases hindex : i = delta.index
      · rw [if_pos hindex, if_pos hindex.symm, joined_concat,
          if_pos ⟨delta, List.mem_concat_self, Nat.le_of_eq hindex⟩]
      · have hindex' : ¬ delta.index = i := fun h => hindex h.symm
        rw [if_neg hindex, if_neg hindex', List.append_nil]
        by_cases hlt : i < delta.index
        · rw [if_pos hlt, if_pos ⟨delta, List.mem_concat_self, Nat.le_of_lt hlt⟩]
        · rw [if_neg hlt, ih]
          have hiff : (∃ d ∈ deltas ++ [delta], i ≤ d.index) ↔ ∃ d ∈ deltas, i ≤ d.index := by
            constructor
            · rintro ⟨d, hd, hle⟩
              rcases List.mem_append.mp hd with hd | hd
              · exact ⟨d, hd, hle⟩
              · rw [List.mem_singleton.mp hd] at hle
                omega
            · rintro ⟨d, hd, hle⟩
              exact ⟨d, List.mem_append_left _ hd, hle⟩
          simp only [hiff]

theorem mem_fragments {i : Nat} {deltas : List ToolCallDelta} {delta : ToolCallDelta} :
    delta ∈ fragments i deltas ↔ delta ∈ deltas ∧ delta.index = i := by
  rw [fragments, List.mem_filter, decide_eq_true_eq]

/-- The calls go up to the largest index. -/
theorem lt_length_collected_iff {deltas : List ToolCallDelta} {i : Nat} :
    i < (collected deltas).length ↔ ∃ delta ∈ deltas, i ≤ delta.index := by
  have hget := collected_getElem? deltas i
  constructor
  · intro hlt
    by_contra hnone
    rw [if_neg hnone, List.getElem?_eq_none_iff] at hget
    omega
  · intro hsome
    rw [if_pos hsome] at hget
    exact (List.getElem?_eq_some_iff.mp hget).1

section

variable {host : Host}

theorem foldlM_accumulateToolCall (deltas : List ToolCallDelta) (calls : List PartialToolCall) :
    deltas.foldlM (accumulateToolCall host) calls =
      if ∀ delta ∈ deltas, delta.index < host.maxCalls then some (deltas.foldl updateCall calls) else none := by
  induction deltas generalizing calls with
  | nil => rw [if_pos (by simp)]; rfl
  | cons delta deltas ih =>
      rw [List.foldlM_cons, accumulateToolCall]
      by_cases hindex : delta.index < host.maxCalls
      · rw [if_pos hindex]
        refine (ih _).trans ?_
        simp only [List.forall_mem_cons, hindex, true_and, List.foldl_cons]
      · rw [if_neg hindex, if_neg fun hall => hindex (hall delta List.mem_cons_self)]
        rfl

theorem accumulated_eq (deltas : List ToolCallDelta) : accumulated host deltas =
    if ∀ delta ∈ deltas, delta.index < host.maxCalls then some (collected deltas) else none :=
  foldlM_accumulateToolCall deltas []

theorem accumulated_eq_some {deltas : List ToolCallDelta} {calls : List PartialToolCall}
    (h : accumulated host deltas = some calls) : calls = collected deltas := by
  rw [accumulated_eq] at h
  split_ifs at h
  exact (Option.some.inj h).symm

theorem isSome_accumulated_iff (deltas : List ToolCallDelta) :
    (accumulated host deltas).isSome = true ↔ ∀ delta ∈ deltas, delta.index < host.maxCalls := by
  rw [accumulated_eq]
  split_ifs with hall
  · exact iff_of_true rfl hall
  · exact iff_of_false Bool.false_ne_true hall

end

/-- The calls are there if as many can be held, and then the call at an index is what its own fragments make,
however they come between those of others. -/
theorem accumulated_by_index (host : Host) (deltas : List ToolCallDelta) :
    ((accumulated host deltas).isSome = true ↔ ∀ delta ∈ deltas, delta.index < host.maxCalls) ∧
      (∀ calls, accumulated host deltas = some calls → ∀ i, (∃ delta ∈ deltas, delta.index = i) →
        calls[i]? = some (joined (fragments i deltas))) ∧
      ∀ deltas', (∀ i, fragments i deltas' = fragments i deltas) →
        accumulated host deltas' = accumulated host deltas := by
  refine ⟨isSome_accumulated_iff deltas, ?_, ?_⟩
  · rintro calls hcalls i ⟨delta, hdelta, rfl⟩
    rw [accumulated_eq_some hcalls, collected_getElem?, if_pos ⟨delta, hdelta, Nat.le_refl _⟩]
  · intro deltas' hsame
    have hmem (delta : ToolCallDelta) : delta ∈ deltas' ↔ delta ∈ deltas := by
      have hiff : delta ∈ fragments delta.index deltas' ↔ delta ∈ fragments delta.index deltas := by
        rw [hsame]
      simpa only [mem_fragments, and_true] using hiff
    have hcollected : collected deltas' = collected deltas := by
      apply List.ext_getElem?
      intro i
      rw [collected_getElem?, collected_getElem?, hsame]
      simp only [hmem]
    rw [accumulated_eq, accumulated_eq, hcollected]
    simp only [hmem]

/-! ### The calls of the assembled message -/

/-- The fragments of an event, through all its choices. -/
def deltasOfEvent (event : StreamEvent) : List ToolCallDelta :=
  event.choices.flatMap fun choice => (choice.delta.bind Delta.toolCalls).getD []

def deltasOf (events : List StreamEvent) : List ToolCallDelta := events.flatMap deltasOfEvent

/-- What the events of a response are assembled to. -/
def assembled (host : Host) (events : List StreamEvent) : Assembly := events.foldl (Assembly.applyEvent host) .empty

/-- The tool calls of the assembled message, `none` if the process ends before there is one. -/
def calls (host : Host) (events : List StreamEvent) : Option (List ToolCall) :=
  (assembled host events).response.map fun response => response.message.toolCalls.getD []

def callOf (ptc : PartialToolCall) : ToolCall := ⟨ptc.id, "function", ptc.name, ptc.arguments⟩

section

variable {host : Host}

theorem applyChoice_toolCalls (asm : Assembly) (choice : Choice) :
    (asm.applyChoice host choice).toolCalls = asm.toolCalls.bind fun calls =>
      ((choice.delta.bind Delta.toolCalls).getD []).foldlM (accumulateToolCall host) calls := by
  have hbefore : ((asm.setFinishReason choice.finishReason).pushText
      (choice.delta.bind Delta.content)).toolCalls = asm.toolCalls := by
    cases choice.finishReason <;> cases choice.delta.bind Delta.content <;> rfl
  unfold Assembly.applyChoice
  split
  · rename_i hended
    rw [hended]
    rfl
  · rename_i calls hcalls
    rw [hcalls] at hbefore ⊢
    cases choice.delta.bind Delta.toolCalls with
    | none => exact hbefore
    | some deltas => exact congrArg (Option.bind · (deltas.foldlM (accumulateToolCall host))) hbefore

theorem applyEvent_toolCalls (asm : Assembly) (event : StreamEvent) :
    (asm.applyEvent host event).toolCalls =
      asm.toolCalls.bind fun calls => (deltasOfEvent event).foldlM (accumulateToolCall host) calls := by
  have hchoices (choices : List Choice) (asm : Assembly) :
      (choices.foldl (Assembly.applyChoice host) asm).toolCalls = asm.toolCalls.bind fun calls =>
        (choices.flatMap fun choice => (choice.delta.bind Delta.toolCalls).getD []).foldlM
          (accumulateToolCall host) calls := by
    induction choices generalizing asm with
    | nil => exact (Option.bind_fun_some asm.toolCalls).symm
    | cons choice choices ih =>
        rw [List.foldl_cons, ih, applyChoice_toolCalls, Option.bind_assoc]
        simp only [List.flatMap_cons, List.foldlM_append]
        rfl
  have husage : (asm.setUsage event.usage).toolCalls = asm.toolCalls := by cases event.usage <;> rfl
  rw [Assembly.applyEvent, hchoices, husage]
  rfl

theorem assembled_toolCalls (events : List StreamEvent) :
    (assembled host events).toolCalls = accumulated host (deltasOf events) := by
  induction events using List.reverseRecOn with
  | nil => rfl
  | append_singleton events event ih =>
      have hdeltas : deltasOf (events ++ [event]) = deltasOf events ++ deltasOfEvent event := by
        rw [deltasOf, List.flatMap_append, List.flatMap_singleton]
        rfl
      rw [assembled, List.foldl_concat, applyEvent_toolCalls, ← assembled, ih, hdeltas]
      exact (@List.foldlM_append Option _ _ _ _ _ _ _ _).symm

theorem toolCalls_responseOf (asm : Assembly) (calls : List PartialToolCall) :
    (asm.responseOf calls).message.toolCalls.getD [] = calls.map callOf := by
  unfold Assembly.responseOf
  dsimp only
  split
  · rename_i hnone
    rw [hnone]
    rfl
  · rfl

theorem calls_eq (events : List StreamEvent) :
    calls host events = (accumulated host (deltasOf events)).map (List.map callOf) := by
  rw [← assembled_toolCalls, calls, Assembly.response, Option.map_map]
  congr 1
  funext calls
  exact toolCalls_responseOf _ calls

end

/-- The call that fills an index no fragment has. -/
def placeholder : ToolCall := ⟨"", "function", "", ""⟩

/-- The distinct indices of the fragments. -/
def indices (events : List StreamEvent) : Finset Nat :=
  ((deltasOf events).map ToolCallDelta.index).toFinset

theorem mem_indices {events : List StreamEvent} {i : Nat} :
    i ∈ indices events ↔ ∃ delta ∈ deltasOf events, delta.index = i := by
  rw [indices, List.mem_toFinset, List.mem_map]

/-- Below every index that occurs, every index occurs. -/
def NoGap (events : List StreamEvent) : Prop :=
  ∀ j ∈ indices events, ∀ i < j, i ∈ indices events

/-- As many calls can be held as it takes to come to any index that occurs. -/
def Room (host : Host) (events : List StreamEvent) : Prop := ∀ delta ∈ deltasOf events, delta.index < host.maxCalls

instance (host : Host) (events : List StreamEvent) : Decidable (Room host events) :=
  inferInstanceAs (Decidable (∀ delta ∈ deltasOf events, delta.index < host.maxCalls))

section

variable {host : Host} {events : List StreamEvent}

theorem calls_eq_if : calls host events =
    if Room host events then some ((collected (deltasOf events)).map callOf) else none := by
  rw [calls_eq, accumulated_eq, apply_ite (Option.map (List.map callOf))]
  rfl

theorem calls_eq_some {made : List ToolCall} (h : calls host events = some made) :
    made = (collected (deltasOf events)).map callOf := by
  rw [calls_eq_if] at h
  split_ifs at h
  exact (Option.some.inj h).symm

theorem isSome_calls_iff : (calls host events).isSome = true ↔ Room host events := by
  rw [calls_eq_if]
  split_ifs with hroom
  · exact iff_of_true rfl hroom
  · exact iff_of_false Bool.false_ne_true hroom

theorem lt_length_calls_iff {i : Nat} :
    i < ((collected (deltasOf events)).map callOf).length ↔ ∃ j ∈ indices events, i ≤ j := by
  rw [List.length_map, lt_length_collected_iff]
  constructor
  · rintro ⟨delta, hdelta, hle⟩
    exact ⟨delta.index, mem_indices.mpr ⟨delta, hdelta, rfl⟩, hle⟩
  · rintro ⟨j, hj, hle⟩
    obtain ⟨delta, hdelta, rfl⟩ := mem_indices.mp hj
    exact ⟨delta, hdelta, hle⟩

theorem indices_subset_range : indices events ⊆ Finset.range ((collected (deltasOf events)).map callOf).length := by
  intro j hj
  rw [Finset.mem_range, lt_length_calls_iff]
  exact ⟨j, hj, Nat.le_refl _⟩

theorem length_eq_card_iff :
    ((collected (deltasOf events)).map callOf).length = (indices events).card ↔ NoGap events := by
  have hsubset := @indices_subset_range events
  constructor
  · intro hcard j hj i hlt
    have heq : indices events = Finset.range ((collected (deltasOf events)).map callOf).length := by
      apply Finset.eq_of_subset_of_card_le hsubset
      rw [Finset.card_range, hcard]
    rw [heq, Finset.mem_range] at hj ⊢
    omega
  · intro hgap
    have heq : indices events = Finset.range ((collected (deltasOf events)).map callOf).length := by
      apply Finset.Subset.antisymm hsubset
      intro i hi
      rw [Finset.mem_range, lt_length_calls_iff] at hi
      obtain ⟨j, hj, hle⟩ := hi
      rcases Nat.lt_or_eq_of_le hle with hlt | rfl
      · exact hgap j hj i hlt
      · exact hj
    rw [heq, Finset.card_range]

theorem card_indices_le : (indices events).card ≤ (deltasOf events).length := by
  have hle := List.toFinset_card_le ((deltasOf events).map ToolCallDelta.index)
  rw [List.length_map] at hle
  exact hle

/-- At an index that does not occur, the call is a placeholder. -/
theorem getElem?_placeholder {i : Nat} (hlt : i < ((collected (deltasOf events)).map callOf).length)
    (hi : i ∉ indices events) : ((collected (deltasOf events)).map callOf)[i]? = some placeholder := by
  have hfragments : fragments i (deltasOf events) = [] := by
    rw [fragments, List.filter_eq_nil_iff]
    intro delta hdelta hindex
    exact hi (mem_indices.mpr ⟨delta, hdelta, of_decide_eq_true hindex⟩)
  rw [List.length_map, lt_length_collected_iff] at hlt
  rw [List.getElem?_map, collected_getElem?, if_pos hlt, hfragments]
  rfl

end

/-- There is one call for each distinct index just where no index is left out and there is room for the calls; and
then there are no more calls than fragments. Where there is no room there is no message. Where there is, there is one
call for each index up to the largest that occurs, and those at indices that do not occur are placeholders. -/
theorem calls_fill_indices (host : Host) (events : List StreamEvent) :
    ((∃ made, calls host events = some made ∧ made.length = (indices events).card) ↔
        NoGap events ∧ Room host events) ∧
      ((calls host events).isSome = true ↔ Room host events) ∧
      ∀ made, calls host events = some made →
        (∀ i, i < made.length ↔ ∃ j ∈ indices events, i ≤ j) ∧
        (∀ i, i < made.length → i ∉ indices events → made[i]? = some placeholder) ∧
        (made.length = (indices events).card ↔ NoGap events) ∧
        (NoGap events → made.length ≤ (deltasOf events).length) := by
  refine ⟨⟨?_, ?_⟩, isSome_calls_iff, ?_⟩
  · rintro ⟨made, hmade, hcard⟩
    have hroom := isSome_calls_iff.mp (Option.isSome_iff_exists.mpr ⟨made, hmade⟩)
    rw [calls_eq_some hmade] at hcard
    exact ⟨length_eq_card_iff.mp hcard, hroom⟩
  · rintro ⟨hgap, hroom⟩
    exact ⟨_, calls_eq_if.trans (if_pos hroom), length_eq_card_iff.mpr hgap⟩
  · intro made hmade
    rw [calls_eq_some hmade]
    refine ⟨fun _ => lt_length_calls_iff, fun _ => getElem?_placeholder, length_eq_card_iff, fun hgap => ?_⟩
    rw [length_eq_card_iff.mpr hgap]
    exact card_indices_le

/-- One fragment, for the call at an index. -/
def oneCall (index : Nat) : List StreamEvent :=
  [⟨[⟨none, some ⟨none, none, some [⟨index, some "call_1", some ⟨some "exec", some "\x7b\x7d"⟩⟩]⟩, none⟩], none⟩]

/-- The second of the calls has one before it that nobody made, and at the largest index there is no message at all. -/
theorem lateCall_has_placeholder :
    ((indices (oneCall 1)).card = 1 ∧ (deltasOf (oneCall 1)).length = 1 ∧
      calls exactHost (oneCall 1) = some [placeholder, ⟨"call_1", "function", "exec", "\x7b\x7d"⟩]) ∧
      (∀ host, calls host (oneCall (2 ^ 64 - 1)) = none) ∧
      ¬∀ events, ∃ made, calls exactHost events = some made ∧ made.length = (indices events).card := by
  have hlate : calls exactHost (oneCall 1) = some [placeholder, ⟨"call_1", "function", "exec", "\x7b\x7d"⟩] := by
    decide
  refine ⟨⟨by decide, by decide, hlate⟩, fun host => ?_, fun h => ?_⟩
  · rw [calls_eq_if, if_neg]
    intro hroom
    have hindex := hroom _ (List.mem_singleton_self _)
    have hmax := host.maxCalls_lt
    exact absurd (hindex.trans hmax) (by decide)
  · obtain ⟨made, hmade, hcard⟩ := h (oneCall 1)
    rw [hlate] at hmade
    rw [← Option.some.inj hmade] at hcard
    exact absurd hcard (by decide)

/-! ### The events of a response -/

section

variable (host : Host)

/-- The events the inner loop handles, and the text it leaves. -/
def drainedEvents : Nat → List Char → List StreamEvent × List Char
  | 0, buffer => ([], buffer)
  | fuel + 1, buffer =>
      match findLine buffer with
      | none => ([], buffer)
      | some (line, rest) =>
          match sseLine host line with
          | .skip => drainedEvents fuel rest
          | .done => ([], rest)
          | .event event => (event :: (drainedEvents fuel rest).1, (drainedEvents fuel rest).2)

/-- The events of the chunks up to the first that fails, after the text in the buffer. -/
def receivedEvents {ε : Type} : List Char → List (Except ε (List UInt8)) → List StreamEvent
  | _, [] => []
  | _, .error _ :: _ => []
  | buffer, .ok chunk :: chunks =>
      let buffer := buffer ++ Utf8.decodeLossy chunk
      let drained := drainedEvents host (buffer.length + 1) buffer
      drained.1 ++ receivedEvents drained.2 chunks

end

section

variable {host : Host}

theorem drainLines_eq_foldl (fuel : Nat) (asm : Assembly) (buffer : List Char) :
    drainLines host fuel asm buffer =
      ((drainedEvents host fuel buffer).1.foldl (Assembly.applyEvent host) asm,
        (drainedEvents host fuel buffer).2) := by
  induction fuel generalizing asm buffer with
  | zero => rfl
  | succ fuel ih =>
      unfold drainLines drainedEvents
      cases findLine buffer with
      | none => rfl
      | some found =>
          obtain ⟨line, rest⟩ := found
          dsimp only
          cases sseLine host line with
          | skip => exact ih asm rest
          | done => rfl
          | event event => exact ih (asm.applyEvent host event) rest

theorem processChunks_eq_foldl {ε : Type} (chunks : List (Except ε (List UInt8))) (asm : Assembly)
    (buffer : List Char) :
    (processChunks host (asm, buffer) chunks).2 =
      (receivedEvents host buffer chunks).foldl (Assembly.applyEvent host) asm := by
  induction chunks generalizing asm buffer with
  | nil => rfl
  | cons chunk chunks ih =>
      cases chunk with
      | error e => rfl
      | ok chunk =>
          unfold processChunks receivedEvents processChunk
          dsimp only
          rw [drainLines_eq_foldl, List.foldl_append]
          exact ih _ _

/-- A response that is returned is what its events are assembled to. -/
theorem processStream_response {ε : Type} {chunks : List (Except ε (List UInt8))}
    {response : StreamedResponse} (h : (processStream host chunks).1 = some (.ok response)) :
    (assembled host (receivedEvents host [] chunks)).response = some response := by
  obtain ⟨response', hresponse, heq⟩ := Option.map_eq_some_iff.mp h
  rw [processChunks_eq_foldl] at hresponse
  cases hfailed : (processChunks host (.empty, []) chunks).1 with
  | some e =>
      rw [hfailed] at heq
      cases heq
  | none =>
      rw [hfailed] at heq
      rw [← Except.ok.inj heq]
      exact hresponse

end

end ToolCalls

end Overacp
