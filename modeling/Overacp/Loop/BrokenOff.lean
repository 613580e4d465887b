import Overacp.Lib.Json.Sealed
import Overacp.Loop.Llm.ToolCalls
import Overacp.Loop.ToolRound

/-!
# Responses that are broken off

The stream of a response may end early, at the token limit of the model or with the connection, and the loop
then runs the tools on the calls it has got. The arguments of a call that was cut have lost their closing brace,
and do not parse: what the loop asks the tools for is part of what it would have asked them for.
-/

namespace Overacp

open Llm

namespace ToolCalls

/-! ### The beginning of a stream -/

section

variable {host : Host}

/-- A text that is cut has its complete lines only, whatever stands in the place of the line that is cut. -/
theorem drainedEvents_cut {fuel fuel' : Nat} {text tail more : List Char} (htail : '\n' ∉ tail)
    (hfuel : (text ++ more).length < fuel') :
    (drainedEvents host fuel (text ++ tail)).1 <+: (drainedEvents host fuel' (text ++ more)).1 := by
  induction fuel generalizing fuel' text with
  | zero => exact List.nil_prefix
  | succ fuel ih =>
      cases hfind : findLine text with
      | none =>
          have hnone : findLine (text ++ tail) = none := by
            rw [findLine_eq_none_iff, List.mem_append, not_or]
            exact ⟨findLine_eq_none_iff.mp hfind, htail⟩
          rw [drainedEvents, hnone]
          exact List.nil_prefix
      | some found =>
          obtain ⟨line, rest⟩ := found
          obtain ⟨rfl, hline⟩ := findLine_some hfind
          obtain _ | fuel' := fuel'
          · omega
          have hrest : (rest ++ more).length < fuel' := by
            simp only [List.length_append, List.length_cons] at hfuel ⊢
            omega
          rw [List.append_assoc, List.append_assoc, List.cons_append, List.cons_append, drainedEvents, drainedEvents,
            findLine_line hline, findLine_line hline]
          dsimp only
          cases sseLine host line with
          | skip => exact ih hrest
          | done => exact List.prefix_refl _
          | event event => exact List.cons_prefix_cons.mpr ⟨rfl, ih hrest⟩

/-- The events of a stream that ends within a chunk are the first of those of the whole. -/
theorem receivedEvents_cut {ε : Type} (buffer : List Char) (chunks more : List (Except ε (List UInt8)))
    (chunk : List UInt8) (k : Nat) :
    receivedEvents host buffer (chunks ++ [.ok (chunk.take k)]) <+:
      receivedEvents host buffer (chunks ++ .ok chunk :: more) := by
  induction chunks generalizing buffer with
  | nil =>
      obtain ⟨text, tail, htake, ⟨rest, hrest⟩, htail⟩ := Utf8.decodeFrom_take .start chunk k
      have htake' : Utf8.decodeLossy (chunk.take k) = text ++ tail := htake
      have hrest' : Utf8.decodeLossy chunk = text ++ rest := hrest.symm
      have hnewline : '\n' ∉ tail := fun hmem => absurd (htail _ hmem) (by decide)
      rw [List.nil_append, List.nil_append, receivedEvents, receivedEvents, receivedEvents, List.append_nil,
        htake', hrest', ← List.append_assoc, ← List.append_assoc]
      exact (drainedEvents_cut hnewline (Nat.lt_succ_self _)).trans (List.prefix_append _ _)
  | cons first chunks ih =>
      cases first with
      | error e => exact List.prefix_refl _
      | ok first =>
          rw [List.cons_append, List.cons_append, receivedEvents, receivedEvents]
          exact (List.prefix_append_right_inj _).mpr (ih _)

/-- A stream that does not fail is a response, if there is room for its calls. -/
theorem processStream_received {ε : Type} {chunks : List (List UInt8)} {response : StreamedResponse}
    (h : (ToolCalls.assembled host (@receivedEvents host ε [] (chunks.map .ok))).response = some response) :
    (@processStream host ε (chunks.map .ok)).1 = some (.ok response) := by
  have hok (chunks : List (List UInt8)) (state : Assembly × List Char) :
      (@processChunks host ε state (chunks.map .ok)).1 = none := by
    induction chunks generalizing state with
    | nil => rfl
    | cons chunk chunks ih => exact ih _
  unfold processStream
  dsimp only
  rw [hok, processChunks_eq_foldl]
  exact congrArg (Option.map Except.ok) h

theorem joined_append_arguments (deltas more : List ToolCallDelta) :
    (joined deltas).arguments.toList <+: (joined (deltas ++ more)).arguments.toList := by
  induction more using List.reverseRecOn with
  | nil => rw [List.append_nil]
  | append_singleton more delta ih =>
      rw [← List.append_assoc, joined_concat]
      refine ih.trans ?_
      show _ <+: ((joined (deltas ++ more)).arguments ++ _).toList
      rw [String.toList_append]
      exact List.prefix_append _ _

/-- A name that comes with the first fragment stays. -/
theorem joined_append_name {deltas more : List ToolCallDelta} (hne : deltas ≠ [])
    (hfirst : ∀ delta ∈ (deltas ++ more).tail, nameOf delta = none) :
    (joined (deltas ++ more)).name = (joined deltas).name := by
  have hnone : more.filterMap nameOf = [] := by
    rw [List.filterMap_eq_nil_iff]
    intro delta hdelta
    apply hfirst
    rw [List.tail_append_of_ne_nil hne]
    exact List.mem_append_right _ hdelta
  show ((deltas ++ more).filterMap nameOf).getLast?.getD "" = _
  rw [List.filterMap_append, hnone, List.append_nil]
  rfl

/-- All arguments are objects, and the first fragment of each call has its name. -/
structure Complete (host : Host) (events : List StreamEvent) : Prop where
  objects : ∀ made, calls host events = some made → ∀ tc ∈ made,
    ∃ ms, Json.parse tc.function.arguments.toList = some (.object ms)
  named : ∀ i, ∀ delta ∈ (fragments i (deltasOf events)).tail, nameOf delta = none

/-- What a call asks a tool for, if its arguments can be read. -/
def asksFor (readNumber : Json.Number → Option Json.Number) (tc : ToolCall) : Option (String × Json) :=
  (Json.read readNumber tc.function.arguments.toList).map fun args => (tc.function.name, args)

/-- A call that has come so far either lacks nothing or cannot be read. -/
theorem calls_append {events more : List StreamEvent} {made made' : List ToolCall}
    (h : Complete host (events ++ more)) (hmade : calls host events = some made)
    (hmade' : calls host (events ++ more) = some made') (readNumber : Json.Number → Option Json.Number)
    {i : Nat} {tc : ToolCall} (htc : made[i]? = some tc) :
    ∃ tc', made'[i]? = some tc' ∧ (asksFor readNumber tc = none ∨ asksFor readNumber tc = asksFor readNumber tc') := by
  rw [calls_eq_some hmade, List.getElem?_map, collected_getElem?] at htc
  obtain ⟨ptc, hptc, rfl⟩ := Option.map_eq_some_iff.mp htc
  split_ifs at hptc with hlast
  obtain rfl := Option.some.inj hptc
  have hdeltas : deltasOf (events ++ more) = deltasOf events ++ deltasOf more := by
    rw [deltasOf, List.flatMap_append]
    rfl
  have hfragments : fragments i (deltasOf (events ++ more)) =
      fragments i (deltasOf events) ++ fragments i (deltasOf more) := by
    rw [hdeltas, fragments, List.filter_append]
    rfl
  have hlast' : ∃ delta ∈ deltasOf (events ++ more), i ≤ delta.index := by
    obtain ⟨delta, hdelta, hle⟩ := hlast
    exact ⟨delta, by rw [hdeltas]; exact List.mem_append_left _ hdelta, hle⟩
  have htc' : made'[i]? = some (callOf (joined (fragments i (deltasOf (events ++ more))))) := by
    rw [calls_eq_some hmade', List.getElem?_map, collected_getElem?, if_pos hlast']
    rfl
  refine ⟨_, htc', ?_⟩
  have hobject : ∃ ms, Json.parse (joined (fragments i (deltasOf (events ++ more)))).arguments.toList =
      some (.object ms) :=
    h.objects made' hmade' (callOf (joined (fragments i (deltasOf (events ++ more))))) (List.mem_of_getElem? htc')
  obtain ⟨ms, hms⟩ := hobject
  cases hread : Json.read readNumber (joined (fragments i (deltasOf events))).arguments.toList with
  | none => exact .inl (congrArg (Option.map _) hread)
  | some args =>
      right
      obtain ⟨v, hparse, -, -⟩ := Json.read_eq_some hread
      have hne : fragments i (deltasOf events) ≠ [] := by
        intro hnil
        have hnone : Json.parse (joined []).arguments.toList = none := by decide
        rw [hnil, hnone] at hparse
        cases hparse
      have hname : (joined (fragments i (deltasOf (events ++ more)))).name =
          (joined (fragments i (deltasOf events))).name := by
        rw [hfragments]
        apply joined_append_name hne
        rw [← hfragments]
        exact h.named i
      have hbegins : (joined (fragments i (deltasOf events))).arguments.toList <+:
          (joined (fragments i (deltasOf (events ++ more)))).arguments.toList := by
        rw [hfragments]
        exact joined_append_arguments _ _
      obtain ⟨rfl, -⟩ := Json.parse_of_prefix hms hbegins hparse
      have hsame : Json.read readNumber (joined (fragments i (deltasOf events))).arguments.toList =
          Json.read readNumber (joined (fragments i (deltasOf (events ++ more)))).arguments.toList := by
        rw [Json.read, Json.read, hparse, hms]
      simp only [asksFor, callOf, hsame, hname]

end

theorem filterMap_sublist {α β : Type} {f : α → Option β} {xs ys : List α}
    (h : ∀ (i : Nat) x, xs[i]? = some x → ∃ y, ys[i]? = some y ∧ (f x = none ∨ f x = f y)) :
    (xs.filterMap f).Sublist (ys.filterMap f) := by
  induction xs generalizing ys with
  | nil => exact List.nil_sublist _
  | cons x xs ih =>
      obtain ⟨y, hy, hfirst⟩ := h 0 x rfl
      cases ys with
      | nil => cases hy
      | cons y' ys =>
          obtain rfl := Option.some.inj hy
          have hrest : (xs.filterMap f).Sublist (ys.filterMap f) := ih fun i x hx => h (i + 1) x hx
          cases hf : f x with
          | none =>
              rw [List.filterMap_cons_none hf]
              refine hrest.trans ?_
              rw [List.filterMap_cons]
              split
              · exact List.Sublist.refl _
              · exact List.sublist_cons_self _ _
          | some a =>
              have hy' : f y' = some a := by
                rcases hfirst with hnone | hsame
                · rw [hf] at hnone
                  cases hnone
                · rw [← hsame, hf]
              rw [List.filterMap_cons_some hf, List.filterMap_cons_some hy']
              exact hrest.cons_cons a

end ToolCalls

namespace AgenticLoop

open ToolCalls

/-! ### What a round asks the tools for -/

def Event.execution? : Event → Option (String × Json)
  | toolsCall name arguments => some (name, arguments)
  | execute name arguments => some (name, arguments)
  | _ => none

/-- The names and the arguments that the operator or the registry has been asked for. -/
def executed (s : State) : List (String × Json) := s.trace.filterMap Event.execution?

theorem opening_execution (env : Environment) (tc : ToolCall) :
    (opening env tc).filterMap Event.execution? = [] := by
  unfold opening
  cases Json.read env.readNumber tc.function.arguments.toList <;> rfl

theorem invoke_executed (env : Environment) (name : String) (arguments : Json) (s : State) :
    ∃ result event, invoke env name arguments s = .next result { s with trace := s.trace ++ [event] } ∧
      event.execution? = some (name, arguments) := by
  unfold invoke
  by_cases hacp : env.isAcpTool name = true
  · rw [if_pos hacp]
    exact ⟨_, .toolsCall name arguments, rfl, rfl⟩
  · rw [if_neg hacp]
    exact ⟨_, .execute name arguments, rfl, rfl⟩

theorem handleToolCall_executed (env : Environment) (tc : ToolCall) (s : State) :
    ∃ t, handleToolCall env tc s = .next () t ∧
      executed t = executed s ++ (asksFor env.readNumber tc).toList := by
  cases hread : Json.read env.readNumber tc.function.arguments.toList with
  | none =>
      refine ⟨_, handleToolCall_bad hread s, ?_⟩
      simp [executed, opening_execution, asksFor, hread, Event.execution?]
  | some args =>
      obtain ⟨result, event, hinvoke, hevent⟩ := invoke_executed env tc.function.name args
        { s with trace := s.trace ++ opening env tc }
      obtain ⟨span, hrun⟩ := handleToolCall_asked s hread hinvoke
      refine ⟨_, hrun, ?_⟩
      have hasked : [event, .recordToolSpan span].filterMap Event.execution? = [(tc.function.name, args)] := by
        rw [List.filterMap_cons_some hevent]
        rfl
      show (s.trace ++ opening env tc ++ [event, .recordToolSpan span] ++ [_]).filterMap Event.execution? = _
      rw [List.filterMap_append, List.filterMap_append, List.filterMap_append, opening_execution, hasked,
        asksFor, hread, List.append_nil]
      exact List.append_nil _

theorem forEach_executed (env : Environment) (calls : List ToolCall) (s : State) :
    executed (Prog.forEach calls (handleToolCall env) s).state =
      executed s ++ calls.filterMap (asksFor env.readNumber) := by
  induction calls generalizing s with
  | nil => exact (List.append_nil _).symm
  | cons tc calls ih =>
      obtain ⟨t, hrun, hexecuted⟩ := handleToolCall_executed env tc s
      show executed ((handleToolCall env tc s).andThen _).state = _
      rw [hrun]
      refine (ih t).trans ?_
      rw [hexecuted, List.append_assoc, List.filterMap_cons]
      cases asksFor env.readNumber tc <;> rfl

theorem finish_executed (env : Environment) (reason : Option StopReason) (s : State) :
    executed (finish env reason s).state = executed s := by
  let P : Event → Prop := fun event => event.execution? = none
  have hnotify (text : String) : Prog.Relates (Emits P) (notifyOrFail env (.streamTextDelta text) >>= fun _ => Prog.stop
      : Loop Unit) :=
    (frame_emits P).bind (notifyOrFail_relates (frame_emits P) (ask_emits (P := P) rfl _))
      fun _ => (frame_emits P).stop
  have hemits : Prog.Relates (Emits P) (finish env reason) := by
    unfold finish
    split
    · exact (frame_emits P).stop
    · exact (frame_emits P).stop
    · exact hnotify _
    · exact hnotify _
    · exact (frame_emits P).pure ()
  exact (hemits s).filterMap_eq

/-- From the answer of the language model on, the tools are asked for what its calls ask for. -/
theorem respond_executed (env : Environment) (streamed : StreamedResponse) (s : State) :
    executed (respond env streamed s).state =
      executed s ++ (streamed.message.toolCalls.getD []).filterMap (asksFor env.readNumber) := by
  have husage : ∃ t, trackUsage streamed.usage s = .next () t ∧ executed t = executed s := by
    cases streamed.usage with
    | none => exact ⟨s, rfl, rfl⟩
    | some usage =>
        refine ⟨_, rfl, ?_⟩
        show (s.trace ++ [_]).filterMap Event.execution? = _
        rw [List.filterMap_append]
        exact List.append_nil _
  obtain ⟨t, htrack, hbefore⟩ := husage
  rw [← hbefore]
  simp only [respond, afterUsage, Prog.run_bind, htrack, Outcome.andThen]
  cases streamed.message.toolCalls with
  | some toolCalls => exact forEach_executed env toolCalls _
  | none =>
      refine (finish_executed env streamed.finishReason _).trans ?_
      exact (List.append_nil _).symm

/-! ### What a cut response asks the tools for -/

/-- A stream that ends early, be it within a chunk, makes the loop ask its tools for part of what the whole of it
would have, in the same order: a call is executed with just the arguments it would have had, or not at all. -/
theorem broken_off_asks_part (host : Host) (env : Environment) {ε : Type}
    {chunks more : List (Except ε (List UInt8))} {chunk : List UInt8} {k : Nat} {cut whole : StreamedResponse}
    (hcut : (processStream host (chunks ++ [.ok (chunk.take k)])).1 = some (.ok cut))
    (hwhole : (processStream host (chunks ++ .ok chunk :: more)).1 = some (.ok whole))
    (hcomplete : Complete host (receivedEvents host [] (chunks ++ .ok chunk :: more))) (s s' : State) :
    ∃ asked asked', executed (respond env cut s).state = executed s ++ asked ∧
      executed (respond env whole s').state = executed s' ++ asked' ∧ asked.Sublist asked' := by
  refine ⟨_, _, respond_executed env cut s, respond_executed env whole s', ?_⟩
  obtain ⟨rest, hrest⟩ := @receivedEvents_cut host ε [] chunks more chunk k
  have hmade := congrArg (Option.map fun response => response.message.toolCalls.getD [])
    (processStream_response hcut)
  have hmade' := congrArg (Option.map fun response => response.message.toolCalls.getD [])
    (processStream_response hwhole)
  rw [← hrest] at hcomplete hmade'
  exact filterMap_sublist fun i tc htc => calls_append hcomplete hmade hmade' env.readNumber htc

/-- A line of a stream with one fragment of a call. -/
def fragmentLine (fragment : String) : List UInt8 :=
  Utf8.encode ("data: \x7b\"choices\": [\x7b\"delta\": \x7b\"tool_calls\": [\x7b\"index\": 0, " ++ fragment ++
    "\x7d]\x7d\x7d]\x7d\n").toList

def callStart : List UInt8 :=
  fragmentLine "\"id\": \"c1\", \"function\": \x7b\"name\": \"write\", \"arguments\": \"\x7b\\\"path\\\":\"\x7d"

def callEnd : List UInt8 := fragmentLine "\"function\": \x7b\"arguments\": \"7\x7d\"\x7d"

theorem deltasOf_twoFragments : deltasOf (@receivedEvents exactHost String [] [.ok (callStart ++ callEnd)]) =
    [⟨0, some "c1", some ⟨some "write", some "\x7b\"path\":"⟩⟩, ⟨0, none, some ⟨none, some "7\x7d"⟩⟩] := by
  decide +kernel

theorem calls_twoFragments : calls exactHost (@receivedEvents exactHost String [] [.ok (callStart ++ callEnd)]) =
    some [⟨"c1", "function", "write", "\x7b\"path\":7\x7d"⟩] := by
  rw [calls_eq, deltasOf_twoFragments]
  decide +kernel

/-- The arguments of the whole call. -/
def pathArguments : Json := .object [("path", .number ⟨['7'], rfl⟩)]

theorem parse_pathArguments : Json.parse "\x7b\"path\":7\x7d".toList = some pathArguments := by
  have hprint : "\x7b\"path\":7\x7d".toList = pathArguments.print ++ [] := by decide
  rw [hprint, Json.parse_print pathArguments (by simp), if_pos (by decide)]

theorem twoFragments_complete :
    Complete exactHost (@receivedEvents exactHost String [] [.ok (callStart ++ callEnd)]) where
  objects made hmade tc htc := by
    rw [calls_twoFragments] at hmade
    rw [← Option.some.inj hmade, List.mem_singleton] at htc
    rw [htc]
    exact ⟨_, parse_pathArguments⟩
  named i delta hdelta := by
    rw [deltasOf_twoFragments, fragments] at hdelta
    have hlast := List.mem_of_mem_tail hdelta
    by_cases hi : i = 0
    · rw [hi] at hdelta
      obtain rfl := List.mem_singleton.mp hdelta
      rfl
    · rw [List.mem_filter, decide_eq_true_eq] at hlast
      obtain ⟨hmem, hindex⟩ := hlast
      simp only [List.mem_cons, List.not_mem_nil, or_false] at hmem
      rcases hmem with rfl | rfl
      · exact absurd hindex.symm hi
      · exact absurd hindex.symm hi

/-- A call comes in two fragments in one chunk, and the connection is lost within the second of them: the call
is not executed. -/
theorem broken_off_asks_part_twoFragments : ∃ cut whole,
    (@processStream exactHost String ([] ++ [.ok ((callStart ++ callEnd).take (callStart.length + 9))])).1 =
      some (.ok cut) ∧
    (@processStream exactHost String ([] ++ [.ok (callStart ++ callEnd)])).1 = some (.ok whole) ∧
    ∃ asked asked', executed (respond calling cut (initial calling [] [])).state =
        executed (initial calling [] []) ++ asked ∧
      executed (respond calling whole (initial calling [] [])).state =
        executed (initial calling [] []) ++ asked' ∧ asked.Sublist asked' := by
  have hcut : ∃ cut, (ToolCalls.assembled exactHost (@receivedEvents exactHost String []
      [.ok ((callStart ++ callEnd).take (callStart.length + 9))])).response = some cut :=
    Option.isSome_iff_exists.mp (by decide +kernel)
  have hwhole : ∃ whole, (ToolCalls.assembled exactHost (@receivedEvents exactHost String []
      [.ok (callStart ++ callEnd)])).response = some whole :=
    Option.isSome_iff_exists.mp (by decide +kernel)
  obtain ⟨cut, hcut⟩ := hcut
  obtain ⟨whole, hwhole⟩ := hwhole
  have hcut' := @processStream_received exactHost String [(callStart ++ callEnd).take (callStart.length + 9)] _ hcut
  have hwhole' := @processStream_received exactHost String [callStart ++ callEnd] _ hwhole
  exact ⟨cut, whole, hcut', hwhole', @broken_off_asks_part exactHost calling String [] [] _ _ _ _ hcut' hwhole'
    twoFragments_complete _ _⟩

end AgenticLoop

end Overacp
