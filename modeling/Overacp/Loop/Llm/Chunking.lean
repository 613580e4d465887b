import Overacp.Loop.Llm.Stream

/-!
# How a response is cut into chunks

The result of `process_stream` is a fold over the complete lines of the decoded text, as long as no
line after a `[DONE]` line does anything: which of those lines are handled depends on where the
chunks end. The decoded text is the text of the body exactly when no cut falls inside a character.
-/

namespace Overacp

open Llm

/-! ### Complete lines -/

/-- The lines of a text that end in a line feed. -/
def completeLines : List Char → List (List Char)
  | [] => []
  | c :: cs =>
      if c = '\n' then [] :: completeLines cs
      else match completeLines cs with
        | [] => []
        | line :: lines => (c :: line) :: lines

def unlines (lines : List (List Char)) : List Char := lines.flatMap fun line => line ++ ['\n']

theorem completeLines_line {line : List Char} (hline : '\n' ∉ line) (rest : List Char) :
    completeLines (line ++ '\n' :: rest) = line :: completeLines rest := by
  induction line with
  | nil => rfl
  | cons c line ih =>
      rw [List.mem_cons, not_or] at hline
      rw [List.cons_append, completeLines, if_neg (Ne.symm hline.1), ih hline.2]

theorem completeLines_unlines {lines : List (List Char)} (hlines : ∀ line ∈ lines, '\n' ∉ line)
    (rest : List Char) : completeLines (unlines lines ++ rest) = lines ++ completeLines rest := by
  induction lines with
  | nil => rfl
  | cons line lines ih =>
      have hrest := ih fun l hl => hlines l (List.mem_cons_of_mem _ hl)
      have hfirst := completeLines_line (hlines line List.mem_cons_self) (unlines lines ++ rest)
      have hcons : unlines (line :: lines) ++ rest = line ++ '\n' :: (unlines lines ++ rest) := by
        simp only [unlines, List.flatMap_cons, List.append_assoc, List.cons_append, List.nil_append]
      rw [hcons, hfirst, hrest, List.cons_append]

theorem findLine_some {cs line rest : List Char} (hfind : findLine cs = some (line, rest)) :
    cs = line ++ '\n' :: rest ∧ '\n' ∉ line := by
  induction cs generalizing line with
  | nil => cases hfind
  | cons c cs ih =>
      rw [findLine] at hfind
      split at hfind
      · rename_i hc
        cases hfind
        exact ⟨by rw [hc]; rfl, by simp⟩
      · rename_i hc
        obtain ⟨⟨line', rest'⟩, hrest, heq⟩ := Option.map_eq_some_iff.mp hfind
        cases heq
        obtain ⟨rfl, hline⟩ := ih hrest
        exact ⟨rfl, by simp [hline, Ne.symm hc]⟩

theorem findLine_none {cs : List Char} (hfind : findLine cs = none) : completeLines cs = [] := by
  induction cs with
  | nil => rfl
  | cons c cs ih =>
      rw [findLine] at hfind
      split at hfind
      · cases hfind
      · rename_i hc
        rw [completeLines, if_neg hc, ih (Option.map_eq_none_iff.mp hfind)]

section

variable {host : Host}

/-! ### What a line does -/

variable (host) in
def handleLine (asm : Assembly) (line : List Char) : Assembly :=
  match sseLine host line with
  | .event event => asm.applyEvent host event
  | _ => asm

variable (host) in
def isDone (line : List Char) : Bool :=
  match sseLine host line with
  | .done => true
  | _ => false

/-- The event carries no usage, no finish reason, no text and no tool calls. -/
def SilentEvent (event : StreamEvent) : Prop :=
  event.usage = none ∧ ∀ choice ∈ event.choices, choice.finishReason = none ∧
    choice.delta.bind Delta.content = none ∧ choice.delta.bind Delta.toolCalls = none

variable (host) in
/-- The line is no event, or an event that carries nothing. -/
def Silent (line : List Char) : Prop := ∀ event, sseLine host line = .event event → SilentEvent event

variable (host) in
/-- No line after a `[DONE]` line carries anything. -/
def SilentAfterDone (lines : List (List Char)) : Prop :=
  ∀ before done after, lines = before ++ done :: after → isDone host done = true → ∀ line ∈ after, Silent host line

theorem applyEvent_silent {event : StreamEvent} (h : SilentEvent event) (asm : Assembly) :
    asm.applyEvent host event = asm := by
  obtain ⟨husage, hchoices⟩ := h
  rw [Assembly.applyEvent, husage, Assembly.setUsage]
  generalize event.choices = choices at hchoices
  induction choices with
  | nil => rfl
  | cons choice choices ih =>
      obtain ⟨hreason, hcontent, hcalls⟩ := hchoices choice List.mem_cons_self
      have hchoice : asm.applyChoice host choice = asm := by
        rw [Assembly.applyChoice, hreason, hcontent, hcalls]
        split <;> rfl
      rw [List.foldl_cons, hchoice]
      exact ih fun c hc => hchoices c (List.mem_cons_of_mem _ hc)

theorem handleLine_silent {line : List Char} (h : Silent host line) (asm : Assembly) :
    handleLine host asm line = asm := by
  unfold handleLine
  split
  · rename_i event hevent
    exact applyEvent_silent (h event hevent) asm
  · rfl

theorem foldl_handleLine_silent {lines : List (List Char)} (h : ∀ line ∈ lines, Silent host line)
    (asm : Assembly) : lines.foldl (handleLine host) asm = asm := by
  induction lines with
  | nil => rfl
  | cons line lines ih =>
      rw [List.foldl_cons, handleLine_silent (h line List.mem_cons_self)]
      exact ih fun l hl => h l (List.mem_cons_of_mem _ hl)

/-! ### What a chunk does -/

variable (host) in
/-- The state after some text: the assembly is a fold over lines of it, the buffer is what follows
them, and a complete line is left in the buffer only after a `[DONE]` line. -/
structure After (text : List Char) (state : Assembly × List Char) (lines : List (List Char)) : Prop where
  assembly : state.1 = lines.foldl (handleLine host) .empty
  text : text = unlines lines ++ state.2
  noNewline : ∀ line ∈ lines, '\n' ∉ line
  left : completeLines state.2 = [] ∨ ∃ line ∈ lines, isDone host line = true

theorem drainLines_spec {fuel : Nat} {asm : Assembly} {buffer : List Char} (hfuel : buffer.length < fuel) :
    ∃ lines, (drainLines host fuel asm buffer).1 = lines.foldl (handleLine host) asm ∧
      buffer = unlines lines ++ (drainLines host fuel asm buffer).2 ∧ (∀ line ∈ lines, '\n' ∉ line) ∧
      (completeLines (drainLines host fuel asm buffer).2 = [] ∨ ∃ line ∈ lines, isDone host line = true) := by
  induction fuel generalizing asm buffer with
  | zero => omega
  | succ fuel ih =>
      rw [drainLines]
      cases hfind : findLine buffer with
      | none => exact ⟨[], rfl, rfl, by simp, .inl (findLine_none hfind)⟩
      | some found =>
          obtain ⟨line, rest⟩ := found
          obtain ⟨rfl, hline⟩ := findLine_some hfind
          have hrest : rest.length < fuel := by
            rw [List.length_append, List.length_cons] at hfuel
            omega
          -- one more line in front of what the rest of the loop handles
          have hcons : ∀ asm', handleLine host asm line = asm' → ∃ lines,
              (drainLines host fuel asm' rest).1 = lines.foldl (handleLine host) asm ∧
                line ++ '\n' :: rest = unlines lines ++ (drainLines host fuel asm' rest).2 ∧
                (∀ line ∈ lines, '\n' ∉ line) ∧
                (completeLines (drainLines host fuel asm' rest).2 = [] ∨ ∃ line ∈ lines, isDone host line = true) := by
            intro asm' hasm
            obtain ⟨lines, hfold, htext, hnewline, hleft⟩ := @ih asm' rest hrest
            refine ⟨line :: lines, by rw [List.foldl_cons, hasm, hfold], ?_, ?_, ?_⟩
            · conv_lhs => rw [htext]
              simp only [unlines, List.flatMap_cons, List.append_assoc, List.cons_append, List.nil_append]
            · intro l hl
              rcases List.mem_cons.mp hl with rfl | hl
              · exact hline
              · exact hnewline l hl
            · rcases hleft with hnone | ⟨l, hl, hdone⟩
              · exact .inl hnone
              · exact .inr ⟨l, List.mem_cons_of_mem _ hl, hdone⟩
          dsimp only
          cases hsse : sseLine host line with
          | skip => exact hcons asm (by rw [handleLine, hsse])
          | event event => exact hcons (asm.applyEvent host event) (by rw [handleLine, hsse])
          | done =>
              refine ⟨[line], ?_, ?_, ?_, ?_⟩
              · rw [List.foldl_cons, handleLine, hsse]
                rfl
              · simp [unlines]
              · intro l hl
                rw [List.mem_singleton] at hl
                rwa [hl]
              · exact .inr ⟨line, List.mem_singleton_self _, by rw [isDone, hsse]⟩

theorem after_processChunk {text : List Char} {state : Assembly × List Char} {lines : List (List Char)}
    (h : After host text state lines) (chunk : List UInt8) :
    ∃ lines', After host (text ++ Utf8.decodeLossy chunk) (processChunk host state chunk) lines' := by
  obtain ⟨more, hfold, htext, hnewline, hleft⟩ :=
    @drainLines_spec host ((state.2 ++ Utf8.decodeLossy chunk).length + 1) state.1
      (state.2 ++ Utf8.decodeLossy chunk) (Nat.lt_succ_self _)
  refine ⟨lines ++ more, ?_, ?_, ?_, ?_⟩
  · rw [List.foldl_append, ← h.assembly]
    exact hfold
  · conv_lhs => rw [h.text, List.append_assoc, htext]
    simp only [unlines, List.flatMap_append, List.append_assoc]
    rfl
  · intro line hline
    rcases List.mem_append.mp hline with hold | hnew
    · exact h.noNewline line hold
    · exact hnewline line hnew
  · rcases hleft with hnone | ⟨line, hline, hdone⟩
    · exact .inl hnone
    · exact .inr ⟨line, List.mem_append_right _ hline, hdone⟩

theorem after_processChunks {ε : Type} {text : List Char} {state : Assembly × List Char}
    {lines : List (List Char)} (h : After host text state lines) (chunks : List (List UInt8)) :
    ∃ state' lines', After host (text ++ chunks.flatMap Utf8.decodeLossy) state' lines' ∧
      @processChunks host ε state (chunks.map .ok) = (none, state'.1) := by
  induction chunks generalizing text state lines with
  | nil => exact ⟨state, lines, by simpa using h, rfl⟩
  | cons chunk chunks ih =>
      obtain ⟨lines', h'⟩ := after_processChunk h chunk
      obtain ⟨state'', lines'', h'', hresult⟩ := ih h'
      refine ⟨state'', lines'', ?_, hresult⟩
      rwa [List.flatMap_cons, ← List.append_assoc]

/-- The complete lines of the text were handled up to some `[DONE]`, and the others do nothing. -/
theorem assembly_eq_foldl {text : List Char} {state : Assembly × List Char} {lines : List (List Char)}
    (h : After host text state lines) (hsilent : SilentAfterDone host (completeLines text)) :
    state.1 = (completeLines text).foldl (handleLine host) .empty := by
  have hlines : completeLines text = lines ++ completeLines state.2 := by
    conv_lhs => rw [h.text]
    exact completeLines_unlines h.noNewline state.2
  rw [hlines, List.foldl_append, ← h.assembly]
  rcases h.left with hnone | ⟨done, hmem, hdone⟩
  · rw [hnone]
    rfl
  · obtain ⟨before, after, rfl⟩ := List.append_of_mem hmem
    refine (foldl_handleLine_silent (fun line hline => ?_) _).symm
    refine hsilent before done (after ++ completeLines state.2) ?_ hdone line ?_
    · rw [hlines, List.append_assoc, List.cons_append]
    · exact List.mem_append_right _ hline

variable (host) in
/-- The assembly of a text: a fold over its complete lines. -/
def assemble (text : List Char) : Assembly := (completeLines text).foldl (handleLine host) .empty

theorem processStream_eq_assemble {ε : Type} {text : List Char} {chunks : List (List UInt8)}
    (hdecode : chunks.flatMap Utf8.decodeLossy = text) (hsilent : SilentAfterDone host (completeLines text)) :
    @processStream host ε (chunks.map .ok) =
      ((assemble host text).response.map .ok, (assemble host text).texts, (assemble host text).emitted) := by
  have hstart : After host [] (Assembly.empty, []) [] := ⟨rfl, rfl, by simp, .inl rfl⟩
  obtain ⟨state, lines, hafter, hresult⟩ := @after_processChunks host ε _ _ _ hstart chunks
  rw [List.nil_append, hdecode] at hafter
  rw [processStream, hresult, assembly_eq_foldl hafter hsilent]
  rfl

/-! ### When the cut does not matter -/

/-- The chunks are the body, and no cut falls inside a character. -/
structure CutBetweenCharacters (text : List Char) (chunks : List (List UInt8)) : Prop where
  body : chunks.flatten = Utf8.encode text
  valid : ∀ chunk ∈ chunks, ∃ t, chunk = Utf8.encode t

/-- Two cuts of a body that both fall between characters give the same result, if no line of the body
after a `[DONE]` line carries anything. -/
theorem processStream_eq_of_cuts {ε : Type} {text : List Char} {chunks chunks' : List (List UInt8)}
    (hcut : CutBetweenCharacters text chunks) (hcut' : CutBetweenCharacters text chunks')
    (hsilent : SilentAfterDone host (completeLines text)) :
    @processStream host ε (chunks.map .ok) = processStream host (chunks'.map .ok) := by
  rw [processStream_eq_assemble ((Utf8.decodeLossy_pieces_iff hcut.body).mpr hcut.valid) hsilent,
    processStream_eq_assemble ((Utf8.decodeLossy_pieces_iff hcut'.body).mpr hcut'.valid) hsilent]

/-! ### What the two extreme cuts handle -/

variable (host) in
/-- The lines up to the first `[DONE]`. -/
def throughDone : List (List Char) → List (List Char)
  | [] => []
  | line :: lines => if isDone host line then [line] else line :: throughDone lines

theorem drainLines_throughDone {fuel : Nat} {asm : Assembly} {buffer : List Char}
    (hfuel : buffer.length < fuel) :
    (drainLines host fuel asm buffer).1 = (throughDone host (completeLines buffer)).foldl (handleLine host) asm := by
  induction fuel generalizing asm buffer with
  | zero => omega
  | succ fuel ih =>
      rw [drainLines]
      cases hfind : findLine buffer with
      | none =>
          rw [findLine_none hfind]
          rfl
      | some found =>
          obtain ⟨line, rest⟩ := found
          obtain ⟨rfl, hline⟩ := findLine_some hfind
          have hrest : rest.length < fuel := by
            rw [List.length_append, List.length_cons] at hfuel
            omega
          rw [completeLines_line hline, throughDone]
          dsimp only
          cases hsse : sseLine host line with
          | skip => simp [isDone, handleLine, hsse, ih hrest]
          | done => simp [isDone, handleLine, hsse]
          | event event => simp [isDone, handleLine, hsse, ih hrest]

/-- One chunk handles the lines up to the first `[DONE]` and no other. -/
theorem processChunks_whole {ε : Type} (text : List Char) :
    (@processChunks host ε (.empty, []) ([Utf8.encode text].map .ok)).2 =
      (throughDone host (completeLines text)).foldl (handleLine host) .empty := by
  have hdrain := @drainLines_throughDone host (text.length + 1) .empty text (Nat.lt_succ_self _)
  simpa only [List.map_cons, List.map_nil, processChunks, processChunk, List.nil_append,
    Utf8.decodeLossy_encode] using hdrain

theorem findLine_eq_none_iff {cs : List Char} : findLine cs = none ↔ '\n' ∉ cs := by
  induction cs with
  | nil => exact iff_of_true rfl (List.not_mem_nil)
  | cons c cs ih =>
      rw [findLine, List.mem_cons, not_or]
      by_cases hc : c = '\n'
      · rw [if_pos hc]
        exact iff_of_false nofun fun h => h.1 hc.symm
      · rw [if_neg hc, Option.map_eq_none_iff, ih]
        exact ⟨fun h => ⟨Ne.symm hc, h⟩, fun h => h.2⟩

theorem findLine_line {line : List Char} (hline : '\n' ∉ line) (rest : List Char) :
    findLine (line ++ '\n' :: rest) = some (line, rest) := by
  induction line with
  | nil => rfl
  | cons c line ih =>
      rw [List.mem_cons, not_or] at hline
      rw [List.cons_append, findLine, if_neg (Ne.symm hline.1), ih hline.2]
      rfl

/-- A chunk of one character completes at most one line, and leaves no line feed in the buffer. -/
theorem processChunk_char {asm : Assembly} {buffer : List Char} (hbuffer : '\n' ∉ buffer) (c : Char) :
    processChunk host (asm, buffer) (Utf8.encode [c]) =
      if c = '\n' then (handleLine host asm buffer, []) else (asm, buffer ++ [c]) := by
  rw [processChunk, Utf8.decodeLossy_encode]
  dsimp only
  rw [drainLines]
  by_cases hc : c = '\n'
  · subst hc
    have hempty : ∀ fuel asm', drainLines host fuel asm' [] = (asm', []) := fun fuel _ => by cases fuel <;> rfl
    rw [findLine_line hbuffer, if_pos rfl]
    dsimp only
    cases hsse : sseLine host buffer <;> simp only [handleLine, hsse, hempty]
  · have hnone : '\n' ∉ buffer ++ [c] := by
      simp [hbuffer, Ne.symm hc]
    rw [findLine_eq_none_iff.mpr hnone, if_neg hc]

/-- One chunk a character handles every complete line. -/
theorem processChunks_chars {ε : Type} {asm : Assembly} {buffer : List Char} (hbuffer : '\n' ∉ buffer)
    (text : List Char) :
    (@processChunks host ε (asm, buffer) ((text.map fun c => Utf8.encode [c]).map .ok)).2 =
      (completeLines (buffer ++ text)).foldl (handleLine host) asm := by
  induction text generalizing asm buffer with
  | nil =>
      rw [List.append_nil, findLine_none (findLine_eq_none_iff.mpr hbuffer)]
      rfl
  | cons c text ih =>
      rw [List.map_cons, List.map_cons, processChunks, processChunk_char hbuffer]
      split
      · rename_i hc
        rw [ih (by simp), hc, completeLines_line hbuffer]
        rfl
      · rename_i hc
        rw [ih (by simp [hbuffer, Ne.symm hc]), List.append_assoc]
        rfl

/-- The response in one chunk and the response a character at a time assemble the same if and only if
the lines after the first `[DONE]` change nothing. -/
theorem extreme_cuts_agree_iff {ε : Type} (text : List Char) :
    (@processChunks host ε (.empty, []) ([Utf8.encode text].map .ok)).2 =
        (@processChunks host ε (.empty, []) ((text.map fun c => Utf8.encode [c]).map .ok)).2 ↔
      (throughDone host (completeLines text)).foldl (handleLine host) .empty =
        (completeLines text).foldl (handleLine host) .empty := by
  have hnil : '\n' ∉ ([] : List Char) := List.not_mem_nil
  rw [processChunks_whole, processChunks_chars hnil, List.nil_append]

end

/-- A streamed text of one character that takes two bytes. -/
private def accentBody : List Char := "data: \x7b\"choices\":[\x7b\"delta\":\x7b\"content\":\"é\"\x7d\x7d]\x7d\n".toList

/-- A host that reads every number in the range of a double as it is, and holds a million calls. -/
def exactHost : Host :=
  ⟨fun n => if n.toRat.num.natAbs < 2 ^ 1024 * n.toRat.den then some n.toRat else none, 10 ^ 6, by decide⟩

theorem accent_whole_or_by_character :
    @processStream exactHost String ([Utf8.encode accentBody].map .ok) =
      processStream exactHost ((accentBody.map fun c => Utf8.encode [c]).map .ok) := by
  have hwhole : CutBetweenCharacters accentBody [Utf8.encode accentBody] :=
    ⟨List.append_nil _, fun chunk hchunk => ⟨accentBody, List.mem_singleton.mp hchunk⟩⟩
  have hchars : CutBetweenCharacters accentBody (accentBody.map fun c => Utf8.encode [c]) := by
    refine ⟨by decide +kernel, fun chunk hchunk => ?_⟩
    obtain ⟨c, -, rfl⟩ := List.mem_map.mp hchunk
    exact ⟨[c], rfl⟩
  refine processStream_eq_of_cuts hwhole hchars ?_
  intro before done after hlines _ line hline
  have hone : (completeLines accentBody).length = 1 := by decide +kernel
  rw [hlines, List.length_append, List.length_cons] at hone
  have hafter : after = [] := List.length_eq_zero_iff.mp (by omega)
  rw [hafter] at hline
  cases hline

/-- A cut inside the character: both halves are replaced, and the text is another one. -/
theorem cut_inside_character_changes_text :
    ¬ ∀ (text : List Char) (chunks chunks' : List (List UInt8)), chunks.flatten = Utf8.encode text →
      chunks'.flatten = Utf8.encode text →
        @processStream exactHost String (chunks.map .ok) = processStream exactHost (chunks'.map .ok) := by
  intro h
  have hcut := h accentBody [Utf8.encode accentBody]
    [(Utf8.encode accentBody).take 40, (Utf8.encode accentBody).drop 40] (List.append_nil _)
    (by decide +kernel)
  have htexts := congrArg (fun outcome => outcome.2.1) hcut
  revert htexts
  decide +kernel

end Overacp
