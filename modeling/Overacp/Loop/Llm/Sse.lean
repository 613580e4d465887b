import Overacp.Loop.Llm.ToolCalls

/-!
# Server-sent events

A body with one line of data an event, comments and blank lines between, and what `process_stream` makes of it in one
chunk: the text of the message is joined from the events of the lines whose data stands behind a space.
-/

namespace Overacp

open Llm

namespace Sse

/-! ### A body -/

/-- What follows the beginning of a line. -/
structure LineText where
  chars : List Char
  inLine : ∀ c ∈ chars, c ≠ '\n' ∧ c ≠ '\r'

inductive Field where
  | blank
  | comment (text : LineText)
  | data (rest : LineText)

/-- A line ends in a line feed, with a carriage return before it or without. -/
structure Line where
  field : Field
  crlf : Bool

def Field.chars : Field → List Char
  | .blank => []
  | .comment text => ':' :: text.chars
  | .data rest => "data:".toList ++ rest.chars

def lineEnd (crlf : Bool) : List Char := if crlf then ['\r'] else []

def Line.chars (line : Line) : List Char := line.field.chars ++ lineEnd line.crlf

def bodyText (body : List Line) : List Char := unlines (body.map Line.chars)

/-! ### What is read -/

/-- The text behind the space that it begins with. -/
def behindSpace : List Char → Option (List Char)
  | ' ' :: chars => some chars
  | _ => none

/-- The data is `[DONE]` behind a space. -/
def Line.stops (line : Line) : Bool :=
  match line.field with
  | .data rest => (behindSpace rest.chars).any fun chars => trim chars = "[DONE]".toList
  | _ => false

section

variable (host : Host)

/-- The event of a line whose data is behind a space and is decoded. -/
def Line.event (line : Line) : Option StreamEvent :=
  match line.field with
  | .data rest => (behindSpace rest.chars).bind fun chars => StreamEvent.ofText host (trim chars)
  | _ => none

end

def choiceText (choice : Choice) : String := (choice.delta.bind Delta.content).getD ""

def eventText (event : StreamEvent) : String := String.join (event.choices.map choiceText)

section

variable (host : Host)

def Line.taken (line : Line) : String := ((line.event host).map eventText).getD ""

def taken (body : List Line) : String :=
  String.join ((body.takeWhile fun line => !line.stops).map (Line.taken host))

/-- As many calls can be held as the fragments of the line need. -/
def Line.Held (line : Line) : Prop :=
  ∀ event, line.event host = some event → ∀ delta ∈ ToolCalls.deltasOfEvent event, delta.index < host.maxCalls

def Held (body : List Line) : Prop := ∀ line ∈ body.takeWhile fun line => !line.stops, line.Held host

def messageText (response : StreamedResponse) : String := (response.message.content.bind Content.asText).getD ""

/-- The text of the message that is assembled from the body in one chunk, if one is. -/
def streamedText (body : List Line) : Option String :=
  ((@processStream host String [.ok (Utf8.encode (bodyText body))]).1.bind Except.toOption).map messageText

end

/-! ### The lines of a body -/

theorem behindSpace_eq_none {rest : List Char} (h : rest.head? ≠ some ' ') : behindSpace rest = none := by
  unfold behindSpace
  split
  · exact absurd rfl h
  · rfl

def trimEnd (cs : List Char) : List Char := (cs.reverse.dropWhile isWhitespace).reverse

theorem trim_eq (cs : List Char) : trim cs = trimEnd (cs.dropWhile isWhitespace) := rfl

theorem trimEnd_cons {c : Char} (hc : isWhitespace c = false) (cs : List Char) :
    trimEnd (c :: cs) = c :: trimEnd cs := by
  have hone : [c].dropWhile isWhitespace = [c] := List.dropWhile_cons_of_neg (by rw [hc]; decide)
  rw [trimEnd, List.reverse_cons, List.dropWhile_append, trimEnd]
  split
  · rename_i hempty
    rw [hone, List.isEmpty_iff.mp hempty]
    rfl
  · rw [List.reverse_append]
    rfl

theorem trim_cons {c : Char} (hc : isWhitespace c = false) (cs : List Char) : trim (c :: cs) = c :: trimEnd cs := by
  rw [trim_eq, List.dropWhile_cons_of_neg (by rw [hc]; decide), trimEnd_cons hc]

theorem trimEnd_append {ws : List Char} (hws : ∀ c ∈ ws, isWhitespace c = true) (cs : List Char) :
    trimEnd (cs ++ ws) = trimEnd cs := by
  rw [trimEnd, List.reverse_append, List.dropWhile_append_of_pos fun c hc => hws c (List.mem_reverse.mp hc), trimEnd]

theorem trim_append {ws : List Char} (hws : ∀ c ∈ ws, isWhitespace c = true) (cs : List Char) :
    trim (cs ++ ws) = trim cs := by
  rw [trim_eq, List.dropWhile_append, trim_eq]
  split
  · rename_i hempty
    rw [List.isEmpty_iff.mp hempty, List.dropWhile_eq_nil_iff.mpr hws]
  · exact trimEnd_append hws _

theorem trimEnd_eq (cs : List Char) : ∃ ws, cs = trimEnd cs ++ ws ∧ ∀ c ∈ ws, isWhitespace c = true := by
  refine ⟨(cs.reverse.takeWhile isWhitespace).reverse, ?_, ?_⟩
  · rw [trimEnd, ← List.reverse_append, List.takeWhile_append_dropWhile, List.reverse_reverse]
  · intro c hc
    exact List.mem_takeWhile_imp (List.mem_reverse.mp hc)

theorem isWhitespace_lineEnd (crlf : Bool) : ∀ c ∈ lineEnd crlf, isWhitespace c = true := by
  cases crlf with
  | false => exact fun c hc => absurd hc List.not_mem_nil
  | true =>
      intro c hc
      rw [List.mem_singleton.mp hc]
      rfl

/-- What the line of some data is, once it is trimmed. -/
theorem trim_data (rest : List Char) (crlf : Bool) :
    trim ("data:".toList ++ rest ++ lineEnd crlf) = "data:".toList ++ trimEnd rest := by
  rw [trim_append (isWhitespace_lineEnd crlf)]
  show trim ('d' :: 'a' :: 't' :: 'a' :: ':' :: rest) = 'd' :: 'a' :: 't' :: 'a' :: ':' :: trimEnd rest
  rw [trim_cons (by decide), trimEnd_cons (by decide), trimEnd_cons (by decide), trimEnd_cons (by decide),
    trimEnd_cons (by decide)]

section

variable {host : Host}

variable (host) in
/-- What the code does with the data of a trimmed line. -/
def ofData (rest : List Char) : SseLine :=
  match "data: ".toList.isPrefixOf? ("data:".toList ++ rest) with
  | none => .skip
  | some data =>
      if trim data = "[DONE]".toList then .done
      else match StreamEvent.ofText host (trim data) with
        | none => .skip
        | some event => .event event

theorem sseLine_data (rest : List Char) (crlf : Bool) :
    sseLine host ("data:".toList ++ rest ++ lineEnd crlf) = ofData host (trimEnd rest) := by
  rw [sseLine, trim_data]
  rfl

theorem ofData_space (chars : List Char) :
    ofData host (' ' :: chars) = if trim chars = "[DONE]".toList then .done
      else match StreamEvent.ofText host (trim chars) with
        | none => .skip
        | some event => .event event := rfl

theorem ofData_of_ne {rest : List Char} (h : rest.head? ≠ some ' ') : ofData host rest = .skip := by
  cases rest with
  | nil => rfl
  | cons c chars =>
      have hc : (' ' == c) = false := by
        rw [beq_eq_false_iff_ne]
        rintro rfl
        exact h rfl
      show (match (if (' ' == c) = true then some chars else none : Option (List Char)) with
        | none => SseLine.skip
        | some data => _) = _
      rw [hc]
      rfl

theorem sseLine_comment (text : List Char) (crlf : Bool) : sseLine host (':' :: text ++ lineEnd crlf) = .skip := by
  rw [sseLine, trim_append (isWhitespace_lineEnd crlf), trim_cons (by decide)]
  rfl

/-- What the loop makes of a line. -/
theorem sseLine_chars (line : Line) : sseLine host line.chars =
    if line.stops then .done else match line.event host with
      | none => .skip
      | some event => .event event := by
  obtain ⟨field, crlf⟩ := line
  cases field with
  | blank =>
      cases crlf with
      | true => rfl
      | false => rfl
  | comment text => exact sseLine_comment text.chars crlf
  | data rest =>
      obtain ⟨chars, hchars⟩ := rest
      show sseLine host ("data:".toList ++ chars ++ lineEnd crlf) = _
      rw [sseLine_data]
      by_cases hspace : chars.head? = some ' '
      · obtain ⟨more, rfl⟩ := List.head?_eq_some_iff.mp hspace
        obtain ⟨ws, heq, hws⟩ := trimEnd_eq (' ' :: more)
        cases hend : trimEnd (' ' :: more) with
        | nil =>
            -- Nothing but whitespace: the space after the colon is trimmed away with the rest.
            have hblank : trim more = [] := by
              have hall : ∀ c ∈ more, isWhitespace c = true := by
                intro c hc
                rw [hend, List.nil_append] at heq
                exact hws c (heq ▸ List.mem_cons_of_mem _ hc)
              rw [trim_eq, List.dropWhile_eq_nil_iff.mpr hall]
              rfl
            simp only [Line.stops, Line.event, behindSpace, Option.any_some, Option.bind_some, hblank]
            rfl
        | cons c rest =>
            rw [hend, List.cons_append] at heq
            obtain ⟨rfl, hmore⟩ := List.cons.inj heq
            have htrim : trim rest = trim more := by
              rw [hmore, trim_append hws]
            rw [ofData_space, htrim]
            simp only [Line.stops, Line.event, behindSpace, Option.any_some, Option.bind_some, decide_eq_true_eq]
      · have hend : (trimEnd chars).head? ≠ some ' ' := by
          obtain ⟨ws, heq, -⟩ := trimEnd_eq chars
          intro hhead
          obtain ⟨rest, hrest⟩ := List.head?_eq_some_iff.mp hhead
          apply hspace
          rw [heq, hrest]
          rfl
        rw [ofData_of_ne hend]
        simp only [Line.stops, Line.event, behindSpace_eq_none hspace, Option.any_none, Option.bind_none,
          Bool.false_eq_true, if_false]

theorem linefeed_notMem_chars (line : Line) : '\n' ∉ line.chars := by
  have htext : ∀ text : LineText, '\n' ∉ text.chars := fun text h => (text.inLine _ h).1 rfl
  have hend : '\n' ∉ lineEnd line.crlf := by
    cases line.crlf <;> decide
  rw [Line.chars, List.mem_append, not_or]
  refine ⟨?_, hend⟩
  cases line.field with
  | blank => exact List.not_mem_nil
  | comment text => exact List.not_mem_cons_of_ne_of_not_mem (by decide) (htext text)
  | data rest => exact List.not_mem_append (by decide) (htext rest)

theorem completeLines_bodyText (body : List Line) : completeLines (bodyText body) = body.map Line.chars := by
  have hnewline : ∀ line ∈ body.map Line.chars, '\n' ∉ line := by
    intro line hline
    obtain ⟨l, -, rfl⟩ := List.mem_map.mp hline
    exact linefeed_notMem_chars l
  have hlines := completeLines_unlines hnewline []
  rw [List.append_nil] at hlines
  rw [bodyText, hlines]
  exact List.append_nil _

/-! ### The text that is assembled -/

theorem foldl_applyChoice_ended {asm : Assembly} (h : asm.toolCalls = none) (choices : List Choice) :
    choices.foldl (Assembly.applyChoice host) asm = asm := by
  induction choices with
  | nil => rfl
  | cons choice choices ih =>
      have hchoice : asm.applyChoice host choice = asm := by
        rw [Assembly.applyChoice, h]
      rw [List.foldl_cons, hchoice, ih]

/-- What goes on after an event has gone on before it. -/
theorem applyEvent_content {asm : Assembly} {event : StreamEvent}
    (h : (asm.applyEvent host event).toolCalls.isSome = true) :
    (asm.applyEvent host event).content = asm.content ++ eventText event := by
  have hchoices : ∀ (choices : List Choice) (asm : Assembly),
      (choices.foldl (Assembly.applyChoice host) asm).toolCalls.isSome = true →
        (choices.foldl (Assembly.applyChoice host) asm).content =
          asm.content ++ String.join (choices.map choiceText) := by
    intro choices
    induction choices with
    | nil => exact fun asm _ => String.append_empty.symm
    | cons choice choices ih =>
        intro asm hsome
        cases hcalls : asm.toolCalls with
        | none =>
            rw [foldl_applyChoice_ended hcalls, hcalls] at hsome
            cases hsome
        | some calls =>
            have hchoice : (asm.applyChoice host choice).content = asm.content ++ choiceText choice := by
              rw [Assembly.applyChoice, choiceText, hcalls]
              cases choice.finishReason <;> cases choice.delta.bind Delta.content <;>
                cases choice.delta.bind Delta.toolCalls <;>
                simp [Assembly.setFinishReason, Assembly.pushText, Assembly.pushToolCalls]
            rw [List.foldl_cons] at hsome ⊢
            rw [ih _ hsome, hchoice, List.map_cons, String.join_cons, String.append_assoc]
  rw [Assembly.applyEvent] at h ⊢
  rw [hchoices _ _ h, eventText]
  cases event.usage <;> rfl

/-- The process goes on after an event if it has gone on before it and the calls of the event can be held. -/
theorem isSome_applyEvent_iff {asm : Assembly} {event : StreamEvent} :
    (asm.applyEvent host event).toolCalls.isSome = true ↔ asm.toolCalls.isSome = true ∧
      ∀ delta ∈ ToolCalls.deltasOfEvent event, delta.index < host.maxCalls := by
  rw [ToolCalls.applyEvent_toolCalls]
  cases asm.toolCalls with
  | none => simp
  | some calls =>
      rw [Option.bind_some, ToolCalls.foldlM_accumulateToolCall]
      split_ifs with hall
      · exact iff_of_true rfl ⟨rfl, hall⟩
      · exact iff_of_false Bool.false_ne_true fun h => hall h.2

theorem isSome_handleLine_iff {asm : Assembly} {line : Line} (hstops : line.stops = false) :
    (handleLine host asm line.chars).toolCalls.isSome = true ↔ asm.toolCalls.isSome = true ∧ line.Held host := by
  rw [handleLine, sseLine_chars, hstops, Line.Held]
  cases line.event host with
  | none => exact ⟨fun h => ⟨h, fun event heq => absurd heq (Option.some_ne_none event).symm⟩, fun h => h.1⟩
  | some event =>
      refine isSome_applyEvent_iff.trans (and_congr_right fun _ => ⟨?_, fun h => h event rfl⟩)
      rintro h event' heq
      rw [← Option.some.inj heq]
      exact h

theorem handleLine_content {asm : Assembly} {line : Line} (hstops : line.stops = false)
    (h : (handleLine host asm line.chars).toolCalls.isSome = true) :
    (handleLine host asm line.chars).content = asm.content ++ line.taken host := by
  rw [handleLine, sseLine_chars, hstops] at h ⊢
  rw [Line.taken]
  cases hevent : line.event host with
  | none => exact String.append_empty.symm
  | some event =>
      rw [hevent] at h
      exact applyEvent_content h

theorem isDone_chars (line : Line) : isDone host line.chars = line.stops := by
  rw [isDone, sseLine_chars]
  cases line.stops with
  | true => rfl
  | false => cases line.event host <;> rfl

/-- The lines of a body are handled up to the one that stops. -/
theorem throughDone_fold (body : List Line) (asm : Assembly) :
    (throughDone host (body.map Line.chars)).foldl (handleLine host) asm =
      ((body.takeWhile fun line => !line.stops).map Line.chars).foldl (handleLine host) asm := by
  induction body generalizing asm with
  | nil => rfl
  | cons line body ih =>
      rw [List.map_cons, throughDone, isDone_chars]
      cases hstops : line.stops with
      | true =>
          rw [List.takeWhile_cons_of_neg (by rw [hstops]; decide), if_pos rfl, List.foldl_cons, handleLine,
            sseLine_chars, hstops]
          rfl
      | false =>
          rw [List.takeWhile_cons_of_pos (by rw [hstops]; rfl), if_neg Bool.false_ne_true, List.foldl_cons, ih,
            List.map_cons, List.foldl_cons]

theorem isSome_fold_iff {body : List Line} (hbody : ∀ line ∈ body, line.stops = false) (asm : Assembly) :
    ((body.map Line.chars).foldl (handleLine host) asm).toolCalls.isSome = true ↔
      asm.toolCalls.isSome = true ∧ ∀ line ∈ body, line.Held host := by
  induction body generalizing asm with
  | nil => simp
  | cons line body ih =>
      rw [List.forall_mem_cons] at hbody
      rw [List.map_cons, List.foldl_cons, ih hbody.2, isSome_handleLine_iff hbody.1, List.forall_mem_cons, and_assoc]

theorem fold_content {body : List Line} (hbody : ∀ line ∈ body, line.stops = false) {asm : Assembly}
    (h : ((body.map Line.chars).foldl (handleLine host) asm).toolCalls.isSome = true) :
    ((body.map Line.chars).foldl (handleLine host) asm).content =
      asm.content ++ String.join (body.map (Line.taken host)) := by
  induction body generalizing asm with
  | nil => exact String.append_empty.symm
  | cons line body ih =>
      rw [List.forall_mem_cons] at hbody
      rw [List.map_cons, List.foldl_cons] at h ⊢
      have hline := ((isSome_fold_iff hbody.2 _).mp h).1
      rw [ih hbody.2 h, handleLine_content hbody.1 hline, List.map_cons, String.join_cons, String.append_assoc]

theorem messageText_responseOf (asm : Assembly) (calls : List PartialToolCall) :
    messageText (asm.responseOf calls) = asm.content := by
  rw [messageText, Assembly.responseOf]
  by_cases hempty : asm.content = ""
  · rw [if_pos hempty, hempty]
    rfl
  · rw [if_neg hempty]
    rfl

/-- The text of the message is what was assembled, if the process has come to its end. -/
theorem streamedText_eq (body : List Line) :
    let asm := ((body.takeWhile fun line => !line.stops).map Line.chars).foldl (handleLine host) .empty
    streamedText host body = asm.toolCalls.map fun _ => asm.content := by
  intro asm
  have hwhole := @processChunks_whole host String (bodyText body)
  rw [completeLines_bodyText, throughDone_fold] at hwhole
  have hstreamed : streamedText host body =
      (@processChunks host String (.empty, []) [.ok (Utf8.encode (bodyText body))]).2.response.map messageText := by
    show ((Option.map _ (Assembly.response _)).bind Except.toOption).map messageText = _
    cases (@processChunks host String (.empty, []) [.ok (Utf8.encode (bodyText body))]).2.response <;> rfl
  rw [hstreamed, show (@processChunks host String (.empty, []) [.ok (Utf8.encode (bodyText body))]).2 = asm from hwhole,
    Assembly.response, Option.map_map]
  congr 1
  funext calls
  exact messageText_responseOf asm calls

/-- The text of the message is what is taken from the lines, if their calls can be held. -/
theorem streamedText_eq_some_iff {body : List Line} {text : String} :
    streamedText host body = some text ↔ Held host body ∧ taken host body = text := by
  have hlines : ∀ line ∈ body.takeWhile fun line => !line.stops, line.stops = false := by
    intro line hline
    simpa using List.mem_takeWhile_imp hline
  have hheld := @isSome_fold_iff host _ hlines .empty
  rw [streamedText_eq, Option.map_eq_some_iff]
  constructor
  · rintro ⟨calls, hcalls, rfl⟩
    have hsome := Option.isSome_iff_exists.mpr ⟨calls, hcalls⟩
    refine ⟨(hheld.mp hsome).2, ?_⟩
    rw [fold_content hlines hsome]
    exact String.empty_append.symm
  · rintro ⟨hbody, rfl⟩
    have hsome := hheld.mpr ⟨rfl, hbody⟩
    obtain ⟨calls, hcalls⟩ := Option.isSome_iff_exists.mp hsome
    refine ⟨calls, hcalls, ?_⟩
    rw [fold_content hlines hsome]
    exact String.empty_append

end

end Sse

end Overacp
