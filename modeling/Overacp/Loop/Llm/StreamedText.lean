import Overacp.Lib.Along
import Overacp.Lib.Json.Record
import Overacp.Lib.Pieces
import Overacp.Loop.Llm.Sse

/-!
# The text of a streamed response

The text that the data of a body calls for: what stands at `delta.content` in the choices of every payload before
`[DONE]` that is JSON. `process_stream` gets it right unless a line with text in it lacks the space after the colon or
is not decoded as an event, or the calls of an event cannot be held.
-/

namespace Overacp

open Llm

namespace Sse

/-! ### What a body calls for -/

/-- One space after the colon is not part of the data. -/
def payload (rest : List Char) : List Char := (behindSpace rest).getD rest

/-- The data is `[DONE]`. -/
def Line.ends (line : Line) : Bool :=
  match line.field with
  | .data rest => trim (payload rest.chars) = "[DONE]".toList
  | _ => false

/-- A text as JSON, which may be nested as deep as it is long; a string that is no text has no value. -/
def valueOf (chars : List Char) : Option Json := (Json.spelt chars).map Json.loosely

def contentAt (choice : Json) : String :=
  (((choice.get "delta").bind fun delta => delta.get "content").bind Json.asStr).getD ""

def choicesOf (value : Json) : List Json := ((value.get "choices").bind Json.asArray).getD []

/-- `choices[*].delta.content`. -/
def textAt (value : Json) : String := String.join ((choicesOf value).map contentAt)

def Line.demanded (line : Line) : String :=
  match line.field with
  | .data rest => ((valueOf (payload rest.chars)).map fun value => textAt value.collapse).getD ""
  | _ => ""

def demanded (body : List Line) : String :=
  String.join ((body.takeWhile fun line => !line.ends).map Line.demanded)

/-! ### The text of a payload -/

section

variable (host : Host)

/-- A choice as it is decoded of a payload. -/
def decodedOf (choice : Json) : Option Choice := Choice.ofText host (choice.prune Choice.shape)

/-- The text of a choice as it is decoded. -/
def decodedText (choice : Json) : String := ((decodedOf host choice).map choiceText).getD ""

/-- The delta of a choice is an object and stands under its name. -/
def named (choice : Json) : Bool :=
  match choice.collapse.get "delta" with
  | some (.object _) => true
  | _ => false

/-- Every text in the choices is written under the names that lead to it. -/
def ByName (value : Json) : Prop :=
  ∃ members, value = .object members ∧ ∀ choice ∈ choicesOf value, decodedText host choice ≠ "" → named choice = true

end

section

variable {host : Host}

theorem contentAt_of_not_named {choice : Json} (h : named choice = false) : contentAt choice.collapse = "" := by
  rw [contentAt]
  rw [named] at h
  cases hdelta : choice.collapse.get "delta" with
  | none => rfl
  | some delta =>
      rw [hdelta] at h
      cases delta with
      | object members => cases h
      | _ => rfl

/-- A delta that is an object has its text under the name of the text. -/
theorem content_of_delta {members : List (String × Json)} {delta : Delta}
    (h : Delta.ofText ((Json.object members).prune Delta.shape) = some delta) :
    ((Json.object members).collapse.get "content").bind Json.asStr = delta.content := by
  rw [Json.prune, Delta.ofText] at h
  split at h
  · rename_i role content calls hfields
    obtain _ | ⟨-, _ | ⟨hpruned, -⟩⟩ := Json.unique_of_fields hfields
    obtain ⟨written, hunique, rfl⟩ := Json.unique_of_prune rfl hpruned
    simp only [Option.bind_eq_bind, Option.bind_eq_some_iff, Option.some.injEq] at h
    obtain ⟨role', -, content', hcontent, calls', -, rfl⟩ := h
    rw [Json.get_collapse_of_unique hunique]
    apply Json.optional_asStr_collapse
    rw [← hcontent, Json.optional_asStr_prune]
  · cases h

theorem contentAt_of_named {value : Json} {choice : Choice} (h : decodedOf host value = some choice)
    (hnamed : named value = true) : contentAt value.collapse = choiceText choice := by
  rw [named] at hnamed
  split at hnamed
  · rename_i inner hdelta
    cases value with
    | object members =>
        rw [decodedOf, Json.prune, Choice.ofText] at h
        split at h
        · rename_i message delta reason hfields
          obtain _ | ⟨-, _ | ⟨hpruned, -⟩⟩ := Json.unique_of_fields hfields
          obtain ⟨written, hunique, rfl⟩ := Json.unique_of_prune rfl hpruned
          simp only [Option.bind_eq_bind, Option.bind_eq_some_iff, Option.some.injEq] at h
          obtain ⟨message', -, delta', hdecode, reason', -, rfl⟩ := h
          have hget := Json.get_collapse_of_unique hunique
          rw [hdelta] at hget
          cases written with
          | none => cases hget
          | some written =>
              cases written with
              | object written =>
                  obtain ⟨decoded, hdecoded, rfl⟩ := Option.map_eq_some_iff.mp hdecode
                  rw [contentAt, hdelta, Option.bind_some, Option.some.inj hget, content_of_delta hdecoded]
                  rfl
              | _ => cases hget
        · cases h
    | _ => cases hdelta
  · cases hnamed

/-- What stands under the names is the text of the choice, or nothing where a record is no object. -/
theorem contentAt_collapse {value : Json} {choice : Choice} (h : decodedOf host value = some choice) :
    contentAt value.collapse = if named value then decodedText host value else "" := by
  cases hnamed : named value with
  | true =>
      rw [contentAt_of_named h hnamed, decodedText, h]
      rfl
  | false =>
      rw [contentAt_of_not_named hnamed]
      rfl

/-- The choices of an object are those of the event that it is decoded to. -/
theorem choices_of_event {members : List (String × Json)} {event : StreamEvent}
    (h : StreamEvent.ofValue host ((Json.object members).prune StreamEvent.shape) = some event) :
    List.Forall₂ (fun value choice => decodedOf host value = some choice) (choicesOf (.object members))
        event.choices ∧
      choicesOf (Json.object members).collapse = (choicesOf (.object members)).map Json.collapse := by
  rw [Json.prune, StreamEvent.ofValue] at h
  split at h
  · rename_i choices usage hfields
    obtain _ | ⟨hpruned, -⟩ := Json.unique_of_fields hfields
    obtain ⟨written, hunique, rfl⟩ := Json.unique_of_prune rfl hpruned
    simp only [Option.bind_eq_bind, Option.bind_eq_some_iff, Option.some.injEq] at h
    obtain ⟨choices', hchoices, usage', -, rfl⟩ := h
    rw [choicesOf, choicesOf, Json.get_of_unique hunique, Json.get_collapse_of_unique hunique]
    cases written with
    | none =>
        obtain rfl := Option.some.inj hchoices
        exact ⟨.nil, rfl⟩
    | some value =>
        cases value with
        | array elems =>
            have hdecoded := Json.forall₂_of_mapM hchoices
            have helems : Json.pruneElems (Json.Shape.list Choice.shape).elems (Json.Shape.list Choice.shape).others
                elems = elems.map (Json.prune Choice.shape) := Json.pruneElems_nil _ _
            rw [helems, List.forall₂_map_left_iff] at hdecoded
            exact ⟨hdecoded, Json.collapseElems_eq elems⟩
        | _ => cases hchoices
  · cases h

section

variable {values : List Json} {choices : List Choice}
  (h : List.Forall₂ (fun value choice => decodedOf host value = some choice) values choices)

include h

theorem map_decodedText : values.map (decodedText host) = choices.map choiceText := by
  induction h with
  | nil => rfl
  | cons hchoice _ ih => rw [List.map_cons, List.map_cons, ih, decodedText, hchoice, Option.map_some, Option.getD_some]

theorem map_contentAt :
    (values.map Json.collapse).map contentAt =
      values.map fun value => if named value then decodedText host value else "" := by
  induction h with
  | nil => rfl
  | cons hchoice _ ih => rw [List.map_cons, List.map_cons, List.map_cons, ih, contentAt_collapse hchoice]

end

/-- The event has the text of the payload if and only if what text it has is written under its names. -/
theorem eventText_eq_iff {value : Json} {event : StreamEvent}
    (h : StreamEvent.ofValue host (value.prune StreamEvent.shape) = some event) :
    eventText event = textAt value.collapse ↔ (eventText event ≠ "" → ByName host value) := by
  cases value with
  | object members =>
      obtain ⟨hchoices, hcollapse⟩ := choices_of_event h
      rw [textAt, hcollapse, map_contentAt hchoices, eventText, ← map_decodedText hchoices, eq_comm,
        Pieces.join_kept_iff]
      constructor
      · exact fun hnamed _ => ⟨members, rfl, hnamed⟩
      · intro hnamed value hvalue hne
        have htext : String.join ((choicesOf (.object members)).map (decodedText host)) ≠ "" :=
          fun hempty => hne (Pieces.eq_empty_of_join hempty _ (List.mem_map_of_mem hvalue))
        obtain ⟨members', hobject, hall⟩ := hnamed htext
        exact hall value hvalue hne
  | _ =>
      show eventText event = "" ↔ _
      constructor
      · exact fun hempty hne => absurd hempty hne
      · intro hnamed
        by_contra hne
        obtain ⟨members, hobject, -⟩ := hnamed hne
        cases hobject

/-! ### One line -/

variable (host) in
/-- The payload of the line is JSON, and every text in it is written under the names that lead to it. -/
def Line.Named (line : Line) : Prop :=
  ∃ rest value, line.field = .data rest ∧ valueOf (payload rest.chars) = some value ∧ ByName host value

theorem behindSpace_eq_some {rest chars : List Char} (h : behindSpace rest = some chars) : payload rest = chars := by
  rw [payload, h, Option.getD_some]

theorem length_trim_le (chars : List Char) : (trim chars).length ≤ chars.length := by
  rw [trim, List.length_reverse]
  refine (List.dropWhile_sublist _).length_le.trans ?_
  rw [List.length_reverse]
  exact (List.dropWhile_sublist _).length_le

/-- An event is decoded of the payload without the whitespace around it, as far as its shape goes. -/
theorem ofValue_of_ofText {chars : List Char} {event : StreamEvent}
    (h : StreamEvent.ofText host (trim chars) = some event) {value : Json} (hvalue : valueOf chars = some value) :
    StreamEvent.ofValue host (value.prune StreamEvent.shape) = some event := by
  obtain ⟨v, hparse, hdecode⟩ := Option.bind_eq_some_iff.mp h
  obtain ⟨raw', hraw', rfl⟩ := Json.parseAs_eq_some hparse
  obtain ⟨raw, hraw, rfl⟩ := Option.map_eq_some_iff.mp hvalue
  have htrim := parseWithin_trim Json.closing_spelling hraw
  rw [Json.parseWithin_mono (length_trim_le chars) hraw'] at htrim
  rw [← Option.some.inj htrim]
  exact hdecode

theorem named_data {rest : LineText} {crlf : Bool} : (Line.mk (.data rest) crlf).Named host ↔
    ∃ value, valueOf (payload rest.chars) = some value ∧ ByName host value := by
  constructor
  · rintro ⟨rest', value, hfield, hvalue, hnamed⟩
    rw [← Field.data.inj hfield] at hvalue
    exact ⟨value, hvalue, hnamed⟩
  · rintro ⟨value, hvalue, hnamed⟩
    exact ⟨rest, value, rfl, hvalue, hnamed⟩

/-- What is decoded of a payload is the text of it as JSON if and only if the names lead there. -/
theorem eventText_eq_valueOf_iff {chars : List Char} {event : StreamEvent}
    (h : StreamEvent.ofText host (trim chars) = some event) :
    eventText event = ((valueOf chars).map fun value => textAt value.collapse).getD "" ↔
      (eventText event ≠ "" → ∃ value, valueOf chars = some value ∧ ByName host value) := by
  cases hvalue : valueOf chars with
  | none =>
      constructor
      · exact fun hempty hne => absurd hempty hne
      · intro hnamed
        by_contra hne
        obtain ⟨value, hsome, -⟩ := hnamed hne
        cases hsome
  | some value =>
      rw [Option.map_some, Option.getD_some, eventText_eq_iff (ofValue_of_ofText h hvalue)]
      refine imp_congr_right fun _ => ⟨fun hnamed => ⟨value, rfl, hnamed⟩, ?_⟩
      rintro ⟨value', hsome, hnamed⟩
      rw [Option.some.inj hsome]
      exact hnamed

/-- A line gives what is demanded of it if and only if a line with text in it is read, and what is read of it stands
under the names. -/
theorem taken_eq_iff (line : Line) : line.taken host = line.demanded ↔
    (line.demanded ≠ "" → (line.event host).isSome = true) ∧ (line.taken host ≠ "" → line.Named host) := by
  cases hevent : line.event host with
  | none =>
      have htaken : line.taken host = "" := by
        rw [Line.taken, hevent]
        rfl
      rw [htaken]
      constructor
      · exact fun hempty => ⟨fun hne => absurd hempty.symm hne, fun hne => absurd rfl hne⟩
      · rintro ⟨hkept, -⟩
        by_contra hne
        exact absurd (hkept (Ne.symm hne)) Bool.false_ne_true
  | some event =>
      have htaken : line.taken host = eventText event := by
        rw [Line.taken, hevent]
        rfl
      obtain ⟨field, crlf⟩ := line
      cases field with
      | blank => cases hevent
      | comment text => cases hevent
      | data rest =>
          obtain ⟨chars, hchars, hdecode⟩ := Option.bind_eq_some_iff.mp hevent
          have hpayload := behindSpace_eq_some hchars
          rw [htaken, named_data, hpayload, ← eventText_eq_valueOf_iff hdecode]
          simp only [Line.demanded, hpayload, Option.isSome_some, implies_true, true_and]

theorem stopReason_string {reason : String} {known : StopReason}
    (h : StopReason.ofText (.string reason) = some known) :
    reason ∈ ["stop", "tool_calls", "length", "content_filter"] := by
  rw [StopReason.ofText, Json.unitVariant] at h
  split at h
  case h_5 => cases h
  all_goals simp_all only [Option.some.injEq, List.mem_cons, true_or, or_true]

theorem role_string {role : String} {known : Role} (h : Role.ofText (.string role) = some known) :
    role ∈ ["system", "user", "assistant", "tool"] := by
  rw [Role.ofText, Json.unitVariant] at h
  split at h
  case h_5 => cases h
  all_goals simp_all only [Option.some.injEq, List.mem_cons, true_or, or_true]

/-- A choice is decoded only if its finish reason is one of four. -/
theorem finishReason_known {members : List (String × Json)} {choice : Choice} {reason : String}
    (h : Choice.ofText host (.object members) = some choice)
    (hreason : Json.unique members "finish_reason" = some (some (.string reason))) :
    reason ∈ ["stop", "tool_calls", "length", "content_filter"] := by
  rw [Choice.ofText] at h
  split at h
  · rename_i message delta written hfields
    obtain _ | ⟨-, _ | ⟨-, _ | ⟨hunique, -⟩⟩⟩ := Json.unique_of_fields hfields
    obtain rfl := Option.some.inj (hunique.symm.trans hreason)
    simp only [Option.bind_eq_bind, Option.bind_eq_some_iff] at h
    obtain ⟨-, -, -, -, known, hknown, -⟩ := h
    obtain ⟨decoded, hdecoded, -⟩ := Option.map_eq_some_iff.mp hknown
    exact stopReason_string hdecoded
  · cases h

/-- A delta is decoded only if its role is one of four. -/
theorem role_known {members : List (String × Json)} {delta : Delta} {role : String}
    (h : Delta.ofText (.object members) = some delta)
    (hrole : Json.unique members "role" = some (some (.string role))) :
    role ∈ ["system", "user", "assistant", "tool"] := by
  rw [Delta.ofText] at h
  split at h
  · rename_i written content calls hfields
    obtain _ | ⟨hunique, -⟩ := Json.unique_of_fields hfields
    obtain rfl := Option.some.inj (hunique.symm.trans hrole)
    simp only [Option.bind_eq_bind, Option.bind_eq_some_iff] at h
    obtain ⟨known, hknown, -⟩ := h
    obtain ⟨decoded, hdecoded, -⟩ := Option.map_eq_some_iff.mp hknown
    exact role_string hdecoded
  · cases h

theorem ends_of_stops {line : Line} (h : line.stops = true) : line.ends = true := by
  obtain ⟨field, crlf⟩ := line
  cases field with
  | blank => cases h
  | comment text => cases h
  | data rest =>
      simp only [Line.stops, Option.any_eq_true] at h
      obtain ⟨chars, hchars, hdone⟩ := h
      simp only [Line.ends, behindSpace_eq_some hchars]
      exact hdone

/-- What ends a stream is no JSON. -/
theorem parseWithin_done (readString : List Char → Option (String × List Char)) (limit : Nat) :
    Json.parseWithin readString limit "[DONE]".toList = none := by
  show Json.parseWithin readString limit ['[', 'D', 'O', 'N', 'E', ']'] = none
  rw [Json.parseWithin, Json.parseValue_cons (by decide)]
  cases limit with
  | zero => rfl
  | succ limit =>
      simp only [List.length_cons, Nat.add_sub_cancel]
      rfl

theorem event_of_stops {line : Line} (h : line.stops = true) : line.event host = none := by
  obtain ⟨field, crlf⟩ := line
  cases field with
  | blank => rfl
  | comment text => rfl
  | data rest =>
      simp only [Line.stops, Option.any_eq_true, decide_eq_true_eq] at h
      obtain ⟨chars, hchars, hdone⟩ := h
      simp only [Line.event, hchars, Option.bind_some, hdone, StreamEvent.ofText, Json.parseAs, Json.spelt,
        parseWithin_done, Option.bind_none]

theorem taken_of_stops {line : Line} (h : line.stops = true) : line.taken host = "" := by
  rw [Line.taken, event_of_stops h]
  rfl

theorem demanded_of_ends {line : Line} (h : line.ends = true) : line.demanded = "" := by
  obtain ⟨field, crlf⟩ := line
  cases field with
  | blank => rfl
  | comment text => rfl
  | data rest =>
      simp only [Line.ends, decide_eq_true_eq] at h
      have hvalue : valueOf (payload rest.chars) = none := by
        by_contra hsome
        obtain ⟨value, hvalue⟩ := Option.ne_none_iff_exists'.mp hsome
        obtain ⟨raw, hraw, -⟩ := Option.map_eq_some_iff.mp hvalue
        have htrim := parseWithin_trim Json.closing_spelling hraw
        rw [h, parseWithin_done] at htrim
        cases htrim
      simp only [Line.demanded, hvalue, Option.map_none, Option.getD_none]

/-! ### Every body -/

/-- What one more line adds to the texts before a line of a kind. -/
theorem join_takeWhile_concat {stop : Line → Bool} {text : Line → String}
    (hstop : ∀ line, stop line = true → text line = "") (body : List Line) (line : Line) :
    String.join (((body ++ [line]).takeWhile fun l => !stop l).map text) =
      String.join ((body.takeWhile fun l => !stop l).map text) ++ if body.any stop then "" else text line := by
  induction body with
  | nil =>
      rw [List.nil_append, List.takeWhile_nil, List.any_nil, if_neg Bool.false_ne_true]
      by_cases hline : stop line = true
      · rw [List.takeWhile_cons_of_neg (by simp [hline]), hstop line hline]
        rfl
      · rw [List.takeWhile_cons_of_pos (by simp [hline]), List.takeWhile_nil, List.map_singleton, List.map_nil,
          String.join_cons, String.join_nil, String.append_empty, String.empty_append]
  | cons first body ih =>
      rw [List.cons_append, List.any_cons]
      by_cases hfirst : stop first = true
      · rw [List.takeWhile_cons_of_neg (by simp [hfirst]), List.takeWhile_cons_of_neg (by simp [hfirst]), hfirst,
          Bool.true_or, if_pos rfl, String.append_empty]
      · rw [List.takeWhile_cons_of_pos (by simp [hfirst]), List.takeWhile_cons_of_pos (by simp [hfirst]),
          List.map_cons, List.map_cons, String.join_cons, String.join_cons, ih, Bool.of_not_eq_true hfirst,
          Bool.false_or, String.append_assoc]

theorem taken_concat (body : List Line) (line : Line) :
    taken host (body ++ [line]) = taken host body ++ if body.any Line.stops then "" else line.taken host :=
  join_takeWhile_concat (fun _ => taken_of_stops) body line

theorem demanded_concat (body : List Line) (line : Line) :
    demanded (body ++ [line]) = demanded body ++ if body.any Line.ends then "" else line.demanded :=
  join_takeWhile_concat (fun _ => demanded_of_ends) body line

section

variable (host : Host)

/-- The body is read as it is meant: the text of the message is the text that its data calls for. -/
def Faithful (body : List Line) : Prop := streamedText host body = some (demanded body)

/-- A line with text in it, if it comes before `[DONE]`, has the space after the colon and is decoded. -/
def Kept (body : List Line) : Prop :=
  Along (fun before line => before.any Line.ends = false → line.demanded ≠ "" → (line.event host).isSome = true) body

/-- Nothing is read that is not the text of the payloads before `[DONE]`. -/
structure Clean (body : List Line) : Prop where
  named : Along (fun before line => before.any Line.ends = false → line.taken host ≠ "" → line.Named host) body
  late : Along (fun before line => before.any Line.ends = true → before.any Line.stops = false →
    line.taken host = "") body

end

theorem faithful_iff {body : List Line} : Faithful host body ↔ Held host body ∧ taken host body = demanded body :=
  streamedText_eq_some_iff

theorem any_stops_eq_false {body : List Line} (h : body.any Line.ends = false) : body.any Line.stops = false := by
  rw [List.any_eq_false] at h ⊢
  exact fun line hline hstops => h line hline (ends_of_stops hstops)

theorem kept_concat (body : List Line) (line : Line) : Kept host (body ++ [line]) ↔
    Kept host body ∧ (body.any Line.ends = false → line.demanded ≠ "" → (line.event host).isSome = true) :=
  Along.concat_iff

theorem clean_concat (body : List Line) (line : Line) : Clean host (body ++ [line]) ↔
    Clean host body ∧ (body.any Line.ends = false → line.taken host ≠ "" → line.Named host) ∧
      (body.any Line.ends = true → body.any Line.stops = false → line.taken host = "") := by
  constructor
  · rintro ⟨hnamed, hlate⟩
    obtain ⟨hnamed, hline⟩ := Along.concat_iff.mp hnamed
    obtain ⟨hlate, hline'⟩ := Along.concat_iff.mp hlate
    exact ⟨⟨hnamed, hlate⟩, hline, hline'⟩
  · rintro ⟨⟨hnamed, hlate⟩, hline, hline'⟩
    exact ⟨Along.concat_iff.mpr ⟨hnamed, hline⟩, Along.concat_iff.mpr ⟨hlate, hline'⟩⟩

/-- The next line of a body that was read as it is meant. -/
theorem line_iff (body : List Line) (line : Line) :
    (if body.any Line.stops then "" else line.taken host) = (if body.any Line.ends then "" else line.demanded) ↔
      (body.any Line.ends = false → line.demanded ≠ "" → (line.event host).isSome = true) ∧
      (body.any Line.ends = false → line.taken host ≠ "" → line.Named host) ∧
      (body.any Line.ends = true → body.any Line.stops = false → line.taken host = "") := by
  cases hends : body.any Line.ends with
  | false =>
      rw [any_stops_eq_false hends, if_neg Bool.false_ne_true, if_neg Bool.false_ne_true, taken_eq_iff]
      simp only [forall_const, Bool.false_eq_true, false_implies, and_true]
  | true =>
      cases hstops : body.any Line.stops with
      | false => simp
      | true => simp

/-- Line by line, what is taken is what is demanded if and only if every line with text in it is decoded and nothing
else is. -/
theorem beginnings_taken_iff (body : List Line) :
    (∀ beginning, beginning <+: body → taken host beginning = demanded beginning) ↔
      Kept host body ∧ Clean host body := by
  induction body using List.reverseRecOn with
  | nil =>
      refine ⟨fun _ => ⟨Along.nil, Along.nil, Along.nil⟩, fun _ beginning hbeginning => ?_⟩
      rw [List.prefix_nil.mp hbeginning]
      rfl
  | append_singleton body line ih =>
      rw [kept_concat, clean_concat]
      have hline := @line_iff host body line
      constructor
      · intro h
        obtain ⟨hkept, hclean⟩ := ih.mp fun beginning hb => h beginning (hb.trans (List.prefix_append _ _))
        have hbefore := h body (List.prefix_append _ _)
        have hwhole := h _ (List.prefix_refl _)
        rw [taken_concat, demanded_concat, hbefore, String.append_right_inj] at hwhole
        obtain ⟨hline₁, hline₂, hline₃⟩ := hline.mp hwhole
        exact ⟨⟨hkept, hline₁⟩, hclean, hline₂, hline₃⟩
      · rintro ⟨⟨hkept, hline₁⟩, hclean, hline₂, hline₃⟩ beginning hbeginning
        have hbody := ih.mpr ⟨hkept, hclean⟩
        rcases List.prefix_concat_iff.mp hbeginning with rfl | hbeginning
        · rw [taken_concat, demanded_concat, hbody body (List.prefix_refl _), hline.mpr ⟨hline₁, hline₂, hline₃⟩]
        · exact hbody beginning hbeginning

/-- The calls of a beginning can be held if those of the whole can. -/
theorem Held.beginning {beginning body : List Line} (h : Held host body) (hbeginning : beginning <+: body) :
    Held host beginning := by
  obtain ⟨more, rfl⟩ := hbeginning
  intro line hline
  apply h line
  rw [List.takeWhile_append]
  split
  · rename_i hall
    rw [← List.takeWhile_prefix (fun line : Line => !line.stops) |>.eq_of_length hall]
    exact List.mem_append_left _ hline
  · exact hline

theorem beginnings_faithful_iff (body : List Line) :
    (∀ beginning, beginning <+: body → Faithful host beginning) ↔
      Kept host body ∧ Clean host body ∧ Held host body := by
  rw [← and_assoc, ← beginnings_taken_iff]
  constructor
  · intro h
    exact ⟨fun beginning hb => (faithful_iff.mp (h beginning hb)).2, (faithful_iff.mp (h body (List.prefix_refl _))).1⟩
  · rintro ⟨htaken, hheld⟩ beginning hb
    exact faithful_iff.mpr ⟨hheld.beginning hb, htaken beginning hb⟩

/-- Where nothing is read that is not demanded, nothing else makes up for a line that is lost. -/
theorem taken_length_le {body : List Line} (hclean : Clean host body) :
    (taken host body).length ≤ (demanded body).length ∧ (taken host body = demanded body → Kept host body) := by
  induction body using List.reverseRecOn with
  | nil => exact ⟨Nat.le_refl _, fun _ => Along.nil⟩
  | append_singleton body line ih =>
      obtain ⟨hbefore, hnamed, hlate⟩ := (clean_concat body line).mp hclean
      obtain ⟨hle, hkept⟩ := ih hbefore
      have hline : (if body.any Line.stops then "" else line.taken host) = "" ∨
          (if body.any Line.stops then "" else line.taken host) =
            if body.any Line.ends then "" else line.demanded := by
        by_cases hsome : (line.event host).isSome = true
        · exact .inr ((line_iff body line).mpr ⟨fun _ _ => hsome, hnamed, hlate⟩)
        · have hempty : line.taken host = "" := by
            rw [Line.taken, Option.not_isSome_iff_eq_none.mp hsome]
            rfl
          rw [hempty]
          exact .inl (ite_self "")
      rw [taken_concat, demanded_concat, String.length_append, String.length_append, kept_concat]
      have hlength : (if body.any Line.stops then "" else line.taken host).length ≤
          (if body.any Line.ends then "" else line.demanded).length := by
        rcases hline with hempty | heq
        · rw [hempty]
          exact Nat.zero_le _
        · rw [heq]
      refine ⟨Nat.add_le_add hle hlength, fun h => ?_⟩
      have hlengths := congrArg String.length h
      rw [String.length_append, String.length_append] at hlengths
      have hlists := congrArg String.toList h
      rw [String.toList_append, String.toList_append] at hlists
      obtain ⟨hfirst, hsecond⟩ := List.append_inj hlists (by rw [String.length_toList, String.length_toList]; omega)
      exact ⟨hkept (String.toList_inj.mp hfirst),
        ((line_iff body line).mp (String.toList_inj.mp hsecond)).1⟩

/-- A body and all its beginnings are read as they are meant if and only if every line with text in it is decoded,
nothing else is, and the calls can be held; and where nothing else is, the body alone will do. -/
theorem faithful_spec (host : Host) (body : List Line) :
    ((∀ beginning, beginning <+: body → Faithful host beginning) ↔
        Kept host body ∧ Clean host body ∧ Held host body) ∧
      (Faithful host body ∧ Clean host body ↔ Kept host body ∧ Clean host body ∧ Held host body) := by
  refine ⟨beginnings_faithful_iff body, ?_, ?_⟩
  · rintro ⟨hfaithful, hclean⟩
    obtain ⟨hheld, htaken⟩ := faithful_iff.mp hfaithful
    exact ⟨(taken_length_le hclean).2 htaken, hclean, hheld⟩
  · intro h
    exact ⟨(beginnings_faithful_iff body).mpr h body (List.prefix_refl _), h.2.1⟩

end

/-- A line of data. -/
private def dataLine (rest : List Char) (h : rest.all (fun c => !(c = '\n' || c = '\r')) = true) : Line where
  field := .data ⟨rest, fun c hc => by
    simpa only [Bool.not_eq_true', Bool.or_eq_false_iff, decide_eq_false_iff_not] using List.all_eq_true.mp h c hc⟩
  crlf := false

/-- A greeting in one event with a member that nothing reads and that is no text, and the end of the stream. -/
def greeting : List Line :=
  [dataLine (" \x7b\"choices\":[\x7b\"delta\":\x7b\"content\":\"hello\"\x7d\x7d],".toList ++
      "\"note\":\"\\ud800\"\x7d".toList) (by decide +kernel),
    ⟨.blank, true⟩, dataLine " [DONE]".toList (by decide +kernel)]

theorem greeting_faithful : Kept exactHost greeting ∧ Clean exactHost greeting ∧ Held exactHost greeting ∧
    streamedText exactHost greeting = some "hello" := by
  have hbeginnings : ∀ beginning, beginning <+: greeting → Faithful exactHost beginning := by
    intro beginning hbeginning
    obtain ⟨n, hn, rfl⟩ : ∃ n ≤ greeting.length, beginning = greeting.take n :=
      ⟨beginning.length, hbeginning.length_le, List.prefix_iff_eq_take.mp hbeginning⟩
    have htakes : ∀ n ≤ greeting.length,
        streamedText exactHost (greeting.take n) = some (demanded (greeting.take n)) := by
      decide +kernel
    exact htakes n hn
  obtain ⟨hkept, hclean, hheld⟩ := (faithful_spec exactHost greeting).1.mp hbeginnings
  have hdemanded : demanded greeting = "hello" := by decide +kernel
  rw [← hdemanded]
  exact ⟨hkept, hclean, hheld, hbeginnings greeting (List.prefix_refl _)⟩

/-- A payload with a text, and nothing before it on the line but the colon. -/
def unspaced : List Line :=
  [dataLine "\x7b\"choices\":[\x7b\"delta\":\x7b\"content\":\"hi\"\x7d\x7d]\x7d".toList (by decide +kernel)]

/-- The same payload behind a space, with a finish reason that is not among the four. -/
def functionCall : List Line :=
  [dataLine (" \x7b\"choices\":[\x7b\"delta\":\x7b\"content\":\"hi\"\x7d,".toList ++
    "\"finish_reason\":\"function_call\"\x7d]\x7d".toList) (by decide +kernel)]

/-- The same payload with a cost that is out of range. -/
def beyondRange : List Line :=
  [dataLine (" \x7b\"choices\":[\x7b\"delta\":\x7b\"content\":\"hi\"\x7d\x7d],".toList ++
    "\"usage\":\x7b\"cost\":1e999\x7d\x7d".toList) (by decide +kernel)]

theorem text_is_lost : (demanded unspaced = "hi" ∧ streamedText exactHost unspaced = some "") ∧
    (demanded functionCall = "hi" ∧ streamedText exactHost functionCall = some "") ∧
    (demanded beyondRange = "hi" ∧ streamedText exactHost beyondRange = some "") ∧
    ¬∀ body, Faithful exactHost body := by
  have hunspaced : demanded unspaced = "hi" ∧ streamedText exactHost unspaced = some "" := by decide +kernel
  refine ⟨hunspaced, by decide +kernel, by decide +kernel, fun h => ?_⟩
  have hfaithful := h unspaced
  rw [Faithful, hunspaced.1, hunspaced.2] at hfaithful
  exact absurd hfaithful (by decide)

end Sse

end Overacp
