import Overacp.Lib.Json.Extent
import Overacp.Lib.Pieces
import Overacp.Loop.Llm.Stream
import Overacp.Loop.Pushes

/-!
# The bridge between the tunnel and the child

Text frames are written to the child's standard input, and lines of its standard output are sent as text
frames. Neither direction parses anything. What the child writes comes out as one frame a line, with the same
value; a frame comes in as one line exactly when it has no line feed before its last character, and a text that
is spread over several lines is taken apart.
-/

namespace Overacp

namespace Bridge

/-! ### The ends -/

inductive WsMessage where
  | text (text : String)
  | binary (data : List UInt8)
  | ping (data : List UInt8)
  | pong (data : List UInt8)
  | close
  deriving DecidableEq, Repr

inductive BridgeExit where
  | tunnelClosed
  | processExited
  | error (message : String)
  deriving DecidableEq, Repr

structure AsyncWrite (W : Type) where
  writeAll : W → List UInt8 → Except String Unit × W
  flush : W → Except String Unit × W

structure Sink (S : Type) where
  send : S → WsMessage → Except String Unit × S

/-- What is written is there to be read. -/
def pipe : AsyncWrite (List UInt8) where
  writeAll written bytes := (.ok (), written ++ bytes)
  flush written := (.ok (), written)

def frames : Sink (List WsMessage) where
  send sent message := (.ok (), sent ++ [message])

def readUntil (delimiter : UInt8) : List UInt8 → List UInt8 × List UInt8
  | [] => ([], [])
  | b :: bs =>
      if b = delimiter then ([b], bs) else (b :: (readUntil delimiter bs).1, (readUntil delimiter bs).2)

/-- A line with its line feed, or nothing at the end of the input. -/
def readLine (reader : List UInt8) : Except String (List Char) × List UInt8 :=
  match readUntil 0x0A reader with
  | (bytes, rest) =>
      match Utf8.decode bytes with
      | some line => (.ok line, rest)
      | none => (.error "stream did not contain valid UTF-8", rest)

def trimEnd (cs : List Char) : List Char := (cs.reverse.dropWhile isWhitespace).reverse

/-! ### The pumps -/

section

variable {W S : Type}

def writeFrame (io : AsyncWrite W) (writer : W) (frame : List Char) : Except String Unit × W :=
  match io.writeAll writer (Utf8.encode frame) with
  | (.error e, writer) => (.error e, writer)
  | (.ok (), writer) =>
      if frame.getLast? = some '\n' then io.flush writer
      else match io.writeAll writer (Utf8.encode ['\n']) with
        | (.error e, writer) => (.error e, writer)
        | (.ok (), writer) => io.flush writer

def wsToStdin (io : AsyncWrite W) : List (Except String WsMessage) → W → BridgeExit × W
  | [], stdin => (.tunnelClosed, stdin)
  | .ok (.text text) :: wsRead, stdin =>
      match writeFrame io stdin text.toList with
      | (.error e, stdin) => (.error ("write to stdin: " ++ e), stdin)
      | (.ok (), stdin) => wsToStdin io wsRead stdin
  | .ok .close :: _, stdin => (.tunnelClosed, stdin)
  | .ok _ :: wsRead, stdin => wsToStdin io wsRead stdin
  | .error e :: _, stdin => (.error ("ws read: " ++ e), stdin)

/-- The loop of `stdout_to_ws`, for fewer than `fuel` lines. -/
def stdoutToWs (io : Sink S) : Nat → List UInt8 → S → BridgeExit × S
  | 0, _, sink => (.error "out of fuel", sink)
  | fuel + 1, stdout, sink =>
      match readLine stdout with
      | (.ok [], _) => (.processExited, sink)
      | (.ok line, stdout) =>
          match io.send sink (.text (String.ofList (trimEnd line))) with
          | (.ok (), sink) => stdoutToWs io fuel stdout sink
          | (.error e, sink) => (.error ("ws write: " ++ e), sink)
      | (.error e, _) => (.error ("stdout read: " ++ e), sink)

end

/-! ### Lines -/

theorem linesOf_ne_nil {cs : List Char} (h : cs ≠ []) : linesOf cs ≠ [] := by
  rw [linesOf_eq_readLine h]
  exact List.cons_ne_nil _ _

/-- A text that ends in a line feed is read to its end before what comes behind it. -/
theorem linesOf_append (body rest : List Char) :
    linesOf (body ++ '\n' :: rest) = linesOf (body ++ ['\n']) ++ linesOf rest := by
  induction body with
  | nil => rfl
  | cons c body ih =>
      rw [List.cons_append, List.cons_append, linesOf, linesOf, ih]
      split_ifs
      · rfl
      · cases hbody : linesOf (body ++ ['\n']) with
        | nil => exact absurd hbody (linesOf_ne_nil (by simp))
        | cons line more => rfl

theorem length_linesOf_eq_one_iff (body : List Char) : (linesOf (body ++ ['\n'])).length = 1 ↔ '\n' ∉ body := by
  constructor
  · intro hone hmem
    obtain ⟨line, more, rfl, hline⟩ := List.eq_append_cons_of_mem hmem
    rw [List.append_assoc, List.cons_append, linesOf_append_newline hline, List.length_cons] at hone
    have hmore : linesOf (more ++ ['\n']) ≠ [] := linesOf_ne_nil (by simp)
    have hpos := List.length_pos_iff.mpr hmore
    omega
  · intro hbody
    rw [linesOf_append_newline hbody]
    rfl

theorem readUntil_append {delimiter : UInt8} {bytes : List UInt8} (h : delimiter ∉ bytes) (rest : List UInt8) :
    readUntil delimiter (bytes ++ rest) =
      (bytes ++ (readUntil delimiter rest).1, (readUntil delimiter rest).2) := by
  induction bytes with
  | nil => rfl
  | cons b bytes ih =>
      rw [List.mem_cons, not_or] at h
      rw [List.cons_append, readUntil, if_neg (Ne.symm h.1), ih h.2, List.cons_append]

/-- No other character has the byte of a line feed. -/
theorem linefeed_notMem_encodeChar {c : Char} (hc : c ≠ '\n') : 0x0A ∉ Utf8.encodeChar c := by
  intro hmem
  have hnat := Utf8.toNat_of_mem_encodeChar hmem (by decide)
  exact hc (Char.toNat_inj.mp hnat)

theorem readUntil_encode (text : List Char) :
    readUntil 0x0A (Utf8.encode text) =
      (Utf8.encode (Overacp.readLine text).1, Utf8.encode (Overacp.readLine text).2) := by
  induction text with
  | nil => rfl
  | cons c text ih =>
      have hcons : Utf8.encode (c :: text) = Utf8.encodeChar c ++ Utf8.encode text := rfl
      rw [hcons, Overacp.readLine]
      split_ifs with hc
      · rw [hc]
        rfl
      · rw [readUntil_append (linefeed_notMem_encodeChar hc), ih]
        rfl

/-- A line is read from the bytes as the client reads it from the text. -/
theorem readLine_encode (text : List Char) :
    readLine (Utf8.encode text) = (.ok (Overacp.readLine text).1, Utf8.encode (Overacp.readLine text).2) := by
  simp only [readLine, readUntil_encode, Utf8.decode_encode]

/-! ### Frames of the server -/

/-- The texts that arrive before the tunnel closes or fails. -/
def delivered : List (Except String WsMessage) → List String
  | [] => []
  | .ok (.text text) :: wsRead => text :: delivered wsRead
  | .ok .close :: _ => []
  | .ok _ :: wsRead => delivered wsRead
  | .error _ :: _ => []

/-- What a frame is written without its final line feed. -/
def body (frame : List Char) : List Char := if frame.getLast? = some '\n' then frame.dropLast else frame

theorem body_eq {frame : List Char} (h : frame.getLast? = some '\n') : frame = body frame ++ ['\n'] := by
  obtain ⟨before, rfl⟩ := List.getLast?_eq_some_iff.mp h
  rw [body, if_pos h, List.dropLast_concat]

theorem linefeed_mem_body_iff (frame : List Char) : '\n' ∈ body frame ↔ '\n' ∈ frame.dropLast := by
  rw [body]
  split_ifs with h
  · rfl
  · rcases List.eq_nil_or_concat' frame with rfl | ⟨before, c, rfl⟩
    · rfl
    · rw [List.getLast?_concat, Option.some_inj] at h
      rw [List.dropLast_concat, List.mem_append, List.mem_singleton, or_iff_left (Ne.symm h)]

theorem writeFrame_pipe (written : List UInt8) (frame : List Char) :
    writeFrame pipe written frame = (.ok (), written ++ Utf8.encode (body frame ++ ['\n'])) := by
  simp only [writeFrame, pipe]
  split_ifs with h
  · rw [← body_eq h]
  · rw [body, if_neg h, Utf8.encode_append, List.append_assoc]

theorem wsToStdin_pipe (wsRead : List (Except String WsMessage)) (written : List UInt8) :
    (wsToStdin pipe wsRead written).2 =
      written ++ Utf8.encode ((delivered wsRead).flatMap fun text => body text.toList ++ ['\n']) := by
  induction wsRead generalizing written with
  | nil => exact (List.append_nil written).symm
  | cons message wsRead ih =>
      cases message with
      | error e => exact (List.append_nil written).symm
      | ok message =>
          cases message with
          | text text =>
              rw [wsToStdin, writeFrame_pipe, delivered, List.flatMap_cons,
                Utf8.encode_append (body text.toList ++ ['\n'])]
              dsimp only
              rw [ih, List.append_assoc]
          | binary data => exact ih written
          | ping data => exact ih written
          | pong data => exact ih written
          | close => exact (List.append_nil written).symm

theorem linesOf_flatMap (texts : List String) :
    linesOf (texts.flatMap fun text => body text.toList ++ ['\n']) =
      texts.flatMap fun text => linesOf (body text.toList ++ ['\n']) := by
  induction texts with
  | nil => rfl
  | cons text texts ih =>
      rw [List.flatMap_cons, List.flatMap_cons, ← ih, ← linesOf_append, List.append_assoc, List.singleton_append]

/-- One line for each frame comes in only if no frame is spread over several. -/
theorem linefeed_notMem_of_length {texts : List String}
    (h : (texts.flatMap fun text => linesOf (body text.toList ++ ['\n'])).length = texts.length) :
    ∀ text ∈ texts, '\n' ∉ text.toList.dropLast := by
  intro text htext
  have hone := Pieces.length_eq_one_of_flatMap (fun text _ => linesOf_ne_nil (by simp)) h text htext
  rw [← linefeed_mem_body_iff]
  exact (length_linesOf_eq_one_iff _).mp hone

/-! ### Values -/

/-- The whitespace at the end of a line is not part of its value. -/
theorem parseWithin_trimEnd {limit : Nat} {line : List Char} {v : Json}
    (h : Json.parseWithin Json.parseString limit line = some v) :
    Json.parseWithin Json.parseString limit (trimEnd line) = some v := by
  obtain ⟨used, c, ws, rfl, hfinal, hws, hread⟩ := Json.parseWithin_extent Json.closing_parseString h
  have hdrop : trimEnd (used ++ c :: ws) = used ++ [c] := by
    rw [trimEnd, List.reverse_append, List.reverse_cons, List.append_assoc,
      List.dropWhile_append_of_pos fun x hx => isWhitespace_of_isWs (hws x (List.mem_reverse.mp hx)),
      List.singleton_append, List.dropWhile_cons_of_neg (by rw [isWhitespace_of_isFinal hfinal]; decide),
      List.reverse_cons, List.reverse_reverse]
  rw [hdrop]
  exact hread [] nofun

/-- A frame without its final line feed, and with it again, has the value of the frame. -/
theorem parseWithin_body {limit : Nat} {frame : List Char} {v : Json}
    (h : Json.parseWithin Json.parseString limit frame = some v) :
    Json.parseWithin Json.parseString limit (body frame ++ ['\n']) = some v := by
  by_cases hlast : frame.getLast? = some '\n'
  · rw [← body_eq hlast]
    exact h
  · rw [body, if_neg hlast]
    refine Json.parseWithin_append Json.closing_parseString h fun c hc => ?_
    rw [List.mem_singleton.mp hc]
    rfl

/-! ### Frames of the child -/

theorem stdoutToWs_frames {fuel : Nat} {out : List Char} (hfuel : out.length < fuel) (sent : List WsMessage) :
    stdoutToWs frames fuel (Utf8.encode out) sent =
      (.processExited, sent ++ (linesOf out).map fun line => .text (String.ofList (trimEnd line))) := by
  induction fuel generalizing out sent with
  | zero => omega
  | succ fuel ih =>
      rw [stdoutToWs, readLine_encode]
      cases out with
      | nil => exact Prod.ext rfl (List.append_nil sent).symm
      | cons c out =>
          obtain ⟨d, line, hline⟩ : ∃ d line, (Overacp.readLine (c :: out)).1 = d :: line := by
            rw [Overacp.readLine]
            split_ifs <;> exact ⟨_, _, rfl⟩
          have hlength := AcpClient.length_readLine (c :: out)
          have hshorter : (Overacp.readLine (c :: out)).2.length < fuel := by
            rw [hline, List.length_cons, List.length_cons] at hlength
            rw [List.length_cons] at hfuel
            omega
          rw [linesOf_eq_readLine (List.cons_ne_nil c out), hline]
          refine (ih hshorter _).trans ?_
          rw [List.append_assoc]
          rfl

/-! ### One line a frame -/

/-- A frame the server sends is read as one line with its value exactly if no frame has a line feed before its
last character; a line the child writes is always sent as one frame with its value. -/
theorem lines_and_frames (limit : Nat) :
    (∀ wsRead : List (Except String WsMessage),
      (∀ text ∈ delivered wsRead, ∃ v, Json.parseWithin Json.parseString limit text.toList = some v) →
        ∃ reader, (wsToStdin pipe wsRead []).2 = Utf8.encode reader ∧
          (List.Forall₂ (fun text line =>
                Json.parseWithin Json.parseString limit line = Json.parseWithin Json.parseString limit text.toList)
              (delivered wsRead) (linesOf reader) ↔
            ∀ text ∈ delivered wsRead, '\n' ∉ text.toList.dropLast)) ∧
      ∀ out : List Char, (∀ line ∈ linesOf out, ∃ v, Json.parseWithin Json.parseString limit line = some v) →
        ∃ sent : List String, stdoutToWs frames (out.length + 1) (Utf8.encode out) [] =
            (.processExited, sent.map .text) ∧
          List.Forall₂ (fun line text =>
              Json.parseWithin Json.parseString limit text.toList = Json.parseWithin Json.parseString limit line)
            (linesOf out) sent := by
  constructor
  · intro wsRead hvalues
    refine ⟨_, by rw [wsToStdin_pipe, List.nil_append], ?_⟩
    rw [linesOf_flatMap]
    constructor
    · intro hlines
      exact linefeed_notMem_of_length hlines.length_eq.symm
    · intro hone
      have hlines : ∀ text ∈ delivered wsRead,
          linesOf (body text.toList ++ ['\n']) = [body text.toList ++ ['\n']] := by
        intro text htext
        have hbody : '\n' ∉ body text.toList := (linefeed_mem_body_iff _).not.mpr (hone text htext)
        rw [linesOf_append_newline hbody]
        rfl
      rw [List.flatMap_congr hlines, ← List.map_eq_flatMap, List.forall₂_map_right_iff, List.forall₂_same]
      intro text htext
      obtain ⟨v, hv⟩ := hvalues text htext
      rw [parseWithin_body hv, hv]
  · intro out hvalues
    refine ⟨(linesOf out).map fun line => String.ofList (trimEnd line), ?_, ?_⟩
    · rw [stdoutToWs_frames (Nat.lt_succ_self _), List.nil_append, List.map_map]
      rfl
    · rw [List.forall₂_map_right_iff, List.forall₂_same]
      intro line hline
      obtain ⟨v, hv⟩ := hvalues line hline
      rw [String.toList_ofList, parseWithin_trimEnd hv, hv]

/-- A cancellation on two lines is two lines to the child, and neither is a value. -/
theorem splitFrame_two_lines :
    let frame := "\x7b\"jsonrpc\":\"2.0\",\n\"method\":\"session/cancel\"\x7d"
    (Json.parse frame.toList).isSome = true ∧
      ∃ reader, (wsToStdin pipe [.ok (.text frame)] []).2 = Utf8.encode reader ∧
        (linesOf reader).map (fun line => (Json.parse line).isSome) = [false, false] := by
  refine ⟨by decide +kernel, "\x7b\"jsonrpc\":\"2.0\",\n\"method\":\"session/cancel\"\x7d\n".toList, ?_, ?_⟩
  · decide +kernel
  · decide +kernel

end Bridge

end Overacp
