import Overacp.Lib.Json.Read
import Overacp.Loop.Session
import Overacp.Loop.SessionMessage

/-!
# Requests of the loop

The client writes a request and reads lines until one comes that is no notification. That line is its
answer, whatever id it carries: the id of a response is decoded and never looked at. So a request that
fails with its response unread leaves it to the next one, and the exact condition for a request to return
its own result is on the lines that are unread when it is sent.
-/

namespace Overacp

open Llm

/-! ### Responses -/

structure JsonRpcError where
  code : Int
  message : String
  deriving DecidableEq, Repr

structure JsonRpcResponse where
  id : Option Nat
  result : Option Json
  error : Option JsonRpcError
  deriving Repr

namespace JsonRpcError

def ofValue (value : Json) : Option JsonRpcError :=
  match Json.fields [⟨"code", false⟩, ⟨"message", false⟩] value with
  | some [some code, some (.string message)] => (Json.signed 64 code).map fun code => ⟨code, message⟩
  | _ => none

end JsonRpcError

namespace JsonRpcResponse

/-- A `result` of `null` is no result. -/
def ofValue (value : Json) : Option JsonRpcResponse :=
  match Json.fields [⟨"id", false⟩, ⟨"result", false⟩, ⟨"error", false⟩] value with
  | some [id, result, error] => do
      some ⟨← Json.optional (Json.unsigned 64) id, ← Json.optional some result,
        ← Json.optional JsonRpcError.ofValue error⟩
  | _ => none

end JsonRpcResponse

def InitializeResult.ofValue (value : Json) : Option InitializeResult :=
  match Json.fields [⟨"system_prompt", true⟩, ⟨"messages", true⟩, ⟨"tools_config", true⟩] value with
  | some [systemPrompt, messages, toolsConfig] => do
      some ⟨← Json.withDefault "" Json.asStr systemPrompt,
        ← Json.withDefault [] (Json.listOf Message.ofText) messages,
        ← Json.withDefault .null some toolsConfig⟩
  | _ => none

/-! ### Waiting for a response -/

namespace AcpClient

variable (readNumber : Json.Number → Option Json.Number)

/-- A frame with a method and without an id. -/
def isNotification (peek : Json) : Bool := (peek.get "method").isSome && (peek.get "id").isNone

def resultOf (peek : Json) : Except String Json :=
  match JsonRpcResponse.ofValue peek with
  | none => .error "parse ACP response"
  | some resp =>
      match resp.error with
      | some err => .error ("ACP error: " ++ err.message)
      | none =>
          match resp.result with
          | some result => .ok result
          | none => .error "ACP response missing result"

/-- The reading loop of `send_request`, for at most `fuel` lines. -/
def awaitResponse : Nat → AcpClient → Except String Json × AcpClient
  | 0, client => (.error "out of fuel", client)
  | fuel + 1, client =>
      match readLine client.reader with
      | (buf, rest) =>
          match Json.read readNumber buf with
          | none => (.error "parse ACP frame", { client with reader := rest })
          | some peek =>
              if isNotification peek then
                awaitResponse fuel ⟨rest, client.pendingNotifications ++ [buf]⟩
              else (resultOf peek, { client with reader := rest })

end AcpClient

/-! ### Calls -/

inductive Request where
  | initializeAgent
  | quotaCheck
  | quotaUpdate (inputTokens outputTokens : Nat)
  | toolsList
  | toolsCall (name : String) (arguments : Json)
  deriving Repr

/-- What a request returns. -/
inductive Reply where
  | initialized (init : InitializeResult)
  | allowed (allowed : Bool)
  | updated
  | value (value : Json)

namespace Request

def method : Request → String
  | initializeAgent => Protocol.Methods.initializeAgent
  | quotaCheck => Protocol.Methods.quotaCheck
  | quotaUpdate _ _ => Protocol.Methods.quotaUpdate
  | toolsList => Protocol.Methods.toolsList
  | toolsCall _ _ => Protocol.Methods.toolsCall

/-- What the request makes of the result; a quota check without a verdict is a yes. -/
def finish (request : Request) (result : Json) : Except String Reply :=
  match request with
  | initializeAgent =>
      match InitializeResult.ofValue result with
      | some init => .ok (.initialized init)
      | none => .error "parse initialize result"
  | quotaCheck => .ok (.allowed (((result.get "allowed").bind Json.asBool).getD true))
  | quotaUpdate _ _ => .ok .updated
  | toolsList => .ok (.value result)
  | toolsCall _ _ => .ok (.value result)

end Request

structure JsonRpcRequest where
  id : Nat
  request : Request
  deriving Repr

/-- How writing a line and flushing it ended. -/
inductive Written where
  | flushed
  | unflushed (e : String)
  | refused
  deriving DecidableEq, Repr

/-- The client, the id the process gives out next, and the requests that were written. -/
structure Connection where
  client : AcpClient
  requestId : Nat
  sent : List JsonRpcRequest

namespace Connection

variable (readNumber : Json.Number → Option Json.Number)

def sendRequest (c : Connection) (request : Request) (written : Written) :
    Except String Json × Connection :=
  let line : JsonRpcRequest := ⟨c.requestId, request⟩
  let c := { c with requestId := c.requestId + 1 }
  match written with
  | .refused => (.error "write request", c)
  | .unflushed e => (.error e, { c with sent := c.sent ++ [line] })
  | .flushed =>
      match c.client.awaitResponse readNumber (c.client.reader.length + 1) with
      | (result, client) => (result, ⟨client, c.requestId, c.sent ++ [line]⟩)

/-- A request of the outer interface: send it, and make what it returns of the result. -/
def call (c : Connection) (request : Request) (written : Written) : Except String Reply × Connection :=
  match c.sendRequest readNumber request written with
  | (result, c) => (result.bind request.finish, c)

inductive Event where
  | request (request : Request) (written : Written)
  | notify (written : Written)
  | nextPush

/-- A notification that is sent touches nothing that is read. -/
def step (c : Connection) : Event → Option Connection
  | .request request written => some (c.call readNumber request written).2
  | .notify _ => some c
  | .nextPush => some { c with client := c.client.nextPush.2 }

/-- A client over the input, in a process that gave out the ids below. -/
def system (reader : List Char) (requestId : Nat) : Transition.System Connection Event where
  init := ⟨⟨reader, []⟩, requestId, []⟩
  step := step readNumber

end Connection

/-! ### Lines -/

/-- So many lines off the input, and what comes after them. -/
def readLines : Nat → List Char → List (List Char) × List Char
  | 0, cs => ([], cs)
  | n + 1, cs =>
      ((readLine cs).1 :: (readLines n (readLine cs).2).1, (readLines n (readLine cs).2).2)

theorem readLines_add (m n : Nat) (cs : List Char) :
    readLines (m + n) cs =
      ((readLines m cs).1 ++ (readLines n (readLines m cs).2).1, (readLines n (readLines m cs).2).2) := by
  induction m generalizing cs with
  | zero => rw [Nat.zero_add]; rfl
  | succ m ih =>
      rw [Nat.succ_add, readLines, ih]
      rfl

namespace AcpClient

variable (readNumber : Json.Number → Option Json.Number)

/-- The line is a notification, and a request that waits sets it aside. -/
def NotificationLine (line : List Char) : Prop :=
  ∃ peek, Json.read readNumber line = some peek ∧ isNotification peek = true

/-- After so many notifications comes a line that is none. -/
def FrameAfter (reader : List Char) (n : Nat) (line : List Char) : Prop :=
  (∀ buf ∈ (readLines n reader).1, NotificationLine readNumber buf) ∧
    (readLine (readLines n reader).2).1 = line ∧ ¬ NotificationLine readNumber line

/-- The response a line holds. -/
def responseOf (line : List Char) : Option JsonRpcResponse :=
  (Json.read readNumber line).bind JsonRpcResponse.ofValue

def answer (line : List Char) : Except String Json :=
  match Json.read readNumber line with
  | none => .error "parse ACP frame"
  | some peek => resultOf peek

variable {readNumber}

/-- There is one such line. -/
theorem FrameAfter.unique {reader line line' : List Char} {n n' : Nat}
    (h : FrameAfter readNumber reader n line) (h' : FrameAfter readNumber reader n' line') :
    n = n' ∧ line = line' := by
  induction n generalizing reader n' with
  | zero =>
      cases n' with
      | zero => exact ⟨rfl, h.2.1.symm.trans h'.2.1⟩
      | succ n' =>
          have hnotification := h'.1 _ List.mem_cons_self
          rw [show (readLine reader).1 = line from h.2.1] at hnotification
          exact absurd hnotification h.2.2
  | succ n ih =>
      cases n' with
      | zero =>
          have hnotification := h.1 _ List.mem_cons_self
          rw [show (readLine reader).1 = line' from h'.2.1] at hnotification
          exact absurd hnotification h'.2.2
      | succ n' =>
          obtain ⟨hn, hline⟩ := ih ⟨fun buf hbuf => h.1 buf (List.mem_cons_of_mem _ hbuf), h.2⟩
            ⟨fun buf hbuf => h'.1 buf (List.mem_cons_of_mem _ hbuf), h'.2⟩
          exact ⟨congrArg Nat.succ hn, hline⟩

/-- A request that waits sets the notifications aside, in order, and is answered by the line after
them; the input it leaves begins after that line. -/
theorem awaitResponse_spec {fuel : Nat} {client : AcpClient} (hfuel : client.reader.length < fuel) :
    ∃ n line, FrameAfter readNumber client.reader n line ∧
      client.awaitResponse readNumber fuel =
        (answer readNumber line, ⟨(readLines (n + 1) client.reader).2,
          client.pendingNotifications ++ (readLines n client.reader).1⟩) := by
  induction fuel generalizing client with
  | zero => omega
  | succ fuel ih =>
      have hlength := length_readLine client.reader
      cases hread : Json.read readNumber (readLine client.reader).1 with
      | none =>
          refine ⟨0, (readLine client.reader).1, ⟨nofun, rfl, ?_⟩, ?_⟩
          · rintro ⟨peek, hpeek, -⟩
            rw [hread] at hpeek
            cases hpeek
          · simp only [awaitResponse, hread, answer, readLines, List.append_nil]
      | some peek =>
          by_cases hnotification : isNotification peek = true
          · have hne : (readLine client.reader).1 ≠ [] := by
              intro hnil
              rw [hnil, Json.read_nil] at hread
              cases hread
            have hpos := List.length_pos_iff.mpr hne
            obtain ⟨n, line, ⟨hbefore, hline, hstop⟩, hawait⟩ := @ih
              ⟨(readLine client.reader).2, client.pendingNotifications ++ [(readLine client.reader).1]⟩
              (show (readLine client.reader).2.length < fuel by omega)
            refine ⟨n + 1, line, ⟨?_, hline, hstop⟩, ?_⟩
            · intro buf hbuf
              rcases List.mem_cons.mp hbuf with rfl | hbuf
              · exact ⟨peek, hread, hnotification⟩
              · exact hbefore buf hbuf
            · simp only [awaitResponse, hread, if_pos hnotification]
              rw [hawait]
              simp only [readLines, List.append_assoc, List.singleton_append]
          · refine ⟨0, (readLine client.reader).1, ⟨nofun, rfl, ?_⟩, ?_⟩
            · rintro ⟨other, hother, hyes⟩
              rw [hread] at hother
              cases hother
              exact hnotification hyes
            · simp only [awaitResponse, hread, if_neg hnotification, answer, readLines, List.append_nil]

/-- A notification has no id, read as a response or not. -/
theorem NotificationLine.id {line : List Char} {resp : JsonRpcResponse}
    (h : NotificationLine readNumber line) (hresp : responseOf readNumber line = some resp) :
    resp.id = none := by
  obtain ⟨peek, hread, hnotification⟩ := h
  rw [isNotification, Bool.and_eq_true, Option.isNone_iff_eq_none] at hnotification
  obtain ⟨hmethod, hid⟩ := hnotification
  rw [responseOf, hread, Option.bind_some] at hresp
  cases peek with
  | object members =>
      have hunique : Json.unique members "id" = some none := by
        rw [Json.get, Option.map_eq_none_iff, List.find?_eq_none] at hid
        rw [Json.unique, List.filter_eq_nil_iff.mpr hid]
      rw [JsonRpcResponse.ofValue, Json.fields] at hresp
      simp only [List.mapM_cons, hunique] at hresp
      split at hresp
      · rename_i heq
        simp only [Option.bind_eq_bind, Option.bind_some, Option.bind_eq_some_iff, Option.pure_def,
          Option.some.injEq] at heq hresp
        obtain ⟨_, _, hcons⟩ := heq
        obtain ⟨id, hdecode, _, _, _, _, rfl⟩ := hresp
        rw [← (List.cons.inj hcons).1] at hdecode
        exact (Option.some.inj hdecode).symm
      · cases hresp
  | _ => cases hmethod

end AcpClient

/-! ### Each request and its own response -/

namespace Connection

variable (readNumber : Json.Number → Option Json.Number)

variable {readNumber}

/-- A request that was written returns what the first line that is no notification makes it return. -/
theorem call_flushed (c : Connection) (request : Request) :
    ∃ n line, AcpClient.FrameAfter readNumber c.client.reader n line ∧
      c.call readNumber request .flushed =
        ((AcpClient.answer readNumber line).bind request.finish,
          ⟨⟨(readLines (n + 1) c.client.reader).2,
              c.client.pendingNotifications ++ (readLines n c.client.reader).1⟩,
            c.requestId + 1, c.sent ++ [⟨c.requestId, request⟩]⟩) := by
  obtain ⟨n, line, hframe, hawait⟩ :=
    @AcpClient.awaitResponse_spec readNumber _ c.client (Nat.lt_succ_self c.client.reader.length)
  refine ⟨n, line, hframe, ?_⟩
  simp only [call, sendRequest]
  rw [hawait]

/-- The response to a request, as it is put on a line. -/
def oneResponse (id : Json.Number) (result : String) : Json :=
  .object [("id", .number id), ("jsonrpc", .string "2.0"), ("result", .string result)]

end Connection

end Overacp
