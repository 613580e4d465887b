import Overacp.Lib.Json.Text
import Overacp.Loop.Llm.Types
import Overacp.Protocol.Messages

/-!
# The agent's end of the tunnel

The client that the outer loop waits on: lines of the child's standard input, the notifications that
were set aside while a request was waiting for its response, and what becomes of each.
-/

namespace Overacp

open Llm

structure JsonRpcNotification where
  method : String
  params : Json
  deriving Repr

namespace JsonRpcNotification

def ofText (text : List Char) : Option JsonRpcNotification :=
  match (Json.parse text).bind (Json.fields [⟨"method", false⟩, ⟨"params", true⟩]) with
  | some [some (.string method), params] => some ⟨method, (params.getD .null).collapse⟩
  | _ => none

end JsonRpcNotification

/-- The unread input and the notifications set aside by `send_request`, oldest first. -/
structure AcpClient where
  reader : List Char
  pendingNotifications : List (List Char)
  deriving DecidableEq, Repr

inductive NextPush where
  | message (message : Message)
  | cancel
  deriving Repr

/-- The line up to its line feed, which it keeps, and what comes after it. -/
def readLine : List Char → List Char × List Char
  | [] => ([], [])
  | c :: cs => if c = '\n' then (['\n'], cs) else (c :: (readLine cs).1, (readLine cs).2)

def sessionMessageToLlmMessage (params : Protocol.SessionMessageParams) : Except String Message :=
  let role := match params.role with
    | .system => Role.system
    | .user => Role.user
    | .assistant => Role.assistant
    | .tool => Role.tool
  let message content : Message := ⟨role, content, none, none⟩
  match params.content with
  | .null => .ok (message none)
  | .string s => .ok (message (some (.text s)))
  | .array elems =>
      match Content.ofValue (.array elems) with
      | some content => .ok (message (some content))
      | none => .error "parse session/message content blocks"
  | .object members =>
      match Content.ofValue (.object members) with
      | some content => .ok (message (some content))
      | none => .error "parse session/message content blocks"
  | other => .ok (message (some (.text (String.ofList other.print))))

namespace AcpClient

def recvNotification (client : AcpClient) : Except String JsonRpcNotification × AcpClient :=
  match client.pendingNotifications with
  | buf :: pending =>
      match JsonRpcNotification.ofText buf with
      | some notif => (.ok notif, { client with pendingNotifications := pending })
      | none => (.error "parse buffered notification", { client with pendingNotifications := pending })
  | [] =>
      match readLine client.reader with
      | ([], rest) => (.error "stdin closed while waiting for a notification", ⟨rest, []⟩)
      | (line, rest) =>
          match JsonRpcNotification.ofText line with
          | some notif => (.ok notif, ⟨rest, []⟩)
          | none => (.error "parse notification", ⟨rest, []⟩)

/-- What a notification makes `next_push` return; `none` where it is ignored. -/
def classify (notif : JsonRpcNotification) : Option (Except String NextPush) :=
  if notif.method = Protocol.Methods.sessionMessage then
    match Protocol.SessionMessageParams.ofValue notif.params with
    | none => some (.error "parse session/message params")
    | some params => some ((sessionMessageToLlmMessage params).map .message)
  else if notif.method = Protocol.Methods.sessionCancel then some (.ok .cancel)
  else none

/-- The loop of `next_push`, for at most `fuel` notifications. -/
def nextPushLoop : Nat → AcpClient → Except String NextPush × AcpClient
  | 0, client => (.error "out of fuel", client)
  | fuel + 1, client =>
      match client.recvNotification with
      | (.error e, client) => (.error e, client)
      | (.ok notif, client) =>
          match classify notif with
          | some result => (result, client)
          | none => nextPushLoop fuel client

/-- How many notifications there can be. -/
def remaining (client : AcpClient) : Nat := client.pendingNotifications.length + client.reader.length

def nextPush (client : AcpClient) : Except String NextPush × AcpClient :=
  nextPushLoop (client.remaining + 1) client

end AcpClient

end Overacp
