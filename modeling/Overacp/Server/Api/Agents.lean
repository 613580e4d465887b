import Overacp.Lib.Json.Text
import Overacp.Server.Registry.Agent
import Overacp.Server.Registry.Queue

/-!
# Posting a message

`POST /agents/{id}/messages`: the request body, the notification built from it and the two ways it is
delivered.
-/

namespace Overacp

inductive ApiError where
  | notFound (msg : String)
  | badRequest (msg : String)
  | unauthorized (msg : String)
  | serviceUnavailable (msg : String)
  | internal (msg : String)
  deriving DecidableEq, Repr

inductive Delivery where
  | live
  | queued
  deriving DecidableEq, Repr

structure SendMessageRequest where
  role : String
  content : Json
  deriving Repr

namespace SendMessageRequest

def defaultRole : String := "user"

/-- The body as the handler's extractor decodes it: a record straight from the text, its opaque
content read into a value. -/
def ofText (body : List Char) : Option SendMessageRequest :=
  match (Json.parse body).bind (Json.fields [⟨"role", true⟩, ⟨"content", false⟩]) with
  | some [none, some content] => some ⟨defaultRole, content.collapse⟩
  | some [some (.string role), some content] => some ⟨role, content.collapse⟩
  | _ => none

/-- The `session/message` notification, as `json!` orders and `to_string` prints it. -/
def notif (req : SendMessageRequest) : Json :=
  .object [("jsonrpc", .string "2.0"), ("method", .string "session/message"),
    ("params", .object [("content", req.content), ("role", .string req.role)])]

def frame (req : SendMessageRequest) : List Char := req.notif.print

end SendMessageRequest

/-- What the handlers share: the routing table, the queue and the channels of the tunnels. -/
structure AppState where
  registry : InMemoryAgentRegistry
  messageQueue : InMemoryMessageQueue (List Char)
  channels : Channels (List Char)

def queueFull (agentId : Uuid) (capacity : Nat) : ApiError :=
  .serviceUnavailable s!"agent {agentId.render} message queue is full ({capacity}); retry later"

/-- `send_message`: 202 with how the notification was delivered, or an error. -/
def sendMessage (state : AppState) (id : Uuid) (req : SendMessageRequest) :
    Except ApiError Delivery × AppState :=
  if req.role = "" then (.error (.badRequest "'role' must not be empty"), state)
  else
    match state.registry.deliver state.channels id req.frame with
    | (.live, channels) => (.ok .live, { state with channels := channels })
    | (.noTunnel frame, channels) =>
        match state.messageQueue.push id frame with
        | (.ok (), queue) => (.ok .queued, { state with channels := channels, messageQueue := queue })
        | (.error (.full _ capacity), queue) =>
            (.error (queueFull id capacity), { state with channels := channels, messageQueue := queue })

end Overacp
