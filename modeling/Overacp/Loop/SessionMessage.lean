import Overacp.Lib.Json.RoundTrip
import Overacp.Loop.Acp
import Overacp.Server.Api.Agents

/-!
# From a posted message to the agent's loop

The broker accepts any non-empty role and any content; the agent knows four roles, decodes content
blocks and limits how deep a line may be nested. This module follows a frame from `send_message` to
`next_push` and says which accepted messages the agent accepts.
-/

namespace Overacp

open Llm Protocol

/-! ### The loop of `next_push` -/

namespace AcpClient

theorem length_readLine (cs : List Char) : (readLine cs).1.length + (readLine cs).2.length = cs.length := by
  induction cs with
  | nil => rfl
  | cons c cs ih =>
      unfold readLine
      split
      · simp only [List.length_cons, List.length_nil]
        omega
      · simp only [List.length_cons]
        omega

/-- A notification that was received has been taken from the input or from the ones set aside. -/
theorem remaining_recvNotification {client client' : AcpClient} {notif : JsonRpcNotification}
    (hrecv : client.recvNotification = (.ok notif, client')) : client'.remaining < client.remaining := by
  unfold recvNotification at hrecv
  split at hrecv
  · rename_i buf pending hpending
    split at hrecv
    · cases hrecv
      simp only [remaining, hpending, List.length_cons]
      omega
    · cases hrecv
  · rename_i hpending
    have hlength := length_readLine client.reader
    split at hrecv
    · cases hrecv
    · rename_i line rest hline hread
      have hpos : 0 < line.length := List.length_pos_iff.mpr hline
      simp only [hread] at hlength
      split at hrecv
      · cases hrecv
        simp only [remaining, hpending, List.length_nil]
        omega
      · cases hrecv

theorem nextPushLoop_of_lt {fuel : Nat} {client : AcpClient} (hfuel : client.remaining < fuel) :
    nextPushLoop fuel client = client.nextPush := by
  have hstable : ∀ fuel fuel' client, client.remaining < fuel → client.remaining < fuel' →
      nextPushLoop fuel client = nextPushLoop fuel' client := by
    intro fuel
    induction fuel with
    | zero =>
        intro fuel' client hlt
        omega
    | succ fuel ih =>
        intro fuel' client hlt hlt'
        obtain ⟨fuel', rfl⟩ : ∃ f, fuel' = f + 1 := ⟨fuel' - 1, by omega⟩
        rw [nextPushLoop, nextPushLoop]
        cases hrecv : client.recvNotification with
        | mk received client' =>
            cases received with
            | error e => rfl
            | ok notif =>
                have hless := remaining_recvNotification hrecv
                dsimp only
                cases classify notif with
                | some result => rfl
                | none => exact ih fuel' client' (by omega) (by omega)
  exact hstable fuel _ client hfuel (Nat.lt_succ_self _)

/-- `next_push` is the loop of the source: it returns what the notification makes it return, and goes
on to the next one otherwise. -/
theorem nextPush_eq (client : AcpClient) :
    client.nextPush =
      match client.recvNotification with
      | (.error e, client') => (.error e, client')
      | (.ok notif, client') =>
          match classify notif with
          | some result => (result, client')
          | none => client'.nextPush := by
  rw [nextPush, nextPushLoop]
  cases hrecv : client.recvNotification with
  | mk received client' =>
      cases received with
      | error e => rfl
      | ok notif =>
          have hless := remaining_recvNotification hrecv
          dsimp only
          cases classify notif with
          | some result => rfl
          | none => exact nextPushLoop_of_lt hless

theorem readLine_append {line rest : List Char} (hline : '\n' ∉ line) :
    readLine (line ++ '\n' :: rest) = (line ++ ['\n'], rest) := by
  induction line with
  | nil => rfl
  | cons c cs ih =>
      rw [List.mem_cons, not_or] at hline
      rw [List.cons_append, readLine, if_neg (Ne.symm hline.1), ih hline.2]
      rfl

/-- The line is the next one the client reads: set aside by a request, or at the head of the input. -/
def Upcoming (client : AcpClient) (line : List Char) : Prop :=
  (∃ pending, client.pendingNotifications = (line ++ ['\n']) :: pending) ∨
    client.pendingNotifications = [] ∧ ∃ rest, client.reader = line ++ '\n' :: rest

/-- The notification of an upcoming line is received, and an undecodable one is an error. -/
theorem recvNotification_upcoming {client : AcpClient} {line : List Char} (hline : '\n' ∉ line)
    (hnext : client.Upcoming line) :
    (∀ notif, JsonRpcNotification.ofText (line ++ ['\n']) = some notif →
      ∃ client', client.recvNotification = (.ok notif, client')) ∧
    (JsonRpcNotification.ofText (line ++ ['\n']) = none →
      ∃ e client', client.recvNotification = (.error e, client')) := by
  rcases hnext with ⟨pending, hpending⟩ | ⟨hpending, rest, hreader⟩
  · unfold recvNotification
    rw [hpending]
    constructor
    · intro notif hnotif
      simp only [hnotif]
      exact ⟨_, rfl⟩
    · intro hnone
      simp only [hnone]
      exact ⟨_, _, rfl⟩
  · unfold recvNotification
    obtain ⟨c, cs, hcons⟩ : ∃ c cs, line ++ ['\n'] = c :: cs :=
      List.exists_cons_of_ne_nil (List.append_ne_nil_of_right_ne_nil _ (List.cons_ne_nil _ _))
    rw [hpending, hreader, readLine_append hline, hcons]
    constructor
    · intro notif hnotif
      simp only [hnotif]
      exact ⟨_, rfl⟩
    · intro hnone
      simp only [hnone]
      exact ⟨_, _, rfl⟩

end AcpClient

/-! ### The frame of a posted message -/

namespace SendMessageRequest

theorem newline_notMem_frame (req : SendMessageRequest) : '\n' ∉ req.frame :=
  Json.newline_notMem_print req.notif

theorem nesting_notif (req : SendMessageRequest) : req.notif.nesting = req.content.nesting + 2 := by
  simp only [notif, Json.nesting, Json.nestingMembers]
  omega

/-- How deep a content may be nested for the frame around it to be within the limit. -/
def maxContentNesting : Nat := Json.maxNesting - 2

/-- The parameters as the agent reads them. -/
def params (req : SendMessageRequest) : Json :=
  .object [("content", req.content.collapse), ("role", .string req.role)]

theorem ofText_frame (req : SendMessageRequest) :
    JsonRpcNotification.ofText (req.frame ++ ['\n']) =
      if req.content.nesting ≤ maxContentNesting then some ⟨"session/message", req.params⟩ else none := by
  have hparse := @Json.parse_print req.notif ['\n'] (List.forall_mem_singleton.mpr rfl)
  rw [nesting_notif] at hparse
  have hiff : req.content.nesting + 2 ≤ Json.maxNesting ↔ req.content.nesting ≤ maxContentNesting := by
    simp only [maxContentNesting, Json.maxNesting]
    omega
  unfold JsonRpcNotification.ofText frame
  rw [hparse]
  by_cases hle : req.content.nesting ≤ maxContentNesting
  · rw [if_pos (hiff.mpr hle), if_pos hle]
    rfl
  · rw [if_neg (fun h => hle (hiff.mp h)), if_neg hle]
    rfl

theorem ofValue_params (req : SendMessageRequest) :
    SessionMessageParams.ofValue req.params =
      (Role.ofStr req.role).map fun role => ⟨role, req.content.collapse⟩ := rfl

end SendMessageRequest

/-! ### What `send_message` hands over -/

/-- The accepted frame is the last one in the channel of the agent's tunnel, or in its buffer. -/
def HandedOver (state state' : AppState) (id : Uuid) (frame : List Char) : Delivery → Prop
  | .live => ∃ entry, state.registry.get id = some entry ∧
      (state'.channels entry.val.tx).queue = (state.channels entry.val.tx).queue ++ [frame]
  | .queued => state'.messageQueue.buffer id = state.messageQueue.buffer id ++ [frame]

theorem handedOver_of_accepted {state : AppState} {id : Uuid} {req : SendMessageRequest}
    {delivery : Delivery} (hpost : (sendMessage state id req).1 = .ok delivery) :
    HandedOver state (sendMessage state id req).2 id req.frame delivery := by
  unfold sendMessage at hpost ⊢
  split at hpost
  · cases hpost
  · rename_i hrole
    rw [if_neg hrole]
    split at hpost
    · rename_i channels hdeliver
      cases hpost
      exact InMemoryAgentRegistry.deliver_live hdeliver
    · rename_i frame channels hdeliver
      obtain ⟨rfl, rfl⟩ := InMemoryAgentRegistry.deliver_noTunnel hdeliver
      split at hpost
      · rename_i queue hpush
        cases hpost
        exact InMemoryMessageQueue.buffer_of_push_ok hpush
      · cases hpost

/-! ### Which accepted messages the agent accepts -/

def isObject : Json → Bool
  | .object _ => true
  | _ => false

/-- The agent knows the role, and its decoder takes the content. -/
def Decodable (req : SendMessageRequest) : Prop :=
  Role.ofStr req.role ≠ none ∧ isObject req.content = false ∧
    req.content.nesting ≤ SendMessageRequest.maxContentNesting

theorem isObject_collapse (content : Json) : isObject content.collapse = isObject content := by
  cases content <;> rfl

theorem sessionMessageToLlmMessage_ok_iff (params : SessionMessageParams) :
    (∃ message, sessionMessageToLlmMessage params = .ok message) ↔ isObject params.content = false := by
  unfold sessionMessageToLlmMessage
  cases params.content with
  | null | bool | number | string | array => exact iff_of_true ⟨_, rfl⟩ rfl
  | object members =>
      refine iff_of_false ?_ Bool.noConfusion
      rintro ⟨message, hmessage⟩
      cases hmessage

theorem nextPush_frame_iff {client : AcpClient} {req : SendMessageRequest}
    (hnext : client.Upcoming req.frame) :
    (∃ message, client.nextPush.1 = .ok (.message message)) ↔ Decodable req := by
  obtain ⟨hsome, hnone⟩ := AcpClient.recvNotification_upcoming req.newline_notMem_frame hnext
  rw [req.ofText_frame] at hsome hnone
  rw [AcpClient.nextPush_eq]
  by_cases hnesting : req.content.nesting ≤ SendMessageRequest.maxContentNesting
  · rw [if_pos hnesting] at hsome
    obtain ⟨client', hrecv⟩ := hsome _ rfl
    rw [hrecv]
    have hparams := req.ofValue_params
    simp only [AcpClient.classify, Protocol.Methods.sessionMessage, if_true, Decodable, hnesting, and_true]
    cases hrole : Role.ofStr req.role with
    | none =>
        rw [hrole, Option.map_none] at hparams
        rw [hparams]
        simp
    | some role =>
        rw [hrole, Option.map_some] at hparams
        rw [hparams]
        have hok := sessionMessageToLlmMessage_ok_iff ⟨role, req.content.collapse⟩
        rw [isObject_collapse] at hok
        simp only [ne_eq, reduceCtorEq, not_false_eq_true, true_and]
        rw [← hok]
        constructor
        · rintro ⟨message, hmessage⟩
          cases hresult : sessionMessageToLlmMessage ⟨role, req.content.collapse⟩ with
          | ok message => exact ⟨message, rfl⟩
          | error e =>
              rw [hresult] at hmessage
              cases hmessage
        · rintro ⟨message, hmessage⟩
          exact ⟨message, by rw [hmessage]; rfl⟩
  · rw [if_neg hnesting] at hnone
    obtain ⟨e, client', hrecv⟩ := hnone rfl
    rw [hrecv]
    refine iff_of_false ?_ fun h => hnesting h.2.2
    rintro ⟨message, hmessage⟩
    cases hmessage

/-- An accepted message is handed over as its frame, and the agent whose next line that frame is takes
it for a message if and only if it knows the role, the content is no object, and the content is not
nested too deep. -/
theorem accepted_message_is_pushed_iff {state : AppState} {id : Uuid} {req : SendMessageRequest}
    {delivery : Delivery} (hpost : (sendMessage state id req).1 = .ok delivery) :
    HandedOver state (sendMessage state id req).2 id req.frame delivery ∧
      ∀ client : AcpClient, client.Upcoming req.frame →
        ((∃ message, client.nextPush.1 = .ok (.message message)) ↔ Decodable req) :=
  ⟨handedOver_of_accepted hpost, fun _ hnext => nextPush_frame_iff hnext⟩

/-- Nobody is connected and nothing is queued. -/
private def idleState : AppState := ⟨.new, .new defaultPerAgentCapacity, .none⟩

theorem text_message_is_pushed :
    ∃ client : AcpClient, client.Upcoming (SendMessageRequest.mk "user" (.string "hi")).frame ∧
      ∃ message, client.nextPush.1 = .ok (.message message) := by
  have hpost : (sendMessage idleState 7 ⟨"user", .string "hi"⟩).1 = .ok .queued := rfl
  refine ⟨⟨(SendMessageRequest.mk "user" (.string "hi")).frame ++ '\n' :: [], []⟩, .inr ⟨rfl, [], rfl⟩, ?_⟩
  refine ((accepted_message_is_pushed_iff hpost).2 _ (.inr ⟨rfl, [], rfl⟩)).mpr ⟨by decide, rfl, by decide⟩

/-- The body of the broker's own test: the content is an object. -/
private def objectBody : Json := .object [("content", .object [("text", .string "hello")]), ("role", .string "user")]

/-- The broker answers 202 to an object content, and the agent's decoder refuses the frame. -/
theorem object_content_is_refused :
    ¬ ∀ (body : List Char) (req : SendMessageRequest) (state : AppState) (id : Uuid) (delivery : Delivery),
      SendMessageRequest.ofText body = some req → (sendMessage state id req).1 = .ok delivery →
        ∀ client : AcpClient, client.Upcoming req.frame →
          ∃ message, client.nextPush.1 = .ok (.message message) := by
  intro h
  have hbody : SendMessageRequest.ofText objectBody.print =
      some ⟨"user", .object [("text", .string "hello")]⟩ := by
    have hparse := @Json.parse_print objectBody [] nofun
    rw [List.append_nil, if_pos (by decide)] at hparse
    rw [SendMessageRequest.ofText, hparse]
    rfl
  obtain ⟨message, hmessage⟩ := h _ _ idleState 7 .queued hbody rfl ⟨_, []⟩ (.inr ⟨rfl, [], rfl⟩)
  have hdecodable := (nextPush_frame_iff (.inr ⟨rfl, [], rfl⟩)).mp ⟨message, hmessage⟩
  exact Bool.noConfusion hdecodable.2.1

end Overacp
