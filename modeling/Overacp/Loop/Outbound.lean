import Overacp.Agent.Bridge
import Overacp.Lib.Json.Decimal
import Overacp.Loop.ContextCompacted
import Overacp.Server.Tunnel.Responses

/-!
# What the loop writes

The client writes a request or a notification as one line of JSON. The server reads a request back as it was
meant, its numbers as they are read, unless its parameters are nested too deep or hold a number out of range, and then
it drops it; what the client makes of the response is what the hook returned, with its numbers as they are read.
-/

namespace Overacp

open Protocol (number)

/-! ### Requests -/

namespace Request

/-- The parameters, `none` where the field is left out. -/
def params : Request → Option Json
  | initializeAgent | quotaCheck | toolsList => none
  | quotaUpdate inputTokens outputTokens =>
      some (.object [("input_tokens", number inputTokens), ("output_tokens", number outputTokens)])
  | toolsCall name arguments => some (.object [("arguments", arguments), ("name", .string name)])

theorem method_notMem (request : Request) : request.method ∉ Dispatch.notificationMethods := by
  cases request <;> simp only [method] <;> decide

end Request

namespace JsonRpcRequest

def toValue (req : JsonRpcRequest) : Json :=
  Json.record [("jsonrpc", some (.string "2.0")), ("id", some (number req.id)),
    ("method", some (.string req.request.method)), ("params", req.request.params)]

/-- The line, without its line feed. -/
def line (req : JsonRpcRequest) : List Char := req.toValue.print

variable (readNumber : Json.Number → Option Json.Number)

/-- What the server reads as the parameters. -/
def params (req : JsonRpcRequest) : Json :=
  (req.request.params.map fun params => params.collapse.asRead readNumber).getD .null

/-- The server can read the line. -/
def Readable (req : JsonRpcRequest) : Prop :=
  req.toValue.nesting ≤ Json.maxNesting ∧ req.toValue.inRange readNumber = true

instance (req : JsonRpcRequest) : Decidable (req.Readable readNumber) := inferInstanceAs (Decidable (_ ∧ _))

variable {readNumber}

theorem read_line (req : JsonRpcRequest) : Json.read readNumber req.line =
    if req.Readable readNumber then some (req.toValue.collapse.asRead readNumber) else none := by
  have hread := @Json.read_print readNumber req.toValue [] (by simp)
  rw [List.append_nil] at hread
  exact hread

theorem keys_nodup (req : JsonRpcRequest) : (([("jsonrpc", some (.string "2.0")), ("id", some (number req.id)),
    ("method", some (.string req.request.method)), ("params", req.request.params)] :
      List (String × Option Json)).map Prod.fst).Nodup := by
  show ["jsonrpc", "id", "method", "params"].Nodup
  decide

theorem isRequest_line (hreads : Dispatch.Reads readNumber) {req : JsonRpcRequest} (hid : req.id < 2 ^ 64)
    (h : req.Readable readNumber) :
    Dispatch.IsRequest readNumber req.line (number req.id) req.request.method (req.params readNumber) := by
  have hget (key : String) (value : Option Json) (hmem : (key, value) ∈ [("jsonrpc", some (.string "2.0")),
      ("id", some (number req.id)), ("method", some (.string req.request.method)),
      ("params", req.request.params)]) : (req.toValue.collapse.asRead readNumber).get key =
        value.map fun v => v.collapse.asRead readNumber := by
    have hcollapse : req.toValue.collapse.get key = value.map Json.collapse :=
      Json.get_collapse_of_unique (Json.unique_present req.keys_nodup hmem)
    rw [Json.get_asRead, hcollapse, Option.map_map]
    rfl
  refine ⟨req.toValue.collapse.asRead readNumber, by rw [read_line, if_pos h], ?_, ?_, req.request.method_notMem, ?_⟩
  · rw [hget "id" (some (number req.id)) (by simp)]
    have hkept : (number req.id).asRead readNumber = number req.id := by
      apply Json.asRead_of_kept
      intro n hn
      rw [List.mem_singleton.mp hn]
      exact hreads.integers _ (by omega) (by exact_mod_cast hid)
    exact congrArg some hkept
  · rw [hget "method" (some (.string req.request.method)) (by simp)]
    rfl
  · rw [hget "params" req.request.params (by simp)]
    rfl

/-- A request the server can read asks its own hook; any other asks none and is not answered. -/
theorem handleText_line (hreads : Dispatch.Reads readNumber) (hooks : Hooks) {req : JsonRpcRequest}
    (hid : req.id < 2 ^ 64) : Dispatch.handleText readNumber hooks req.line =
      if req.Readable readNumber then
        ⟨some (Dispatch.jsonrpcResponse (number req.id)
            (Dispatch.resultOf hooks req.request.method (req.params readNumber))),
          Dispatch.ownHook req.request.method (req.params readNumber)⟩
      else ⟨none, []⟩ := by
  split_ifs with h
  · exact Dispatch.handleText_request hooks (isRequest_line hreads hid h)
  · rw [Dispatch.handleText, read_line, if_neg h]

end JsonRpcRequest

/-! ### Notifications -/

/-- What the loop tells whoever watches. -/
inductive Notification where
  | textDelta (text : String)
  | activity (activity : String)
  | toolCall (id name : String) (arguments : Json)
  | toolResult (id : String) (content : Json) (isError : Bool)
  | turnEnd (usage : Llm.Usage)
  | contextCompacted (summary : String) (messages : List Llm.Message) (usage : Llm.Usage)
  | heartbeat

namespace Notification

def method : Notification → String
  | textDelta _ => Protocol.Methods.streamTextDelta
  | activity _ => Protocol.Methods.streamActivity
  | toolCall _ _ _ => Protocol.Methods.streamToolCall
  | toolResult _ _ _ => Protocol.Methods.streamToolResult
  | turnEnd _ => Protocol.Methods.turnEnd
  | contextCompacted _ _ _ => Protocol.Methods.contextCompacted
  | heartbeat => Protocol.Methods.heartbeat

/-- The notification that is written, or the error of a conversion; the parameters of a heartbeat are `null`. -/
def value (notification : Notification) : Except String Json :=
  match notification with
  | textDelta text => .ok (Protocol.notification Protocol.Methods.streamTextDelta (.object [("text", .string text)]))
  | activity data =>
      .ok (Protocol.notification Protocol.Methods.streamActivity
        (.object [("data", .string data), ("kind", .string "log")]))
  | toolCall id name arguments =>
      .ok (Protocol.notification Protocol.Methods.streamToolCall
        (.object [("arguments", arguments), ("id", .string id), ("name", .string name)]))
  | toolResult id content isError =>
      .ok (Protocol.notification Protocol.Methods.streamToolResult
        (.object [("content", content), ("id", .string id), ("is_error", .bool isError)]))
  | turnEnd usage =>
      .ok (Protocol.notification Protocol.Methods.turnEnd (.object
        [("usage", Protocol.Usage.toValue ⟨usage.promptTokens, usage.completionTokens⟩)]))
  | contextCompacted summary messages usage => ContextCompacted.contextCompacted summary messages usage
  | heartbeat => .ok (Protocol.notification Protocol.Methods.heartbeat .null)

theorem method_mem (notification : Notification) : notification.method ∈ Dispatch.notificationMethods := by
  cases notification <;> simp only [method] <;> decide

theorem value_eq {notification : Notification} {v : Json} (h : notification.value = .ok v) :
    ∃ params, v = Protocol.notification notification.method params := by
  cases notification with
  | contextCompacted summary messages usage =>
      change ContextCompacted.contextCompacted summary messages usage = .ok v at h
      unfold ContextCompacted.contextCompacted at h
      split at h
      · cases h
      · cases h
        exact ⟨_, rfl⟩
  | _ =>
      cases h
      exact ⟨_, rfl⟩

/-- No notification is answered, whether the server can read it or not, and none asks a hook. -/
theorem handleText_value {notification : Notification} {v : Json} (h : notification.value = .ok v)
    (readNumber : Json.Number → Option Json.Number) (hooks : Hooks) :
    Dispatch.handleText readNumber hooks v.print = ⟨none, []⟩ := by
  obtain ⟨params, rfl⟩ := value_eq h
  refine Dispatch.handleText_other hooks ?_
  rintro id method params' ⟨parsed, hread, -, hmethod, hnot, -⟩
  obtain ⟨v, hparse, -, rfl⟩ := Json.read_eq_some hread
  rw [Json.asStr_get_asRead] at hmethod
  have hprint := @Json.parse_print (Protocol.notification notification.method params) [] (by simp)
  rw [List.append_nil, hparse] at hprint
  split_ifs at hprint
  cases hprint
  have hget : (Protocol.notification notification.method params).collapse.get "method" =
      some (.string notification.method) :=
    @Json.get_collapse_of_unique _ "method" (some (.string notification.method)) rfl
  rw [hget] at hmethod
  cases hmethod
  exact hnot notification.method_mem

/-- Every notification is published. -/
theorem fansOut_value {notification : Notification} {v : Json} (h : notification.value = .ok v) :
    Dispatch.fansOut v.print = true := by
  obtain ⟨params, rfl⟩ := value_eq h
  obtain ⟨before, after, hprint⟩ : ∃ before after,
      (Protocol.notification notification.method params).print =
        before ++ Json.printString notification.method ++ after := by
    refine ⟨'{' :: (Json.printString "jsonrpc" ++ ':' :: (Json.printString "2.0" ++
      ',' :: (Json.printString "method" ++ [':']))),
      ',' :: (Json.printString "params" ++ ':' :: (params.print ++ ['}'])), ?_⟩
    simp only [Protocol.notification, Json.print, Json.printMembers, List.append_assoc, List.cons_append,
      List.nil_append]
  have hall : ∀ method ∈ Dispatch.notificationMethods, ∃ pattern ∈ Dispatch.fanOutPatterns,
      pattern.toList <:+: Json.printString method := by decide
  obtain ⟨pattern, hpattern, hfound⟩ := hall _ notification.method_mem
  rw [Dispatch.fansOut, List.any_eq_true]
  refine ⟨pattern, hpattern, decide_eq_true (hfound.trans ?_)⟩
  rw [hprint]
  exact ⟨before, after, rfl⟩

end Notification

/-! ### Lines of the tunnel -/

theorem print_object_end (members : List (String × Json)) : ∃ cs, (Json.object members).print = cs ++ ['}'] := by
  have hmembers : ∀ ms : List (String × Json), ∃ cs, Json.printMembers ms = cs ++ ['}'] := by
    intro ms
    induction ms with
    | nil => exact ⟨[], rfl⟩
    | cons m ms ih =>
        obtain ⟨cs, hcs⟩ := ih
        refine ⟨',' :: (Json.printString m.1 ++ ':' :: (m.2.print ++ cs)), ?_⟩
        rw [Json.printMembers, hcs]
        simp only [List.append_assoc, List.cons_append]
  cases members with
  | nil => exact ⟨['{'], rfl⟩
  | cons m ms =>
      obtain ⟨cs, hcs⟩ := hmembers ms
      refine ⟨'{' :: (Json.printString m.1 ++ ':' :: (m.2.print ++ cs)), ?_⟩
      rw [Json.print, hcs]
      simp only [List.append_assoc, List.cons_append]

/-- A line of the child is sent as it was written, and a frame of the server is written as one line. -/
structure OneLine (text : List Char) : Prop where
  newline : '\n' ∉ text
  trimEnd : Bridge.trimEnd (text ++ ['\n']) = text
  body : Bridge.body text = text

theorem oneLine_object (members : List (String × Json)) : OneLine (Json.object members).print := by
  obtain ⟨cs, hcs⟩ := print_object_end members
  refine ⟨Json.newline_notMem_print _, ?_, ?_⟩
  · rw [hcs, Bridge.trimEnd, List.reverse_append, List.reverse_append, List.reverse_singleton,
      List.reverse_singleton, List.singleton_append, List.singleton_append,
      List.dropWhile_cons_of_pos (by decide), List.dropWhile_cons_of_neg (by decide), List.reverse_cons,
      List.reverse_reverse]
  · rw [Bridge.body, if_neg]
    rw [hcs, List.getLast?_concat]
    decide

theorem JsonRpcRequest.oneLine (req : JsonRpcRequest) : OneLine req.line := oneLine_object _

theorem Notification.oneLine {notification : Notification} {v : Json} (h : notification.value = .ok v) :
    OneLine v.print := by
  obtain ⟨params, rfl⟩ := value_eq h
  exact oneLine_object _

theorem oneLine_jsonrpcResponse (id : Json) (result : Except (Int × String) Json) :
    OneLine (Dispatch.jsonrpcResponse id result) := by
  cases result with
  | ok v => exact oneLine_object _
  | error e => exact oneLine_object _

namespace Dispatch

theorem mapError_code {ε α : Type} {x : Except ε α} {f : ε → Int × String}
    (hf : ∀ e, -2 ^ 31 ≤ (f e).1 ∧ (f e).1 < 2 ^ 31) {code : Int} {message : String}
    (h : x.mapError f = .error (code, message)) : -2 ^ 31 ≤ code ∧ code < 2 ^ 31 := by
  cases x with
  | ok v => cases h
  | error e =>
      have hcode := hf e
      rwa [show f e = (code, message) from Except.error.inj h] at hcode

/-- The codes of errors are integers of 32 bits. -/
theorem resultOf_code {hooks : Hooks} {method : String} {params : Json} {code : Int} {message : String}
    (h : resultOf hooks method params = .error (code, message)) : -2 ^ 31 ≤ code ∧ code < 2 ^ 31 := by
  unfold resultOf at h
  split_ifs at h
  · exact mapError_code bootErr_code h
  · exact mapError_code toolErr_code h
  · exact mapError_code toolErr_code h
  · exact mapError_code quotaErr_code h
  · exact mapError_code quotaErr_code h
  · cases h
    decide

end Dispatch

/-! ### What a request makes of a line -/

namespace AcpClient

variable (readNumber : Json.Number → Option Json.Number)

/-- What one line is to a request that waits; `none` where it is set aside. -/
def receive (buf : List Char) : Option (Except String Json) :=
  match Json.read readNumber buf with
  | none => some (.error "parse ACP frame")
  | some peek => if isNotification peek then none else some (resultOf peek)

/-- The reading loop takes one line after another. -/
theorem awaitResponse_succ (fuel : Nat) (client : AcpClient) :
    client.awaitResponse readNumber (fuel + 1) =
      match receive readNumber (readLine client.reader).1 with
      | none => awaitResponse readNumber fuel ⟨(readLine client.reader).2,
          client.pendingNotifications ++ [(readLine client.reader).1]⟩
      | some result => (result, { client with reader := (readLine client.reader).2 }) := by
  simp only [awaitResponse, receive]
  cases Json.read readNumber (readLine client.reader).1 with
  | none => rfl
  | some peek =>
      dsimp only
      split_ifs <;> rfl

/-- What the client makes of what the server answers: a result of `null` is none, and one nested too deep
cannot be read. The numbers of a result are as they are read. -/
def outcome : Except (Int × String) Json → Except String Json
  | .error (_, message) => .error ("ACP error: " ++ message)
  | .ok v =>
      if v.nesting < Json.maxNesting then
        match v.collapse.asRead readNumber with
        | .null => .error "ACP response missing result"
        | result => .ok result
      else .error "parse ACP frame"

variable {readNumber}

theorem receive_notification {buf : List Char} (h : NotificationLine readNumber buf) :
    receive readNumber buf = none := by
  obtain ⟨peek, hread, hnotification⟩ := h
  rw [receive, hread]
  exact if_pos hnotification

/-- A result whose numbers are read as they are comes back as it is. -/
theorem outcome_of_kept {v : Json} (hnesting : v.nesting < Json.maxNesting) (hcanonical : v.collapse = v)
    (hnull : v ≠ .null) (hkept : ∀ n ∈ v.numbers, readNumber n = some n) :
    outcome readNumber (.ok v) = .ok v := by
  rw [outcome, if_pos hnesting, hcanonical, Json.asRead_of_kept hkept]
  cases v with
  | null => exact absurd rfl hnull
  | _ => rfl

/-- A response as the client finds it in the text: the codes of errors are integers of 32 bits. -/
structure Carried (readNumber : Json.Number → Option Json.Number) (id : Nat) (result : Except (Int × String) Json) :
    Prop where
  id_lt : id < 2 ^ 64
  id_kept : readNumber (.ofInt id) = some (.ofInt id)
  inRange : Dispatch.InRange readNumber result
  code : ∀ code message, result = .error (code, message) → -2 ^ 31 ≤ code ∧ code < 2 ^ 31

theorem Carried.asRead_id {id : Nat} {result : Except (Int × String) Json} (h : Carried readNumber id result) :
    (number id).asRead readNumber = number id :=
  Json.asRead_of_kept fun n hn => by
    rw [List.mem_singleton.mp hn]
    exact h.id_kept

theorem resultOf_responseValue {id : Nat} {result : Except (Int × String) Json} (h : Carried readNumber id result)
    (hdepth : ∀ v, result = .ok v → v.nesting < Json.maxNesting) :
    isNotification ((Dispatch.responseValue (number id) result).collapse.asRead readNumber) = false ∧
      resultOf ((Dispatch.responseValue (number id) result).collapse.asRead readNumber) =
        outcome readNumber result := by
  have hid : Json.optional (Json.unsigned 64) (some (number id)) = some (some id) := by
    show ((Json.Number.ofInt id).toUnsigned 64).map some = some (some id)
    rw [Json.Number.toUnsigned_ofInt h.id_lt]
    rfl
  cases result with
  | ok v =>
      have hvalue : (Dispatch.responseValue (number id) (.ok v)).collapse.asRead readNumber =
          .object [("id", number id), ("jsonrpc", .string "2.0"), ("result", v.collapse.asRead readNumber)] := by
        rw [Dispatch.collapse_responseValue_ok]
        show Json.object [("id", (number id).asRead readNumber), _, _] = _
        rw [h.asRead_id]
        rfl
      rw [hvalue]
      refine ⟨rfl, ?_⟩
      have hfields : Json.fields [⟨"id", false⟩, ⟨"result", false⟩, ⟨"error", false⟩]
          (.object [("id", number id), ("jsonrpc", .string "2.0"), ("result", v.collapse.asRead readNumber)]) =
            some [some (number id), some (v.collapse.asRead readNumber), none] := rfl
      rw [resultOf, JsonRpcResponse.ofValue, hfields]
      dsimp only
      rw [hid, outcome, if_pos (hdepth v rfl)]
      cases v.collapse.asRead readNumber <;> rfl
  | error e =>
      obtain ⟨code, message⟩ := e
      have hvalue : (Dispatch.responseValue (number id) (.error (code, message))).collapse.asRead readNumber =
          .object [("error", .object [("code", .number (.ofInt code)), ("message", .string message)]),
            ("id", number id), ("jsonrpc", .string "2.0")] := by
        rw [Dispatch.collapse_responseValue_error]
        show Json.object [("error", .object [("code", .number ((readNumber (.ofInt code)).getD _)), _]),
          ("id", (number id).asRead readNumber), _] = _
        rw [h.asRead_id, h.inRange.2 code message rfl]
        rfl
      rw [hvalue]
      refine ⟨rfl, ?_⟩
      obtain ⟨hlow, hhigh⟩ := h.code code message rfl
      have herror : Json.optional JsonRpcError.ofValue
          (some (.object [("code", .number (.ofInt code)), ("message", .string message)])) =
            some (some ⟨code, message⟩) := by
        have hcode : Json.signed 64 (.number (.ofInt code)) = some code :=
          Json.Number.toSigned_ofInt (by omega) (by omega)
        show ((Json.signed 64 (.number (.ofInt code))).map fun code => (⟨code, message⟩ : JsonRpcError)).map some = _
        rw [hcode]
        rfl
      have hfields : Json.fields [⟨"id", false⟩, ⟨"result", false⟩, ⟨"error", false⟩]
          (.object [("error", .object [("code", .number (.ofInt code)), ("message", .string message)]),
            ("id", number id), ("jsonrpc", .string "2.0")]) =
            some [some (number id), none, some (.object [("code", .number (.ofInt code)),
              ("message", .string message)])] := rfl
      rw [resultOf, JsonRpcResponse.ofValue, hfields]
      dsimp only
      rw [hid, herror]
      rfl

/-- A response is no notification, and ends the wait with what it says. -/
theorem receive_response {id : Nat} {result : Except (Int × String) Json} (h : Carried readNumber id result) :
    receive readNumber (Dispatch.jsonrpcResponse (number id) result ++ ['\n']) = some (outcome readNumber result) := by
  have hread := @Json.read_print readNumber (Dispatch.responseValue (number id) result) ['\n']
    (List.forall_mem_singleton.mpr rfl)
  have hid : (number id).nesting < Json.maxNesting := by simp [number, Json.nesting, Json.maxNesting]
  have hidRange : (number id).inRange readNumber = true := by
    simp [number, Json.inRange, Json.numbers, h.id_kept]
  simp only [Dispatch.inRange_responseValue hidRange h.inRange, and_true] at hread
  rw [receive, Dispatch.jsonrpcResponse, hread]
  by_cases hdepth : ∀ v, result = .ok v → v.nesting < Json.maxNesting
  · obtain ⟨hnot, hresult⟩ := resultOf_responseValue h hdepth
    rw [if_pos ((Dispatch.nesting_responseValue hid result).mpr hdepth)]
    simp only [hnot, hresult, Bool.false_eq_true, ↓reduceIte]
  · rw [if_neg (mt (Dispatch.nesting_responseValue hid result).mp hdepth)]
    dsimp only
    cases result with
    | error e => exact absurd (fun v hv => by cases hv) hdepth
    | ok v =>
        have hdeep : ¬ v.nesting < Json.maxNesting := fun hlt => hdepth fun w hw => by
          cases hw
          exact hlt
        rw [outcome, if_neg hdeep]

end AcpClient

end Overacp
