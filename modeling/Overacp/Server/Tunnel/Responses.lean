import Mathlib.Tactic.Ring
import Overacp.Lib.Json.Canonical
import Overacp.Lib.Json.Integer
import Overacp.Server.Tunnel.Dispatch

/-!
# Responses to the agent

Which frames `handle_message` answers, which hook it asks for the answer, and what the agent reads when it
parses the response. A number that was read is printed as it was read, so an id is echoed as its numbers are.
-/

namespace Overacp

open Protocol

namespace Dispatch

/-! ### Hooks that are asked -/

/-- A hook of the operator, and what it is asked. -/
inductive HookCall where
  | boot
  | toolsList
  | toolsCall (params : Json)
  | quotaCheck
  | quotaRecord (usage : Json)
  deriving Repr

/-- A result, and the hooks that were asked on the way to it. -/
structure Asked (α : Type) where
  value : α
  calls : List HookCall

def handleInitialize (hooks : Hooks) : Asked (Except (Int × String) Json) :=
  ⟨hooks.boot.mapError bootErr, [.boot]⟩

def handleToolsList (hooks : Hooks) : Asked (Except (Int × String) Json) :=
  ⟨hooks.toolsList.mapError toolErr, [.toolsList]⟩

def handleToolsCall (hooks : Hooks) (params : Json) : Asked (Except (Int × String) Json) :=
  ⟨(hooks.toolsCall params).mapError toolErr, [.toolsCall params]⟩

def handleQuotaCheck (hooks : Hooks) : Asked (Except (Int × String) Json) :=
  ⟨(hooks.quotaCheck.map fun allowed => .object [("allowed", .bool allowed)]).mapError quotaErr, [.quotaCheck]⟩

def handleQuotaUpdate (hooks : Hooks) (params : Json) : Asked (Except (Int × String) Json) :=
  ⟨((hooks.quotaRecord params).map fun _ => .object []).mapError quotaErr, [.quotaRecord params]⟩

/-! ### Responses as text -/

/-- The members of a response, in the order of a map. -/
def responseValue (id : Json) : Except (Int × String) Json → Json
  | .ok result => .object [("id", id), ("jsonrpc", .string "2.0"), ("result", result)]
  | .error (code, message) =>
      .object [("error", .object [("code", .number (.ofInt code)), ("message", .string message)]), ("id", id),
        ("jsonrpc", .string "2.0")]

def jsonrpcResponse (id : Json) (result : Except (Int × String) Json) : List Char := (responseValue id result).print

variable (readNumber : Json.Number → Option Json.Number)

/-- The id is looked at before the hook is asked. -/
def answerWith (id : Option Json) (asked : Asked (Except (Int × String) Json)) : Asked (Option (List Char)) :=
  match id with
  | none => ⟨none, []⟩
  | some id => ⟨some (jsonrpcResponse id asked.value), asked.calls⟩

/-- `handle_message`, with the text of the response and the hooks it asks. -/
def handleText (hooks : Hooks) (text : List Char) : Asked (Option (List Char)) :=
  match Json.read readNumber text with
  | none => ⟨none, []⟩
  | some parsed =>
      match (parsed.get "method").bind Json.asStr with
      | none => ⟨none, []⟩
      | some method =>
          let id := parsed.get "id"
          let params := (parsed.get "params").getD .null
          if method = Methods.initializeAgent then answerWith id (handleInitialize hooks)
          else if method = Methods.toolsList then answerWith id (handleToolsList hooks)
          else if method = Methods.toolsCall then answerWith id (handleToolsCall hooks params)
          else if method = Methods.quotaCheck then answerWith id (handleQuotaCheck hooks)
          else if method = Methods.quotaUpdate then answerWith id (handleQuotaUpdate hooks params)
          else if method ∈ notificationMethods then ⟨none, []⟩
          else answerWith id ⟨.error (codeMethodNotFound, "method not found: " ++ method), []⟩

/-- The response is the one the frame is answered with, as text. -/
theorem value_handleText (hooks : Hooks) (text : List Char) :
    (handleText readNumber hooks text).value =
      (handleMessage readNumber hooks text).map fun response => jsonrpcResponse response.id response.result := by
  unfold handleText handleMessage
  cases Json.read readNumber text with
  | none => rfl
  | some parsed =>
      dsimp only
      cases (parsed.get "method").bind Json.asStr with
      | none => rfl
      | some method =>
          dsimp only
          split_ifs
          all_goals cases parsed.get "id" <;> rfl

/-! ### Which hook a request asks -/

/-- The methods of requests, each with the hook it asks. -/
def requestHooks (params : Json) : List (String × HookCall) :=
  [(Methods.initializeAgent, .boot), (Methods.toolsList, .toolsList), (Methods.toolsCall, .toolsCall params),
    (Methods.quotaCheck, .quotaCheck), (Methods.quotaUpdate, .quotaRecord params)]

/-- The hook of a method, if it has one. -/
def ownHook (method : String) (params : Json) : List HookCall :=
  ((requestHooks params).filter fun m => m.1 = method).map Prod.snd

/-- The result a request or an unknown method is answered with. -/
def resultOf (hooks : Hooks) (method : String) (params : Json) : Except (Int × String) Json :=
  if method = Methods.initializeAgent then (handleInitialize hooks).value
  else if method = Methods.toolsList then (handleToolsList hooks).value
  else if method = Methods.toolsCall then (handleToolsCall hooks params).value
  else if method = Methods.quotaCheck then (handleQuotaCheck hooks).value
  else if method = Methods.quotaUpdate then (handleQuotaUpdate hooks params).value
  else .error (codeMethodNotFound, "method not found: " ++ method)

/-- A frame with an id and with a method that is no notification. -/
def IsRequest (text : List Char) (id : Json) (method : String) (params : Json) : Prop :=
  ∃ parsed, Json.read readNumber text = some parsed ∧ parsed.get "id" = some id ∧
    (parsed.get "method").bind Json.asStr = some method ∧ method ∉ notificationMethods ∧
    (parsed.get "params").getD .null = params

variable {readNumber}

/-- A request is answered with the result of its own hook, which is asked once, and with an error where its
method has none. -/
theorem handleText_request {text : List Char} {id params : Json} {method : String} (hooks : Hooks)
    (h : IsRequest readNumber text id method params) :
    handleText readNumber hooks text =
      ⟨some (jsonrpcResponse id (resultOf hooks method params)), ownHook method params⟩ := by
  obtain ⟨parsed, hread, hid, hmethod, hnot, rfl⟩ := h
  unfold handleText resultOf
  rw [hread]
  simp only [hmethod, hid, answerWith]
  split_ifs with hboot hlist hcall hcheck hupdate
  · subst hboot
    rfl
  · subst hlist
    rfl
  · subst hcall
    rfl
  · subst hcheck
    rfl
  · subst hupdate
    rfl
  · simp [ownHook, requestHooks, Ne.symm hboot, Ne.symm hlist, Ne.symm hcall, Ne.symm hcheck, Ne.symm hupdate]

/-- Any other frame is not answered, and asks no hook. -/
theorem handleText_other {text : List Char} (hooks : Hooks)
    (h : ∀ id method params, ¬ IsRequest readNumber text id method params) :
    handleText readNumber hooks text = ⟨none, []⟩ := by
  unfold handleText
  cases hread : Json.read readNumber text with
  | none => rfl
  | some parsed =>
      dsimp only
      cases hmethod : (parsed.get "method").bind Json.asStr with
      | none => rfl
      | some method =>
          dsimp only
          cases hid : parsed.get "id" with
          | none =>
              simp only [answerWith]
              split_ifs <;> rfl
          | some id =>
              have hmem : method ∈ notificationMethods := by
                by_contra hnot
                exact h id method _ ⟨parsed, hread, hid, hmethod, hnot, rfl⟩
              have hrequests : Methods.initializeAgent ∉ notificationMethods ∧
                  Methods.toolsList ∉ notificationMethods ∧ Methods.toolsCall ∉ notificationMethods ∧
                  Methods.quotaCheck ∉ notificationMethods ∧ Methods.quotaUpdate ∉ notificationMethods := by
                decide
              obtain ⟨hboot, hlist, hcall, hcheck, hupdate⟩ := hrequests
              rw [if_neg (ne_of_mem_of_not_mem hmem hboot), if_neg (ne_of_mem_of_not_mem hmem hlist),
                if_neg (ne_of_mem_of_not_mem hmem hcall), if_neg (ne_of_mem_of_not_mem hmem hcheck),
                if_neg (ne_of_mem_of_not_mem hmem hupdate), if_pos hmem]

/-! ### What the agent reads -/

theorem collapse_responseValue_ok (id result : Json) :
    (responseValue id (.ok result)).collapse =
      .object [("id", id.collapse), ("jsonrpc", .string "2.0"), ("result", result.collapse)] := by
  have hjsonrpc : ¬ "jsonrpc" < "id" := by decide
  have hid : ¬ "result" < "id" := by decide
  have hresult : ¬ "result" < "jsonrpc" := by decide
  simp only [responseValue, Json.collapse, Json.collapseMembers, Json.insertMember, if_neg hjsonrpc, if_neg hid,
    if_neg hresult, String.reduceEq, if_false]

theorem collapse_responseValue_error (id : Json) (code : Int) (message : String) :
    (responseValue id (.error (code, message))).collapse =
      .object [("error", .object [("code", .number (.ofInt code)), ("message", .string message)]),
        ("id", id.collapse), ("jsonrpc", .string "2.0")] := by
  have hmessage : ¬ "message" < "code" := by decide
  have hid : ¬ "id" < "error" := by decide
  have herror : ¬ "jsonrpc" < "error" := by decide
  have hjsonrpc : ¬ "jsonrpc" < "id" := by decide
  simp only [responseValue, Json.collapse, Json.collapseMembers, Json.insertMember, if_neg hmessage, if_neg hid,
    if_neg herror, if_neg hjsonrpc, String.reduceEq, if_false]

/-- How the numbers of a text are read: an integer of 64 bits as it is, and what was read can be read again. -/
structure Reads (readNumber : Json.Number → Option Json.Number) : Prop where
  integers : ∀ i : Int, -2 ^ 63 ≤ i → i < 2 ^ 64 → readNumber (.ofInt i) = some (.ofInt i)
  again : ∀ n m, readNumber n = some m → (readNumber m).isSome = true

variable (readNumber) in
/-- A result is one that a text may carry: its numbers are in range, and so are the codes of errors. -/
def InRange (result : Except (Int × String) Json) : Prop :=
  (∀ v, result = .ok v → v.inRange readNumber = true) ∧
    ∀ code message, result = .error (code, message) → readNumber (.ofInt code) = some (.ofInt code)

theorem inRange_responseValue {id : Json} {result : Except (Int × String) Json}
    (hid : id.inRange readNumber = true) (hresult : InRange readNumber result) :
    (responseValue id result).inRange readNumber = true := by
  unfold Json.inRange at hid ⊢
  cases result with
  | ok v =>
      have hv := hresult.1 v rfl
      unfold Json.inRange at hv
      simp only [responseValue, Json.numbers, Json.numbersMembers, List.all_append, hid, hv]
      rfl
  | error e =>
      obtain ⟨code, message⟩ := e
      have hcode := hresult.2 code message rfl
      simp only [responseValue, Json.numbers, Json.numbersMembers, List.all_append, hid, List.all_cons, hcode]
      rfl

theorem nesting_responseValue {id : Json} (hid : id.nesting < Json.maxNesting)
    (result : Except (Int × String) Json) :
    (responseValue id result).nesting ≤ Json.maxNesting ↔
      ∀ v, result = .ok v → v.nesting < Json.maxNesting := by
  cases result with
  | ok v =>
      simp only [responseValue, Json.nesting, Json.nestingMembers, Except.ok.injEq, forall_eq']
      omega
  | error e =>
      obtain ⟨code, message⟩ := e
      have hmax : Json.maxNesting = 127 := rfl
      simp only [responseValue, Json.nesting, Json.nestingMembers, reduceCtorEq, false_implies, implies_true,
        iff_true]
      omega

/-- A response is parsed unless its result is nested too deep, and then it has the id, its numbers read again, and a
result or an error and not both. -/
theorem read_jsonrpcResponse {id : Json} {result : Except (Int × String) Json} (hcanonical : id.collapse = id)
    (hdepth : id.nesting < Json.maxNesting) (hid : id.inRange readNumber = true)
    (hresult : InRange readNumber result) :
    ((∃ reply, Json.read readNumber (jsonrpcResponse id result) = some reply) ↔
      ∀ v, result = .ok v → v.nesting < Json.maxNesting) ∧
    ∀ reply, Json.read readNumber (jsonrpcResponse id result) = some reply →
      reply.get "id" = some (id.asRead readNumber) ∧
        ((reply.get "result").isSome ↔ ¬ (reply.get "error").isSome) := by
  have hread := @Json.read_print readNumber (responseValue id result) [] (by simp)
  rw [List.append_nil] at hread
  simp only [inRange_responseValue hid hresult, and_true] at hread
  rw [jsonrpcResponse, hread]
  by_cases hfits : (responseValue id result).nesting ≤ Json.maxNesting
  · rw [if_pos hfits]
    refine ⟨iff_of_true ⟨_, rfl⟩ ((nesting_responseValue hdepth result).mp hfits), ?_⟩
    intro reply hreply
    cases hreply
    simp only [Json.get_asRead, Option.isSome_map]
    cases result with
    | ok v =>
        rw [collapse_responseValue_ok, hcanonical]
        exact ⟨rfl, iff_of_true rfl Bool.noConfusion⟩
    | error e =>
        obtain ⟨code, message⟩ := e
        rw [collapse_responseValue_error, hcanonical]
        exact ⟨rfl, iff_of_false Bool.noConfusion fun h => h rfl⟩
  · rw [if_neg hfits]
    refine ⟨iff_of_false (by simp) (mt (nesting_responseValue hdepth result).mpr hfits), ?_⟩
    intro reply hreply
    cases hreply

/-- What the hooks return are values that were made of numbers in range. -/
structure HooksInRange (readNumber : Json.Number → Option Json.Number) (hooks : Hooks) : Prop where
  boot : ∀ v, hooks.boot = .ok v → v.inRange readNumber = true
  toolsList : ∀ v, hooks.toolsList = .ok v → v.inRange readNumber = true
  toolsCall : ∀ params v, hooks.toolsCall params = .ok v → v.inRange readNumber = true

theorem inRange_mapError {ε : Type} {x : Except ε Json} {f : ε → Int × String}
    (hreads : Reads readNumber) (hvalue : ∀ v, x = .ok v → v.inRange readNumber = true)
    (hf : ∀ e, -2 ^ 31 ≤ (f e).1 ∧ (f e).1 < 2 ^ 31) : InRange readNumber (x.mapError f) := by
  cases x with
  | ok v =>
      refine ⟨?_, fun _ _ h => (by cases h)⟩
      intro w hw
      cases hw
      exact hvalue v rfl
  | error e =>
      refine ⟨fun _ h => (by cases h), ?_⟩
      intro code message h
      obtain ⟨hlow, hhigh⟩ := hf e
      rw [show f e = (code, message) from Except.error.inj h] at hlow hhigh
      exact hreads.integers code (by omega) (by omega)

theorem bootErr_code (e : BootError) : -2 ^ 31 ≤ (bootErr e).1 ∧ (bootErr e).1 < 2 ^ 31 := by
  cases e <;> simp [bootErr, codeNotFound, codeInternal]

theorem toolErr_code (e : ToolError) : -2 ^ 31 ≤ (toolErr e).1 ∧ (toolErr e).1 < 2 ^ 31 := by
  cases e <;> simp [toolErr, codeNotFound, codeInternal, codeExecutionFailed, codeDenied]

theorem quotaErr_code (e : QuotaError) : -2 ^ 31 ≤ (quotaErr e).1 ∧ (quotaErr e).1 < 2 ^ 31 := by
  cases e
  simp [quotaErr, codeInternal]

theorem inRange_resultOf {hooks : Hooks} (hreads : Reads readNumber) (hhooks : HooksInRange readNumber hooks)
    (method : String) (params : Json) : InRange readNumber (resultOf hooks method params) := by
  unfold resultOf
  split_ifs
  · exact inRange_mapError hreads hhooks.boot bootErr_code
  · exact inRange_mapError hreads hhooks.toolsList toolErr_code
  · exact inRange_mapError hreads (hhooks.toolsCall params) toolErr_code
  · refine inRange_mapError hreads (fun v hv => ?_) quotaErr_code
    cases hcheck : hooks.quotaCheck with
    | error e =>
        rw [hcheck] at hv
        cases hv
    | ok allowed =>
        rw [hcheck] at hv
        cases hv
        rfl
  · refine inRange_mapError hreads (fun v hv => ?_) quotaErr_code
    cases hrecord : hooks.quotaRecord params with
    | error e =>
        rw [hrecord] at hv
        cases hv
    | ok recorded =>
        rw [hrecord] at hv
        cases hv
        rfl
  · refine ⟨fun _ h => (by cases h), ?_⟩
    intro code message h
    cases h
    exact hreads.integers _ (by decide) (by decide)

/-! ### The id as it is written -/

/-- The id that is written in a frame, and the parameters, before their numbers are read. -/
def Written (text : List Char) (id params : Json) : Prop :=
  ∃ whole, Json.parse text = some whole ∧ whole.collapse.get "id" = some id ∧
    (whole.collapse.get "params").getD .null = params

/-- A request is written with an id that can be printed and read again. -/
theorem IsRequest.written {text : List Char} {id params : Json} {method : String}
    (h : IsRequest readNumber text id method params) :
    ∃ writtenId writtenParams, Written text writtenId writtenParams ∧ id = writtenId.asRead readNumber ∧
      params = writtenParams.asRead readNumber ∧ writtenId.collapse = writtenId ∧
      writtenId.nesting < Json.maxNesting ∧ writtenId.inRange readNumber = true := by
  obtain ⟨parsed, hread, hid, -, -, rfl⟩ := h
  obtain ⟨whole, writtenId, hparse, hwritten, rfl, hcanonical, hdepth, hrange⟩ := Json.get_of_read hread hid
  refine ⟨writtenId, _, ⟨whole, hparse, hwritten, rfl⟩, rfl, ?_, hcanonical, hdepth, hrange⟩
  obtain ⟨whole', hparse', -, rfl⟩ := Json.read_eq_some hread
  rw [hparse] at hparse'
  rw [← Option.some.inj hparse', Json.get_asRead]
  cases whole.collapse.get "params" <;> rfl

/-- Reading the numbers of an id leaves it a map. -/
theorem collapse_asRead {v : Json} (h : v.collapse = v) : (v.asRead readNumber).collapse = v.asRead readNumber := by
  rw [Json.asRead, Json.collapse_mapNumbers, h]

/-- A frame is answered if and only if it has an id and a method that is no notification. The response has the id as
its numbers are read, which is the id that is written if and only if each of them is read as it is. It can
be parsed unless the result of the hook is nested too deep; what is parsed has that id, its numbers read once more, and
a result or an error and not both. A request asks its own hook, once, with its parameters as they are read, and no
other frame asks any. -/
theorem handleText_answers (hreads : Reads readNumber) {hooks : Hooks}
    (hhooks : HooksInRange readNumber hooks) (text : List Char) :
    ((handleText readNumber hooks text).value.isSome = true ↔
      ∃ id method params, IsRequest readNumber text id method params) ∧
    (∀ id method params, IsRequest readNumber text id method params →
      (handleText readNumber hooks text).calls = ownHook method params ∧
      (handleText readNumber hooks text).value = some (jsonrpcResponse id (resultOf hooks method params)) ∧
      ((∃ reply, Json.read readNumber (jsonrpcResponse id (resultOf hooks method params)) = some reply) ↔
        ∀ v, resultOf hooks method params = .ok v → v.nesting < Json.maxNesting) ∧
      ∃ writtenId writtenParams, Written text writtenId writtenParams ∧
        id = writtenId.asRead readNumber ∧ params = writtenParams.asRead readNumber ∧
        (id = writtenId ↔ ∀ n ∈ writtenId.numbers, readNumber n = some n) ∧
        ∀ reply, Json.read readNumber (jsonrpcResponse id (resultOf hooks method params)) = some reply →
          reply.get "id" = some (id.asRead readNumber) ∧
          ((∀ n ∈ writtenId.numbers, readNumber n = some n) → reply.get "id" = some writtenId) ∧
          ((reply.get "result").isSome ↔ ¬ (reply.get "error").isSome)) ∧
    ((∀ id method params, ¬ IsRequest readNumber text id method params) →
      (handleText readNumber hooks text).calls = []) := by
  refine ⟨⟨fun hanswered => ?_, ?_⟩, ?_, ?_⟩
  · by_contra hnone
    have hother := handleText_other hooks fun id method params h => hnone ⟨id, method, params, h⟩
    rw [hother] at hanswered
    cases hanswered
  · rintro ⟨id, method, params, h⟩
    rw [handleText_request hooks h]
    rfl
  · intro id method params h
    rw [handleText_request hooks h]
    obtain ⟨writtenId, writtenParams, hwritten, rfl, hparams, hcanonical, hdepth, hrange⟩ := h.written
    obtain ⟨hparsed, hechoes⟩ := @read_jsonrpcResponse readNumber _ (resultOf hooks method params)
      (collapse_asRead hcanonical) (by rwa [Json.nesting_asRead]) (Json.inRange_asRead hreads.again hrange)
      (inRange_resultOf hreads hhooks method params)
    refine ⟨rfl, rfl, hparsed, writtenId, writtenParams, hwritten, rfl, hparams, Json.asRead_eq_self_iff hrange, ?_⟩
    intro reply hreply
    obtain ⟨hid, hone⟩ := hechoes reply hreply
    refine ⟨hid, fun hkept => ?_, hone⟩
    rw [hid, Json.asRead_of_kept hkept, Json.asRead_of_kept hkept]
  · intro h
    rw [handleText_other hooks h]

/-- A call of `initialize`. -/
def initializeFrame : List Char := "\x7b\"id\":1,\"method\":\"initialize\"\x7d".toList

/-- Arrays in arrays. -/
def nested : Nat → Json
  | 0 => .null
  | n + 1 => .array [nested n]

theorem nesting_nested (n : Nat) : (nested n).nesting = n := by
  induction n with
  | zero => rfl
  | succ n ih => simp [nested, Json.nesting, Json.nestingElems, ih]

/-- An operator whose boot value is nested as deep as a text may be. -/
def deepHooks : Hooks := ⟨.ok (nested Json.maxNesting), .ok .null, fun _ => .ok .null, .ok true, fun _ => .ok ()⟩

theorem deepHooks_inRange : HooksInRange some deepHooks where
  boot v _ := Json.inRange_some v
  toolsList v _ := Json.inRange_some v
  toolsCall _ v _ := Json.inRange_some v

theorem reads_some : Reads some where
  integers _ _ _ := rfl
  again _ _ _ := rfl

theorem isRequest_initializeFrame :
    ∃ id params, IsRequest some initializeFrame id Methods.initializeAgent params := by
  have hmethod : methodOf some initializeFrame = some Methods.initializeAgent := by decide +kernel
  have hid : ((Json.read some initializeFrame).bind fun parsed => parsed.get "id").isSome = true := by
    decide +kernel
  obtain ⟨parsed, hread, hget⟩ := Option.bind_eq_some_iff.mp hmethod
  rw [hread, Option.bind_some] at hid
  obtain ⟨id, hid⟩ := Option.isSome_iff_exists.mp hid
  exact ⟨id, _, parsed, hread, hid, hget, by decide, rfl⟩

def plainHooks : Hooks := ⟨.ok .null, .ok .null, fun _ => .ok .null, .ok true, fun _ => .ok ()⟩

theorem plainHooks_inRange : HooksInRange some plainHooks where
  boot v _ := Json.inRange_some v
  toolsList v _ := Json.inRange_some v
  toolsCall _ v _ := Json.inRange_some v

theorem handleText_answers_initialize :
    ∃ id params writtenId writtenParams, IsRequest some initializeFrame id Methods.initializeAgent params ∧
      Written initializeFrame writtenId writtenParams ∧ id = writtenId ∧
      (handleText some plainHooks initializeFrame).calls = [.boot] ∧
      ∃ reply, Json.read some (jsonrpcResponse id (resultOf plainHooks Methods.initializeAgent params)) = some reply ∧
        reply.get "id" = some writtenId := by
  obtain ⟨id, params, hrequest⟩ := isRequest_initializeFrame
  obtain ⟨-, hanswers, -⟩ := @handleText_answers some reads_some plainHooks plainHooks_inRange initializeFrame
  obtain ⟨hcalls, -, hparsed, writtenId, writtenParams, hwritten, -, -, hsame, hreplies⟩ :=
    hanswers id Methods.initializeAgent params hrequest
  have hshallow : ∀ v, resultOf plainHooks Methods.initializeAgent params = .ok v → v.nesting < Json.maxNesting := by
    intro v hv
    rw [← Except.ok.inj (hv : Except.ok Json.null = .ok v)]
    decide
  obtain ⟨reply, hread⟩ := hparsed.mpr hshallow
  exact ⟨id, params, writtenId, writtenParams, hrequest, hwritten, hsame.mpr fun _ _ => rfl, hcalls, reply, hread,
    (hreplies reply hread).2.1 fun _ _ => rfl⟩

/-- A hundred with an exponent, and as a double is printed. -/
def hundred : Json.Number := ⟨['1', 'e', '2'], by decide⟩

def hundredRead : Json.Number := ⟨['1', '0', '0', '.', '0'], by decide⟩

/-- Every number is read as it is, but for a hundred with an exponent. -/
def readHundred (n : Json.Number) : Option Json.Number := some (if n.lexeme = hundred.lexeme then hundredRead else n)

theorem reads_readHundred : Reads readHundred where
  integers i _ _ := by
    have hne : (Json.Number.ofInt i).lexeme ≠ hundred.lexeme := by
      intro heq
      cases i with
      | ofNat n =>
          have hdigit := @Json.Number.isDigit_of_mem_toDigits n 'e' (by
            rw [show Nat.toDigits 10 n = hundred.lexeme from heq]
            decide)
          revert hdigit
          decide
      | negSucc n => exact absurd (List.cons.inj heq).1 (by decide)
    rw [readHundred, if_neg hne]
  again _ _ _ := rfl

/-- The response to `initialize` cannot be parsed where the boot value is nested too deep, and an id that is a hundred
with an exponent comes back in another spelling. -/
theorem deep_result_unparsed :
    (¬ ∀ (readNumber : Json.Number → Option Json.Number) (hooks : Hooks) (text response : List Char),
      Reads readNumber → HooksInRange readNumber hooks → (handleText readNumber hooks text).value = some response →
        ∃ reply, Json.read readNumber response = some reply) ∧
    Reads readHundred ∧
    (handleText readHundred plainHooks "\x7b\"id\":1e2,\"method\":\"initialize\"\x7d".toList).value =
      some "\x7b\"id\":100.0,\"jsonrpc\":\"2.0\",\"result\":null\x7d".toList := by
  refine ⟨fun h => ?_, reads_readHundred, by decide +kernel⟩
  obtain ⟨id, params, hrequest⟩ := isRequest_initializeFrame
  have hvalue := congrArg Asked.value (handleText_request deepHooks hrequest)
  have hparsed := h some deepHooks initializeFrame _ reads_some deepHooks_inRange hvalue
  obtain ⟨writtenId, writtenParams, -, rfl, -, hcanonical, hdepth, hrange⟩ := hrequest.written
  have hshallow := (@read_jsonrpcResponse some _ (resultOf deepHooks Methods.initializeAgent params)
    (collapse_asRead hcanonical) (by rwa [Json.nesting_asRead]) (Json.inRange_some _)
    (inRange_resultOf reads_some deepHooks_inRange Methods.initializeAgent params)).1.mp hparsed
  have hlt := hshallow (nested Json.maxNesting) rfl
  rw [nesting_nested] at hlt
  exact absurd hlt (lt_irrefl _)

end Dispatch

end Overacp
