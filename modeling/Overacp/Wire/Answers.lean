import Overacp.Wire.Exchange

/-!
# Requests and their answers, end to end

No response says anything the client looks at to tell which request it answers, and none has to: across the
bridge and the tunnel, whatever else is in flight, each request returns what its own hook answered to it, as long as
the tunnel stays up and what is pushed can be read.
-/

namespace Overacp

namespace Exchange

variable {readNumber : Json.Number → Option Json.Number}

/-! ### What the server makes of a request -/

theorem answer_eq_none_iff (hreads : Dispatch.Reads readNumber) {hooks : Hooks} {req : JsonRpcRequest}
    (hid : req.id < 2 ^ 64) : answer readNumber hooks req = none ↔ ¬ req.Readable readNumber := by
  rw [answer_eq hreads hooks hid]
  split_ifs with h
  · exact iff_of_false nofun fun hnot => hnot h
  · exact iff_of_true rfl h

theorem readable_of_answer (hreads : Dispatch.Reads readNumber) {hooks : Hooks} {req : JsonRpcRequest}
    (hid : req.id < 2 ^ 64) {text : List Char} (h : answer readNumber hooks req = some text) :
    req.Readable readNumber := by
  by_contra hnot
  rw [(answer_eq_none_iff hreads hid).mpr hnot] at h
  cases h

/-- What the client makes of an answer is what it makes of what the hook returned. -/
theorem receive_answer (hreads : Dispatch.Reads readNumber) {hooks : Hooks}
    (hhooks : Dispatch.HooksInRange readNumber hooks) {req : JsonRpcRequest} (hid : req.id < 2 ^ 64) {text : List Char}
    (h : answer readNumber hooks req = some text) : AcpClient.receive readNumber (text ++ ['\n']) = some
      (AcpClient.outcome readNumber (Dispatch.resultOf hooks req.request.method (req.params readNumber))) := by
  have hreadable := readable_of_answer hreads hid h
  rw [answer_eq hreads hooks hid, if_pos hreadable] at h
  cases h
  exact AcpClient.receive_response (carried hreads hhooks hid)

variable (readNumber) in
/-- The hook that a request asks, with its parameters as the server reads them; none where it cannot be read. -/
def hookOf (req : JsonRpcRequest) : List Dispatch.HookCall :=
  if req.Readable readNumber then Dispatch.ownHook req.request.method (req.params readNumber) else []

theorem calls_eq (hreads : Dispatch.Reads readNumber) (hooks : Hooks) {req : JsonRpcRequest} (hid : req.id < 2 ^ 64) :
    (Dispatch.handleText readNumber hooks req.line).calls = hookOf readNumber req := by
  rw [JsonRpcRequest.handleText_line hreads hooks hid, hookOf]
  split_ifs <;> rfl

/-! ### Each request and its own answer -/

variable (readNumber) in
/-- A request that the server could read returned what its hook answered when it was read, as the client reads it. -/
structure ReturnedOwn (r : JsonRpcRequest × Except String Json) (m : JsonRpcRequest × Hooks) : Prop where
  request : m.1 = r.1
  readable : m.1.Readable readNumber
  result : r.2 = AcpClient.outcome readNumber (Dispatch.resultOf m.2 m.1.request.method (m.1.params readNumber))

theorem Represents.returnedOwn (hreads : Dispatch.Reads readNumber) {w : Exchange} {a : Ends}
    (h : Represents readNumber w a) {done pending : List (JsonRpcRequest × Hooks)}
    (hserved : Rpc.served a.arrived = done ++ pending)
    (hdone : List.Forall₂ (fun (r : JsonRpcRequest × List Char) (m : JsonRpcRequest × Hooks) =>
      m.1 = r.1 ∧ answer readNumber m.2 m.1 = some r.2) a.returned done) :
    List.Forall₂ (ReturnedOwn readNumber) w.returned done := by
  have hlines : ∀ m ∈ done, m.1.id < 2 ^ 64 ∧ Dispatch.HooksInRange readNumber m.2 := fun m hm =>
    h.arrivedLine _ (Rpc.mem_served (hserved ▸ List.mem_append_left pending hm))
  have hreceived : List.Forall₂ (fun (r : JsonRpcRequest × Option (Except String Json)) (m : JsonRpcRequest × Hooks) =>
      m.1 = r.1 ∧ m.1.Readable readNumber ∧ r.2 = some (AcpClient.outcome readNumber
        (Dispatch.resultOf m.2 m.1.request.method (m.1.params readNumber))))
        (a.returned.map fun r => (r.1, AcpClient.receive readNumber (r.2 ++ ['\n']))) done := by
    rw [List.forall₂_map_left_iff]
    refine List.Forall₂.flip (((List.forall₂_and_left _ _).mpr ⟨hlines, hdone.flip⟩).imp ?_)
    rintro m r ⟨⟨hid, hhooks⟩, hown, hanswer⟩
    exact ⟨hown, readable_of_answer hreads hid hanswer, receive_answer hreads hhooks hid hanswer⟩
  rw [← h.returned, List.forall₂_map_left_iff] at hreceived
  exact hreceived.imp fun r m ⟨hown, hreadable, hresult⟩ => ⟨hown, hreadable, Option.some.inj hresult⟩

theorem Represents.asked_eq (hreads : Dispatch.Reads readNumber) {w : Exchange} {a : Ends}
    (h : Represents readNumber w a) :
    w.asked = (Rpc.served a.arrived).flatMap fun m => hookOf readNumber m.1 := by
  rw [h.asked]
  exact List.flatMap_congr fun m hm => calls_eq hreads m.2 (h.arrivedLine _ (Rpc.mem_served hm)).1

/-- In every interleaving of the loop, the bridge, the server and the operator, the requests that the server has read
are those that returned, each once and in their order, and at most one more, which waits. Each asked its own hook
once, unless it could not be read, and the returned ones returned what their hook answered then. -/
theorem requests_return_own (hreads : Dispatch.Reads readNumber) {events : List Event}
    (hfair : ∀ e ∈ events, e.Fair readNumber) {w : Exchange}
    (hrun : (system readNumber).run (system readNumber).init events = some w) :
    ∃ (arrived : List (Rpc.Up JsonRpcRequest (List Char) × Hooks)) (done opened : List (JsonRpcRequest × Hooks)),
      w.heard = arrived.map (fun m => (upText m.1, m.2)) ∧
        (arrived.map Prod.fst).filterMap notice? <+: w.notified ∧
        Rpc.served arrived = done ++ opened ∧
        List.Forall₂ (ReturnedOwn readNumber) w.returned done ∧
        opened.length ≤ 1 ∧ (∀ m ∈ opened, w.waiting = some m.1) ∧
        w.asked = (done ++ opened).flatMap fun m => hookOf readNumber m.1 := by
  obtain ⟨-, a, -, hrepresents, done, opened, hserved, hdone, hphase⟩ :=
    run_represented hreads hfair represents_init Rpc.Paired.start hrun
  rw [hrepresents.waiting] at hphase
  obtain ⟨hlength, hwaiting⟩ := hphase.opened
  refine ⟨a.arrived, done, opened, hrepresents.heard, ?_, hserved, hrepresents.returnedOwn hreads hserved hdone,
    hlength, hwaiting, ?_⟩
  · have hnotified := hrepresents.notified
    rw [Rpc.State.sent, List.filterMap_append] at hnotified
    exact ⟨_, hnotified.symm⟩
  · rw [hrepresents.asked_eq hreads, hserved]

/-- A quota check that is refused, from one end to the other and back. -/
def refused : List Event :=
  [.request .quotaCheck, .stdoutToWs, .readText ⟨.ok .null, .ok .null, fun _ => .ok .null, .ok false, fun _ => .ok ()⟩,
    .wsToStdin, .readResponse]

theorem fair_refused : ∀ e ∈ refused, e.Fair some := by
  intro e he
  simp only [refused, List.mem_cons, List.not_mem_nil, or_false] at he
  rcases he with rfl | rfl | rfl | rfl | rfl
  · trivial
  · trivial
  · exact ⟨fun v _ => Json.inRange_some v, fun v _ => Json.inRange_some v, fun _ v _ => Json.inRange_some v⟩
  · trivial
  · trivial

theorem requests_return_own_refused :
    ∃ w, (system some).run (system some).init refused = some w ∧ w.returned.length = 1 ∧
      ∃ (arrived : List (Rpc.Up JsonRpcRequest (List Char) × Hooks)) (done opened : List (JsonRpcRequest × Hooks)),
        w.heard = arrived.map (fun m => (upText m.1, m.2)) ∧
          (arrived.map Prod.fst).filterMap notice? <+: w.notified ∧
          Rpc.served arrived = done ++ opened ∧
          List.Forall₂ (ReturnedOwn some) w.returned done ∧
          opened.length ≤ 1 ∧ (∀ m ∈ opened, w.waiting = some m.1) ∧
          w.asked = (done ++ opened).flatMap fun m => hookOf some m.1 := by
  have hrun : ((system some).run (system some).init refused).map (fun w => w.returned.length) =
      some 1 := by decide +kernel
  obtain ⟨w, hw, hreturned⟩ := Option.map_eq_some_iff.mp hrun
  exact ⟨w, hw, hreturned, requests_return_own Dispatch.reads_some fair_refused hw⟩

end Exchange

end Overacp
