import Overacp.Lib.Rpc
import Overacp.Loop.Outbound

/-!
# The loop, its bridge and the server together

The whole way of a message: the loop's pipes, the bridge at both of them, the frames of the tunnel and the read
loop of the server, with whatever the operator pushes in between. Seen from the ends it is one call at a time
over two queues.
-/

namespace Overacp

/-- The client and its pipes, the frames in flight each way, and what has come of everything so far. Frames to
the agent go through a channel and the socket, which keep their order, and count as one queue. Once the bridge
has exited nothing is written to the child any more, and its standard input has an end. -/
structure Exchange where
  requestId : Nat
  waiting : Option JsonRpcRequest
  pendingNotifications : List (List Char)
  stdout : List UInt8
  wsUp : List (List Char)
  wsDown : List (List Char)
  stdin : List UInt8
  returned : List (JsonRpcRequest × Except String Json)
  heard : List (List Char × Hooks)
  asked : List Dispatch.HookCall
  answered : List (List Char)
  published : List (List Char)
  notified : List (List Char)
  pushed : List (List Char)
  taken : List (List Char)
  exited : Bool

namespace Exchange

/-- Steps of the loop, of the bridge, of the server with its hooks as they are then, and of the operator. The bridge
exits when the tunnel is closed or fails, with so many bytes of the frame written that it is about to write. -/
inductive Event where
  | request (request : Request)
  | notify (notification : Notification)
  | readResponse
  | nextPush
  | stdoutToWs
  | readText (hooks : Hooks)
  | push (frame : List Char)
  | wsToStdin
  | bridgeExit (written : Nat)

/-- The next read of a pipe. A reader waits until there is a whole line, or is given what is left at the end. -/
def nextRead (ended : Bool) (pipe : List UInt8) : Option (Except String (List Char) × List UInt8) :=
  if 0x0A ∈ pipe ∨ ended = true then some (Bridge.readLine pipe) else none

/-- The line of a read that `recv_notification` goes on with: an empty one is the end of the input. -/
def received : Except String (List Char) → List (List Char)
  | .ok [] => []
  | .ok line => [line]
  | .error _ => []

variable (readNumber : Json.Number → Option Json.Number)

/-- The loop is one thread: while a request waits it does nothing else. -/
def step (w : Exchange) : Event → Option Exchange
  | .request request =>
      if w.waiting = none then
        let req : JsonRpcRequest := ⟨w.requestId, request⟩
        some { w with
          requestId := (w.requestId + 1) % 2 ^ 64, waiting := some req
          stdout := w.stdout ++ Utf8.encode (req.line ++ ['\n']) }
      else none
  | .notify notification =>
      if w.waiting = none then
        match notification.value with
        | .error _ => some w
        | .ok v =>
            some { w with
              stdout := w.stdout ++ Utf8.encode (v.print ++ ['\n']), notified := w.notified ++ [v.print] }
      else none
  | .readResponse =>
      w.waiting.bind fun req =>
        (nextRead w.exited w.stdin).map fun (read, stdin) =>
          match read with
          | .error _ =>
              { w with stdin := stdin, waiting := none, returned := w.returned ++ [(req, .error "read response")] }
          | .ok buf =>
              match AcpClient.receive readNumber buf with
              | none => { w with stdin := stdin, pendingNotifications := w.pendingNotifications ++ [buf] }
              | some result => { w with stdin := stdin, waiting := none, returned := w.returned ++ [(req, result)] }
  | .nextPush =>
      if w.waiting = none then
        match w.pendingNotifications with
        | buf :: pending => some { w with pendingNotifications := pending, taken := w.taken ++ [buf] }
        | [] =>
            (nextRead w.exited w.stdin).map fun (read, stdin) =>
              { w with stdin := stdin, taken := w.taken ++ received read }
      else none
  | .stdoutToWs =>
      if w.exited = true then none
      else (nextRead false w.stdout).bind fun (read, stdout) =>
        read.toOption.map fun line => { w with stdout := stdout, wsUp := w.wsUp ++ [Bridge.trimEnd line] }
  | .readText hooks =>
      match w.wsUp with
      | [] => none
      | text :: wsUp =>
          let handled := Dispatch.handleText readNumber hooks text
          some { w with
            wsUp := wsUp, wsDown := w.wsDown ++ handled.value.toList
            heard := w.heard ++ [(text, hooks)], asked := w.asked ++ handled.calls
            answered := w.answered ++ handled.value.toList
            published := w.published ++ (if Dispatch.fansOut text then [text] else []) }
  | .push frame => some { w with wsDown := w.wsDown ++ [frame], pushed := w.pushed ++ [frame] }
  | .wsToStdin =>
      if w.exited = true then none
      else match w.wsDown with
        | [] => none
        | frame :: wsDown => some { w with wsDown := wsDown, stdin := (Bridge.writeFrame Bridge.pipe w.stdin frame).2 }
  | .bridgeExit written =>
      if w.exited = true then none
      else
        let begun := (w.wsDown.head?.map fun frame => (Bridge.writeFrame Bridge.pipe [] frame).2.take written).getD []
        some { w with exited := true, stdin := w.stdin ++ begun, wsDown := w.wsDown.tail }

def system : Transition.System Exchange Event where
  init := ⟨1, none, [], [], [], [], [], [], [], [], [], [], [], [], [], false⟩
  step := step readNumber

/-- What the loop finds where a frame was pushed. -/
def pushLine (frame : List Char) : List Char := Bridge.body frame ++ ['\n']

/-- What the operator pushes is one line, and a notification. -/
def IsPush (frame : List Char) : Prop :=
  '\n' ∉ Bridge.body frame ∧ AcpClient.NotificationLine readNumber (pushLine frame)

/-- The tunnel stays up, and what the operator answers and pushes can be read. -/
def Event.Fair : Event → Prop
  | .readText hooks => Dispatch.HooksInRange readNumber hooks
  | .push frame => IsPush readNumber frame
  | .bridgeExit _ => False
  | _ => True

/-! ### Pipes -/

/-- Texts on lines of their own. -/
def lines (texts : List (List Char)) : List Char := texts.flatMap fun text => text ++ ['\n']

theorem lines_concat (texts : List (List Char)) (text : List Char) :
    lines (texts ++ [text]) = lines texts ++ (text ++ ['\n']) := by
  rw [lines, List.flatMap_append, List.flatMap_singleton, ← lines]

theorem encode_lines_concat (texts : List (List Char)) (text : List Char) :
    Utf8.encode (lines (texts ++ [text])) = Utf8.encode (lines texts) ++ Utf8.encode (text ++ ['\n']) := by
  rw [lines_concat, Utf8.encode_append]

theorem nextRead_nil : nextRead false (Utf8.encode (lines [])) = none := rfl

theorem nextRead_cons {text : List Char} (htext : '\n' ∉ text) (texts : List (List Char)) :
    nextRead false (Utf8.encode (lines (text :: texts))) = some (.ok (text ++ ['\n']), Utf8.encode (lines texts)) := by
  have hlines : lines (text :: texts) = text ++ '\n' :: lines texts := by
    rw [lines, List.flatMap_cons, ← lines, List.append_assoc, List.singleton_append]
  have hmem : 0x0A ∈ Utf8.encode (text ++ '\n' :: lines texts) := by
    rw [Utf8.encode_append]
    exact List.mem_append_right _ List.mem_cons_self
  rw [hlines, nextRead, if_pos (.inl hmem), Bridge.readLine_encode, AcpClient.readLine_append htext]

theorem received_line (text : List Char) : received (.ok (text ++ ['\n'])) = [text ++ ['\n']] := by
  cases text <;> rfl

/-! ### One call at a time -/

/-- The exchange as its ends see it: calls and notices up, answers and pushes down. -/
abbrev Ends := Rpc.State JsonRpcRequest (List Char) Hooks (List Char) (List Char)

/-- What the server answers to a request; a request it cannot read is dropped. -/
def answer (hooks : Hooks) (req : JsonRpcRequest) : Option (List Char) :=
  (Dispatch.handleText readNumber hooks req.line).value

def upText : Rpc.Up JsonRpcRequest (List Char) → List Char
  | .call req => req.line
  | .notice text => text

def downText : Rpc.Down (List Char) (List Char) → List Char
  | .answer text => text
  | .push frame => frame

def notice? : Rpc.Up JsonRpcRequest (List Char) → Option (List Char)
  | .call _ => none
  | .notice text => some text

def push? : Rpc.Down (List Char) (List Char) → Option (List Char)
  | .answer _ => none
  | .push frame => some frame

/-- What goes up is a request with an id of 64 bits or a notification. -/
def UpLine : Rpc.Up JsonRpcRequest (List Char) → Prop
  | .call req => req.id < 2 ^ 64
  | .notice text => ∃ (notification : Notification) (v : Json), notification.value = .ok v ∧ text = v.print

/-- What comes down is a response, which ends a wait, or a push. -/
def DownLine : Rpc.Down (List Char) (List Char) → Prop
  | .answer text => OneLine text ∧ ∃ result, AcpClient.receive readNumber (text ++ ['\n']) = some result
  | .push frame => IsPush readNumber frame

/-- The messages of the two ends are in the pipes and on the tunnel, and what became of the others was recorded. -/
structure Represents (w : Exchange) (a : Ends) : Prop where
  up : ∃ written sent, a.up = sent ++ written ∧ w.stdout = Utf8.encode (lines (written.map upText)) ∧
    w.wsUp = sent.map upText
  upLine : ∀ m ∈ a.up, UpLine m
  arrivedLine : ∀ m ∈ a.arrived, UpLine m.1 ∧ Dispatch.HooksInRange readNumber m.2
  down : ∃ written sent, a.down = written ++ sent ∧
    w.stdin = Utf8.encode (lines (written.map fun m => Bridge.body (downText m))) ∧ w.wsDown = sent.map downText
  downLine : ∀ m ∈ a.down, DownLine readNumber m
  waiting : a.waiting = w.waiting
  waitingId : ∀ req, w.waiting = some req → req.id < 2 ^ 64
  requestId : w.requestId < 2 ^ 64
  returned : w.returned.map (fun r => (r.1, some r.2)) =
    a.returned.map fun r => (r.1, AcpClient.receive readNumber (r.2 ++ ['\n']))
  heard : w.heard = a.arrived.map fun m => (upText m.1, m.2)
  asked : w.asked = (Rpc.served a.arrived).flatMap fun m => (Dispatch.handleText readNumber m.2 m.1.line).calls
  answered : w.answered = (Rpc.served a.arrived).flatMap fun m => (answer readNumber m.2 m.1).toList
  published : w.published = (a.arrived.map fun m => upText m.1).filter Dispatch.fansOut
  notified : w.notified = a.sent.filterMap notice?
  pushed : w.pushed = a.replied.filterMap push?
  taken : w.taken ++ w.pendingNotifications = (a.received.filterMap push?).map pushLine
  exited : w.exited = false

variable {readNumber}

theorem represents_init : Represents readNumber (system readNumber).init (Rpc.system (answer readNumber)).init where
  up := ⟨[], [], rfl, rfl, rfl⟩
  upLine _ h := nomatch h
  arrivedLine _ h := nomatch h
  down := ⟨[], [], rfl, rfl, rfl⟩
  downLine _ h := nomatch h
  waiting := rfl
  waitingId _ h := nomatch h
  requestId := by show 1 < 2 ^ 64; decide
  returned := rfl
  heard := rfl
  asked := rfl
  answered := rfl
  published := rfl
  notified := rfl
  pushed := rfl
  taken := rfl
  exited := rfl

theorem UpLine.oneLine {m : Rpc.Up JsonRpcRequest (List Char)} (h : UpLine m) : OneLine (upText m) := by
  cases m with
  | call req => exact req.oneLine
  | notice text =>
      obtain ⟨notification, v, hvalue, rfl⟩ := h
      exact Notification.oneLine hvalue

theorem DownLine.newline {m : Rpc.Down (List Char) (List Char)} (h : DownLine readNumber m) :
    '\n' ∉ Bridge.body (downText m) := by
  cases m with
  | answer text => exact h.1.body.symm ▸ h.1.newline
  | push frame => exact h.1

/-- Without a whole line in its pipe and a frame on the tunnel nothing is on its way. -/
theorem Represents.up_nil {w : Exchange} {a : Ends} (h : Represents readNumber w a)
    (hstdout : nextRead false w.stdout = none) (hwsUp : w.wsUp = []) : a.up = [] := by
  obtain ⟨written, sent, hup, hpipe, hsent⟩ := h.up
  obtain rfl : sent = [] := List.map_eq_nil_iff.mp (hsent.symm.trans hwsUp)
  cases written with
  | nil => exact hup
  | cons m written =>
      rw [hpipe, List.map_cons, nextRead_cons (h.upLine m (hup ▸ by simp)).oneLine.newline] at hstdout
      cases hstdout

theorem Represents.down_nil {w : Exchange} {a : Ends} (h : Represents readNumber w a)
    (hstdin : nextRead false w.stdin = none) (hwsDown : w.wsDown = []) : a.down = [] := by
  obtain ⟨written, sent, hdown, hpipe, hsent⟩ := h.down
  obtain rfl : sent = [] := List.map_eq_nil_iff.mp (hsent.symm.trans hwsDown)
  cases written with
  | nil => exact hdown
  | cons m written =>
      rw [hpipe, List.map_cons, nextRead_cons (h.downLine m (hdown ▸ by simp)).newline] at hstdin
      cases hstdin

/-- A request with an id of 64 bits and what the hooks return are carried back. -/
theorem carried (hreads : Dispatch.Reads readNumber) {hooks : Hooks} (hhooks : Dispatch.HooksInRange readNumber hooks)
    {req : JsonRpcRequest} (hid : req.id < 2 ^ 64) : AcpClient.Carried readNumber req.id
      (Dispatch.resultOf hooks req.request.method (req.params readNumber)) where
  id_lt := hid
  id_kept := hreads.integers _ (by omega) (by exact_mod_cast hid)
  inRange := Dispatch.inRange_resultOf hreads hhooks _ _
  code _ _ hresult := Dispatch.resultOf_code hresult

theorem answer_eq (hreads : Dispatch.Reads readNumber) (hooks : Hooks) {req : JsonRpcRequest} (hid : req.id < 2 ^ 64) :
    answer readNumber hooks req = if req.Readable readNumber then
      some (Dispatch.jsonrpcResponse (Protocol.number req.id)
        (Dispatch.resultOf hooks req.request.method (req.params readNumber))) else none := by
  rw [answer, JsonRpcRequest.handleText_line hreads hooks hid]
  split_ifs <;> rfl

/-- What the server answers to a request is something the client can make use of. -/
theorem downLine_answer (hreads : Dispatch.Reads readNumber) {hooks : Hooks}
    (hhooks : Dispatch.HooksInRange readNumber hooks) {req : JsonRpcRequest} (hid : req.id < 2 ^ 64) {text : List Char}
    (h : answer readNumber hooks req = some text) : DownLine readNumber (.answer text) := by
  rw [answer_eq hreads hooks hid] at h
  split_ifs at h
  cases h
  exact ⟨oneLine_jsonrpcResponse _ _, _, AcpClient.receive_response (carried hreads hhooks hid)⟩

/-! ### Each step is a step of the ends, or none -/

section

variable {w w' : Exchange} {a : Ends}

/-- A step of the exchange is a step of the ends, or moves a message on that neither end sees. -/
def Follows (readNumber : Json.Number → Option Json.Number) (a : Ends) (w' : Exchange) : Prop :=
  ∃ es a', (Rpc.system (answer readNumber)).run a es = some a' ∧ Represents readNumber w' a'

theorem follows_none (h : Represents readNumber w' a) : Follows readNumber a w' := ⟨[], a, rfl, h⟩

theorem follows_one (e : Rpc.Event JsonRpcRequest (List Char) Hooks (List Char)) (a' : Ends)
    (hstep : Rpc.step (answer readNumber) a e = some a') (h : Represents readNumber w' a') :
    Follows readNumber a w' := by
  refine ⟨[e], a', ?_, h⟩
  rw [Transition.System.run_cons_eq_some]
  exact ⟨a', hstep, rfl⟩

/-- A message that was written is behind all the others. -/
theorem Represents.write (h : Represents readNumber w a) (m : Rpc.Up JsonRpcRequest (List Char)) :
    ∃ written sent, a.up ++ [m] = sent ++ written ∧
      w.stdout ++ Utf8.encode (upText m ++ ['\n']) = Utf8.encode (lines (written.map upText)) ∧
      w.wsUp = sent.map upText := by
  obtain ⟨written, sent, hup, hstdout, hsent⟩ := h.up
  refine ⟨written ++ [m], sent, ?_, ?_, hsent⟩
  · rw [hup, List.append_assoc]
  · rw [hstdout, List.map_append, List.map_singleton, encode_lines_concat]

theorem forall_mem_concat {α : Type} {P : α → Prop} {xs : List α} {x : α} (hxs : ∀ y ∈ xs, P y) (hx : P x) :
    ∀ y ∈ xs ++ [x], P y := by
  intro y hy
  rcases List.mem_append.mp hy with hy | hy
  · exact hxs y hy
  · exact List.mem_singleton.mp hy ▸ hx

theorem notices_concat (arrived up : List (Rpc.Up JsonRpcRequest (List Char)))
    (m : Rpc.Up JsonRpcRequest (List Char)) :
    (arrived ++ (up ++ [m])).filterMap notice? = (arrived ++ up).filterMap notice? ++ (notice? m).toList := by
  rw [← List.append_assoc, List.filterMap_append]
  cases m <;> rfl

theorem pushes_append (received down ms : List (Rpc.Down (List Char) (List Char))) :
    (received ++ (down ++ ms)).filterMap push? = (received ++ down).filterMap push? ++ ms.filterMap push? := by
  rw [← List.append_assoc, List.filterMap_append]

theorem follows_request (h : Represents readNumber w a) {request : Request}
    (hstep : step readNumber w (.request request) = some w') : Follows readNumber a w' := by
  rw [step] at hstep
  split_ifs at hstep with hidle
  cases hstep
  have hwaiting : a.waiting = none := h.waiting.trans hidle
  refine follows_one (.call ⟨w.requestId, request⟩) _ (if_pos hwaiting) { h with
    up := h.write (.call ⟨w.requestId, request⟩)
    upLine := forall_mem_concat h.upLine h.requestId
    waiting := rfl
    waitingId := fun req hreq => Option.some.inj hreq ▸ h.requestId
    requestId := Nat.mod_lt _ (by decide)
    notified := ?_ }
  rw [Rpc.State.sent, notices_concat]
  exact h.notified.trans (List.append_nil _).symm

theorem follows_notify (h : Represents readNumber w a) {notification : Notification}
    (hstep : step readNumber w (.notify notification) = some w') : Follows readNumber a w' := by
  rw [step] at hstep
  split_ifs at hstep with hidle
  cases hvalue : notification.value with
  | error e =>
      rw [hvalue] at hstep
      cases hstep
      exact follows_none h
  | ok v =>
      rw [hvalue] at hstep
      cases hstep
      have hwaiting : a.waiting = none := h.waiting.trans hidle
      refine follows_one (.notice v.print) _ (if_pos hwaiting) { h with
        up := h.write (.notice v.print)
        upLine := forall_mem_concat h.upLine ⟨notification, v, hvalue, rfl⟩
        notified := ?_ }
      rw [Rpc.State.sent, notices_concat]
      exact congrArg (· ++ [v.print]) h.notified

theorem follows_stdoutToWs (h : Represents readNumber w a) (hstep : step readNumber w .stdoutToWs = some w') :
    Follows readNumber a w' := by
  obtain ⟨written, sent, hup, hstdout, hsent⟩ := h.up
  rw [step, if_neg (by simp [h.exited])] at hstep
  obtain ⟨⟨read, stdout⟩, hline, hread⟩ := Option.bind_eq_some_iff.mp hstep
  cases written with
  | nil =>
      rw [hstdout, List.map_nil, nextRead_nil] at hline
      cases hline
  | cons m written =>
      have hone := (h.upLine m (hup ▸ by simp)).oneLine
      rw [hstdout, List.map_cons, nextRead_cons hone.newline] at hline
      cases hline
      cases hread
      refine follows_none { h with up := ⟨written, sent ++ [m], ?_, rfl, ?_⟩ }
      · rw [hup, List.append_assoc, List.singleton_append]
      · dsimp only
        rw [hsent, hone.trimEnd, List.map_append, List.map_singleton]

theorem follows_wsToStdin (h : Represents readNumber w a) (hstep : step readNumber w .wsToStdin = some w') :
    Follows readNumber a w' := by
  obtain ⟨written, sent, hdown, hstdin, hsent⟩ := h.down
  rw [step, if_neg (by simp [h.exited])] at hstep
  cases sent with
  | nil =>
      rw [hsent] at hstep
      cases hstep
  | cons m sent =>
      rw [hsent] at hstep
      cases hstep
      refine follows_none { h with down := ⟨written ++ [m], sent, ?_, ?_, rfl⟩ }
      · rw [hdown, List.append_assoc, List.singleton_append]
      · rw [Bridge.writeFrame_pipe, hstdin, List.map_append, List.map_singleton, encode_lines_concat]

theorem follows_push (h : Represents readNumber w a) {frame : List Char} (hpush : IsPush readNumber frame)
    (hstep : step readNumber w (.push frame) = some w') : Follows readNumber a w' := by
  cases hstep
  obtain ⟨written, sent, hdown, hstdin, hsent⟩ := h.down
  refine follows_one (.push frame) _ rfl { h with
    down := ⟨written, sent ++ [.push frame], ?_, hstdin, ?_⟩
    downLine := forall_mem_concat h.downLine hpush
    pushed := ?_ }
  · rw [hdown, List.append_assoc]
  · rw [hsent, List.map_append, List.map_singleton]
    rfl
  · rw [Rpc.State.replied, pushes_append]
    exact congrArg (· ++ [frame]) h.pushed

/-- What is read next comes from the front of what is on its way down. -/
theorem Represents.read (h : Represents readNumber w a) {read : Except String (List Char)} {stdin : List UInt8}
    (hline : nextRead w.exited w.stdin = some (read, stdin)) :
    ∃ m down, a.down = m :: down ∧ read = .ok (Bridge.body (downText m) ++ ['\n']) ∧
      ∃ written sent, down = written ++ sent ∧
        stdin = Utf8.encode (lines (written.map fun m => Bridge.body (downText m))) ∧
        w.wsDown = sent.map downText := by
  obtain ⟨written, sent, hdown, hstdin, hsent⟩ := h.down
  rw [h.exited] at hline
  cases written with
  | nil =>
      rw [hstdin, List.map_nil, nextRead_nil] at hline
      cases hline
  | cons m written =>
      have hnewline := (h.downLine m (hdown ▸ by simp)).newline
      rw [hstdin, List.map_cons, nextRead_cons hnewline] at hline
      cases hline
      exact ⟨m, written ++ sent, by rw [hdown, List.cons_append], rfl, written, sent, rfl, rfl, hsent⟩

theorem Represents.downLine_tail (h : Represents readNumber w a) {m : Rpc.Down (List Char) (List Char)}
    {down : List (Rpc.Down (List Char) (List Char))} (hdown : a.down = m :: down) :
    ∀ m' ∈ down, DownLine readNumber m' :=
  fun m' hm' => h.downLine m' (hdown ▸ List.mem_cons_of_mem m hm')

/-- A push is set aside or taken, and is the next one in either case. -/
theorem taken_push {received : List (Rpc.Down (List Char) (List Char))} {taken : List (List Char)}
    (h : taken = (received.filterMap push?).map pushLine) (frame : List Char) :
    taken ++ [pushLine frame] = ((received ++ [Rpc.Down.push frame]).filterMap push?).map pushLine := by
  rw [h, List.filterMap_append, List.map_append]
  rfl

theorem follows_readResponse (h : Represents readNumber w a) (hstep : step readNumber w .readResponse = some w') :
    Follows readNumber a w' := by
  obtain ⟨req, hreq, hread⟩ := Option.bind_eq_some_iff.mp hstep
  obtain ⟨⟨read, stdin⟩, hline, rfl⟩ := Option.map_eq_some_iff.mp hread
  obtain ⟨m, down, hdown, rfl, hqueue⟩ := h.read hline
  have hm := h.downLine m (hdown ▸ List.mem_cons_self)
  have hreplied (received : List (Rpc.Down (List Char) (List Char))) :
      received ++ m :: down = received ++ [m] ++ down := (List.append_cons received m down)
  cases m with
  | push frame =>
      have hnone : AcpClient.receive readNumber (Bridge.body (downText (.push frame)) ++ ['\n']) = none :=
        AcpClient.receive_notification hm.2
      dsimp only
      rw [hnone]
      refine follows_one .receive
        { a with down := down, received := a.received ++ [.push frame] } (by rw [Rpc.step, hdown]) { h with
        down := hqueue
        downLine := h.downLine_tail hdown
        pushed := by rw [h.pushed, Rpc.State.replied, Rpc.State.replied, hdown, hreplied]
        taken := ?_ }
      rw [← List.append_assoc]
      exact taken_push h.taken frame
  | answer text =>
      obtain ⟨hone, result, hresult⟩ := hm
      have hsome : AcpClient.receive readNumber (Bridge.body (downText (.answer text)) ++ ['\n']) = some result := by
        rw [downText, hone.body]
        exact hresult
      dsimp only
      rw [hsome]
      have hwaiting : a.waiting = some req := h.waiting.trans hreq
      refine follows_one .receive
        { a with
          down := down, waiting := none, received := a.received ++ [.answer text]
          returned := a.returned ++ [(req, text)] } (by rw [Rpc.step, hdown, hwaiting]; rfl) { h with
        down := hqueue
        downLine := h.downLine_tail hdown
        waiting := rfl
        waitingId := fun req hreq => absurd hreq (Option.some_ne_none req).symm
        returned := ?_
        pushed := by rw [h.pushed, Rpc.State.replied, Rpc.State.replied, hdown, hreplied]
        taken := ?_ }
      · dsimp only
        rw [List.map_append, List.map_append, h.returned, List.map_singleton, List.map_singleton, hresult]
      · dsimp only
        rw [h.taken, List.filterMap_append]
        exact congrArg (List.map pushLine) (List.append_nil _).symm

theorem follows_nextPush (h : Represents readNumber w a) (hpaired : Rpc.Paired (answer readNumber) a)
    (hstep : step readNumber w .nextPush = some w') : Follows readNumber a w' := by
  rw [step] at hstep
  split_ifs at hstep with hidle
  have htaken := h.taken
  cases hpending : w.pendingNotifications with
  | cons buf pending =>
      rw [hpending] at hstep htaken
      cases hstep
      refine follows_none { h with taken := ?_ }
      dsimp only
      rw [List.append_assoc]
      exact htaken
  | nil =>
      rw [hpending] at hstep htaken
      obtain ⟨⟨read, stdin⟩, hline, rfl⟩ := Option.map_eq_some_iff.mp hstep
      obtain ⟨m, down, hdown, rfl, hqueue⟩ := h.read hline
      cases m with
      | answer text =>
          -- nobody waits, so no answer is in flight
          have hnone := (hpaired.answers_of_idle (h.waiting.trans hidle)).2
          rw [hdown] at hnone
          cases hnone
      | push frame =>
          refine follows_one .receive
            { a with down := down, received := a.received ++ [.push frame] } (by rw [Rpc.step, hdown]) { h with
            down := hqueue
            downLine := h.downLine_tail hdown
            pushed := by
              rw [h.pushed, Rpc.State.replied, Rpc.State.replied, hdown, List.append_cons]
            taken := ?_ }
          rw [List.append_nil] at htaken ⊢
          dsimp only
          rw [received_line]
          exact taken_push htaken frame

/-- A message has been read, with so many hooks asked and so many answers on their way down. -/
theorem Represents.serve (h : Represents readNumber w a) {m : Rpc.Up JsonRpcRequest (List Char)}
    {written sent : List (Rpc.Up JsonRpcRequest (List Char))} (hup : a.up = m :: (sent ++ written))
    (hstdout : w.stdout = Utf8.encode (lines (written.map upText))) {hooks : Hooks}
    (hhooks : Dispatch.HooksInRange readNumber hooks) {calls : List Dispatch.HookCall} {answers : List (List Char)}
    (hanswers : ∀ text ∈ answers, DownLine readNumber (.answer text))
    (hasked : ((Rpc.served [(m, hooks)]).flatMap fun m => (Dispatch.handleText readNumber m.2 m.1.line).calls) = calls)
    (hanswered : ((Rpc.served [(m, hooks)]).flatMap fun m => (answer readNumber m.2 m.1).toList) = answers) :
    Represents readNumber
      { w with
        wsUp := sent.map upText, wsDown := w.wsDown ++ answers
        heard := w.heard ++ [(upText m, hooks)], asked := w.asked ++ calls, answered := w.answered ++ answers
        published := w.published ++ (if Dispatch.fansOut (upText m) = true then [upText m] else []) }
      { a with
        up := sent ++ written, arrived := a.arrived ++ [(m, hooks)], down := a.down ++ answers.map .answer } := by
  obtain ⟨received, forwarded, hdown, hstdin, hforwarded⟩ := h.down
  refine { h with
    up := ⟨written, sent, rfl, hstdout, rfl⟩
    upLine := fun m' hm' => h.upLine m' (hup ▸ List.mem_cons_of_mem m hm')
    arrivedLine := forall_mem_concat h.arrivedLine ⟨h.upLine m (hup ▸ List.mem_cons_self), hhooks⟩
    down := ⟨received, forwarded ++ answers.map .answer, ?_, hstdin, ?_⟩
    downLine := ?_
    heard := ?_
    asked := ?_
    answered := ?_
    published := ?_
    notified := ?_
    pushed := ?_ }
  · dsimp only
    rw [hdown, List.append_assoc]
  · dsimp only
    rw [hforwarded, List.map_append, List.map_map]
    exact congrArg _ (List.map_id _).symm
  · intro m' hm'
    rcases List.mem_append.mp hm' with hm' | hm'
    · exact h.downLine m' hm'
    · obtain ⟨text, htext, rfl⟩ := List.mem_map.mp hm'
      exact hanswers text htext
  · rw [h.heard, List.map_append]
    rfl
  · dsimp only
    rw [h.asked, Rpc.served_append, List.flatMap_append, hasked]
  · dsimp only
    rw [h.answered, Rpc.served_append, List.flatMap_append, hanswered]
  · dsimp only
    rw [h.published, List.map_append, List.filter_append, List.map_singleton, List.filter_singleton]
    simp only [Bool.cond_eq_ite]
  · rw [h.notified, Rpc.State.sent, Rpc.State.sent, hup, List.map_append, List.append_cons]
    rfl
  · rw [Rpc.State.replied, pushes_append, h.pushed, Rpc.State.replied, List.filterMap_map]
    exact (List.append_nil _).symm.trans (congrArg _ (List.filterMap_eq_nil_iff.mpr fun _ _ => rfl).symm)

theorem follows_readText (hreads : Dispatch.Reads readNumber) (h : Represents readNumber w a) {hooks : Hooks}
    (hhooks : Dispatch.HooksInRange readNumber hooks) (hstep : step readNumber w (.readText hooks) = some w') :
    Follows readNumber a w' := by
  obtain ⟨written, sent, hup, hstdout, hsent⟩ := h.up
  rw [step] at hstep
  cases sent with
  | nil =>
      rw [hsent] at hstep
      cases hstep
  | cons m sent =>
      rw [hsent] at hstep
      cases hstep
      rw [List.cons_append] at hup
      have hm := h.upLine m (hup ▸ List.mem_cons_self)
      cases m with
      | notice text =>
          obtain ⟨notification, v, hvalue, rfl⟩ := hm
          have hhandled : Dispatch.handleText readNumber hooks (upText (.notice v.print)) = ⟨none, []⟩ :=
            Notification.handleText_value hvalue readNumber hooks
          rw [hhandled]
          refine follows_one (.serve hooks) _ ?_ (h.serve hup hstdout hhooks nofun rfl rfl)
          simp only [Rpc.step, hup, Option.toList_none, List.map_nil, List.append_nil]
      | call req =>
          have hanswers : ∀ text ∈ (answer readNumber hooks req).toList, DownLine readNumber (.answer text) :=
            fun text htext => downLine_answer hreads hhooks hm (Option.mem_toList.mp htext)
          refine follows_one (.serve hooks) _ ?_
            (h.serve hup hstdout hhooks hanswers (List.flatMap_singleton ..) (List.flatMap_singleton ..))
          simp only [Rpc.step, hup]
          rfl

theorem follows (hreads : Dispatch.Reads readNumber) (h : Represents readNumber w a)
    (hpaired : Rpc.Paired (answer readNumber) a) {e : Event} (hfair : e.Fair readNumber)
    (hstep : step readNumber w e = some w') : Follows readNumber a w' := by
  cases e with
  | request request => exact follows_request h hstep
  | notify notification => exact follows_notify h hstep
  | readResponse => exact follows_readResponse h hstep
  | nextPush => exact follows_nextPush h hpaired hstep
  | stdoutToWs => exact follows_stdoutToWs h hstep
  | readText hooks => exact follows_readText hreads h hfair hstep
  | push frame => exact follows_push h hfair hstep
  | wsToStdin => exact follows_wsToStdin h hstep
  | bridgeExit written => exact absurd hfair not_false

end

/-- Every run of the exchange is one of the ends. -/
theorem run_represented (hreads : Dispatch.Reads readNumber) {events : List Event}
    (hfair : ∀ e ∈ events, e.Fair readNumber) {w w' : Exchange} {a : Ends} (h : Represents readNumber w a)
    (hpaired : Rpc.Paired (answer readNumber) a) (hrun : (system readNumber).run w events = some w') :
    ∃ es a', (Rpc.system (answer readNumber)).run a es = some a' ∧ Represents readNumber w' a' ∧
      Rpc.Paired (answer readNumber) a' := by
  induction events generalizing w a with
  | nil =>
      cases hrun
      exact ⟨[], a, rfl, h, hpaired⟩
  | cons e events ih =>
      obtain ⟨u, hstep, hrest⟩ := (system readNumber).run_cons_eq_some.mp hrun
      obtain ⟨es, b, hb, hrepresents⟩ := follows hreads h hpaired (hfair e List.mem_cons_self) hstep
      obtain ⟨es', a', ha', hresult⟩ :=
        ih (fun e he => hfair e (List.mem_cons_of_mem _ he)) hrepresents (hpaired.run hb) hrest
      refine ⟨es ++ es', a', ?_, hresult⟩
      rw [Transition.System.run_append, hb]
      exact ha'

end Exchange

end Overacp
