import Overacp.Wire.Answers

/-!
# A request returns, or the server cannot read it

Nothing but what is in flight has to move for a request to return. How much that is bounds how many steps it takes,
in whatever order they are taken; and a request the server cannot read waits as long as the tunnel is up. Once the
bridge has exited a request returns whatever there is to be read, and if there is nothing, an error.
-/

namespace Overacp

namespace Exchange

/-- Steps that move on what is in flight. -/
def Event.Internal : Event → Prop
  | .readResponse | .stdoutToWs | .readText _ | .wsToStdin => True
  | .request _ | .notify _ | .nextPush | .push _ | .bridgeExit _ => False

/-- How many steps what is in flight can take: a line of the child has four ahead of it. -/
def work (w : Exchange) : Nat :=
  4 * w.stdout.count 0x0A + 3 * w.wsUp.length + 2 * w.wsDown.length + w.stdin.count 0x0A

/-- Nothing is in flight that could be moved on. -/
def Quiet (readNumber : Json.Number → Option Json.Number) (w : Exchange) : Prop :=
  ∀ e : Event, e.Internal → step readNumber w e = none

theorem count_encode {text : List Char} (h : '\n' ∉ text) : (Utf8.encode text).count 0x0A = 0 := by
  rw [List.count_eq_zero, Utf8.encode, List.mem_flatMap]
  rintro ⟨c, hc, hmem⟩
  exact Bridge.linefeed_notMem_encodeChar (fun heq => h (heq ▸ hc)) hmem

theorem count_lines {texts : List (List Char)} (h : ∀ text ∈ texts, '\n' ∉ text) :
    (Utf8.encode (lines texts)).count 0x0A = texts.length := by
  induction texts with
  | nil => rfl
  | cons text texts ih =>
      have hlines : lines (text :: texts) = text ++ (['\n'] ++ lines texts) := by
        rw [lines, List.flatMap_cons, ← lines, List.append_assoc]
      rw [hlines, Utf8.encode_append, Utf8.encode_append, List.count_append, List.count_append,
        count_encode (h text List.mem_cons_self), ih fun t ht => h t (List.mem_cons_of_mem text ht), List.length_cons]
      show 0 + (1 + texts.length) = texts.length + 1
      omega

variable {readNumber : Json.Number → Option Json.Number} {w w' : Exchange} {a : Ends}

/-- To read a line takes it out of the pipe, and to read where there is none empties it. -/
theorem count_readUntil (pipe : List UInt8) :
    (Bridge.readUntil 0x0A pipe).2.count 0x0A = pipe.count 0x0A - 1 ∧
      (0x0A ∉ pipe → Bridge.readUntil 0x0A pipe = (pipe, [])) := by
  induction pipe with
  | nil => exact ⟨rfl, fun _ => rfl⟩
  | cons b pipe ih =>
      rw [Bridge.readUntil]
      by_cases hb : b = 0x0A
      · rw [if_pos hb, hb]
        exact ⟨by simp, fun h => absurd List.mem_cons_self h⟩
      · rw [if_neg hb, List.count_cons_of_ne hb]
        refine ⟨ih.1, fun h => ?_⟩
        rw [ih.2 fun hmem => h (List.mem_cons_of_mem b hmem)]

theorem count_nextRead {ended : Bool} {pipe rest : List UInt8} {read : Except String (List Char)}
    (hread : nextRead ended pipe = some (read, rest)) : rest.count 0x0A = pipe.count 0x0A - 1 := by
  unfold nextRead Bridge.readLine at hread
  split_ifs at hread
  have hcount := (count_readUntil pipe).1
  dsimp only at hread
  split at hread <;> cases hread <;> exact hcount

theorem mem_of_nextRead {pipe rest : List UInt8} {read : Except String (List Char)}
    (hread : nextRead false pipe = some (read, rest)) : 0 < pipe.count 0x0A := by
  by_contra hnone
  rw [nextRead, if_neg] at hread
  · cases hread
  · rintro (hmem | hended)
    · exact hnone (List.count_pos_iff.mpr hmem)
    · cases hended

/-- Each step leaves less to be moved on. -/
theorem work_lt (h : Represents readNumber w a) {e : Event} (hinternal : e.Internal)
    (hstep : step readNumber w e = some w') : work w' < work w := by
  cases e with
  | stdoutToWs =>
      rw [step, if_neg (by simp [h.exited])] at hstep
      obtain ⟨⟨read, stdout⟩, hline, hread⟩ := Option.bind_eq_some_iff.mp hstep
      obtain ⟨line, -, rfl⟩ := Option.map_eq_some_iff.mp hread
      have hcount := count_nextRead hline
      have hpos := mem_of_nextRead hline
      simp only [work, List.length_append, List.length_singleton]
      omega
  | readText hooks =>
      rw [step] at hstep
      cases hwsUp : w.wsUp with
      | nil =>
          rw [hwsUp] at hstep
          cases hstep
      | cons text wsUp =>
          rw [hwsUp] at hstep
          cases hstep
          have hone : (Dispatch.handleText readNumber hooks text).value.toList.length ≤ 1 := by
            cases (Dispatch.handleText readNumber hooks text).value <;> simp
          simp only [work, hwsUp, List.length_append, List.length_cons]
          omega
  | wsToStdin =>
      obtain ⟨written, sent, hdown, hstdin, hsent⟩ := h.down
      rw [step, if_neg (by simp [h.exited])] at hstep
      cases sent with
      | nil =>
          rw [hsent] at hstep
          cases hstep
      | cons m sent =>
          rw [hsent] at hstep
          cases hstep
          have hnewline := (h.downLine m (hdown ▸ by simp)).newline
          have hcount := count_lines (List.forall_mem_singleton.mpr hnewline)
          rw [lines, List.flatMap_singleton, List.length_singleton] at hcount
          simp only [work, hsent, Bridge.writeFrame_pipe, List.count_append, hcount, List.length_map, List.length_cons]
          omega
  | readResponse =>
      obtain ⟨req, -, hread⟩ := Option.bind_eq_some_iff.mp hstep
      obtain ⟨⟨read, stdin⟩, hline, rfl⟩ := Option.map_eq_some_iff.mp hread
      have hcount := count_nextRead hline
      rw [h.exited] at hline
      have hpos := mem_of_nextRead hline
      dsimp only
      split
      · simp only [work]
        omega
      · split
        · simp only [work]
          omega
        · simp only [work]
          omega
  | request | notify | nextPush | push | bridgeExit => exact absurd hinternal not_false

/-- Where nothing can be moved on and a request waits, nothing is in flight. -/
theorem Represents.drained (h : Represents readNumber w a) {req : JsonRpcRequest} (hwaiting : w.waiting = some req)
    (hquiet : Quiet readNumber w) : a.up = [] ∧ a.down = [] := by
  have hooks : Hooks := ⟨.ok .null, .ok .null, fun _ => .ok .null, .ok true, fun _ => .ok ()⟩
  have hwsUp : w.wsUp = [] := by
    have hnone := hquiet (.readText hooks) trivial
    rw [step] at hnone
    split at hnone
    · assumption
    · cases hnone
  have hwsDown : w.wsDown = [] := by
    have hnone := hquiet .wsToStdin trivial
    rw [step, if_neg (by simp [h.exited])] at hnone
    split at hnone
    · assumption
    · cases hnone
  have hup : a.up = [] := by
    obtain ⟨written, sent, hup, hstdout, hsent⟩ := h.up
    have hnone := hquiet .stdoutToWs trivial
    rw [step, if_neg (by simp [h.exited])] at hnone
    cases written with
    | nil => exact h.up_nil (by rw [hstdout]; rfl) hwsUp
    | cons m written =>
        rw [hstdout, List.map_cons, nextRead_cons (h.upLine m (hup ▸ by simp)).oneLine.newline] at hnone
        cases hnone
  have hstdin : nextRead false w.stdin = none := by
    have hnone := hquiet .readResponse trivial
    rw [step, hwaiting, Option.bind_some, h.exited] at hnone
    exact Option.map_eq_none_iff.mp hnone
  exact ⟨hup, h.down_nil hstdin hwsDown⟩

/-- To move something on sends no request. -/
theorem waiting_of_step {e : Event} (hinternal : e.Internal) (hstep : step readNumber w e = some w')
    {req : JsonRpcRequest} (h : w'.waiting = some req) : w.waiting = some req := by
  cases e with
  | stdoutToWs =>
      rw [step] at hstep
      split_ifs at hstep
      obtain ⟨read, -, hread⟩ := Option.bind_eq_some_iff.mp hstep
      obtain ⟨line, -, rfl⟩ := Option.map_eq_some_iff.mp hread
      exact h
  | readText hooks =>
      rw [step] at hstep
      split at hstep
      · cases hstep
      · cases hstep
        exact h
  | wsToStdin =>
      rw [step] at hstep
      split_ifs at hstep
      split at hstep
      · cases hstep
      · cases hstep
        exact h
  | readResponse =>
      obtain ⟨req', hreq', hread⟩ := Option.bind_eq_some_iff.mp hstep
      obtain ⟨⟨read, stdin⟩, -, rfl⟩ := Option.map_eq_some_iff.mp hread
      dsimp only at h
      split at h
      · cases h
      · split at h
        · exact h
        · cases h
  | request | notify | nextPush | push | bridgeExit => exact absurd hinternal not_false

theorem moved (hreads : Dispatch.Reads readNumber) {es : List Event}
    (hmoves : ∀ e ∈ es, e.Internal ∧ e.Fair readNumber) (h : Represents readNumber w a)
    (hpaired : Rpc.Paired (answer readNumber) a) (hrun : (system readNumber).run w es = some w') :
    es.length + work w' ≤ work w ∧ ∀ req, w'.waiting = some req → w.waiting = some req := by
  induction es generalizing w a with
  | nil =>
      cases hrun
      exact ⟨Nat.le_of_eq (Nat.zero_add _), fun _ => id⟩
  | cons e es ih =>
      obtain ⟨u, hstep, hrest⟩ := (system readNumber).run_cons_eq_some.mp hrun
      obtain ⟨hinternal, hfair⟩ := hmoves e List.mem_cons_self
      obtain ⟨es', b, hb, hrepresents⟩ := follows hreads h hpaired hfair hstep
      obtain ⟨hwork, hwaiting⟩ :=
        ih (fun e he => hmoves e (List.mem_cons_of_mem _ he)) hrepresents (hpaired.run hb) hrest
      have hlt := work_lt h hinternal hstep
      refine ⟨?_, fun req hreq => waiting_of_step hinternal hstep (hwaiting req hreq)⟩
      rw [List.length_cons]
      omega

/-! ### When the bridge has exited -/

/-- At the end of the input a request returns an error. -/
theorem exited_empty (hexited : w.exited = true) {req : JsonRpcRequest} (hwaiting : w.waiting = some req)
    (hstdin : w.stdin = []) : step readNumber w .readResponse =
      some { w with stdin := [], waiting := none, returned := w.returned ++ [(req, .error "parse ACP frame")] } := by
  have hread : nextRead w.exited w.stdin = some (.ok [], []) := by
    rw [hstdin, nextRead, if_pos (.inr hexited)]
    rfl
  have hreceive : AcpClient.receive readNumber [] = some (.error "parse ACP frame") := by
    rw [AcpClient.receive, Json.read_nil]
  rw [step, hwaiting, Option.bind_some, hread, Option.map_some]
  dsimp only
  rw [hreceive]

/-- One read either ends the wait or sets a line aside. -/
theorem exited_step (hexited : w.exited = true) {req : JsonRpcRequest} (hwaiting : w.waiting = some req) :
    ∃ w', step readNumber w .readResponse = some w' ∧
      w'.stdin = (Bridge.readUntil 0x0A w.stdin).2 ∧
      ((w'.waiting = none ∧ ∃ result, w'.returned = w.returned ++ [(req, result)]) ∨
        (w'.waiting = some req ∧ w'.exited = true ∧ w'.returned = w.returned)) := by
  obtain ⟨read, hread⟩ : ∃ read, nextRead w.exited w.stdin = some (read, (Bridge.readUntil 0x0A w.stdin).2) := by
    rw [nextRead, if_pos (.inr hexited), Bridge.readLine]
    dsimp only
    split <;> exact ⟨_, rfl⟩
  rw [step, hwaiting, Option.bind_some, hread, Option.map_some]
  refine ⟨_, rfl, ?_⟩
  cases read with
  | error e => exact ⟨rfl, .inl ⟨rfl, _, rfl⟩⟩
  | ok buf =>
      dsimp only
      cases AcpClient.receive readNumber buf with
      | none => exact ⟨rfl, .inr ⟨rfl, hexited, rfl⟩⟩
      | some result => exact ⟨rfl, .inl ⟨rfl, result, rfl⟩⟩

/-- A request that waits when the bridge has exited is at the end of its wait once what was left has been read: what
is pushed is set aside, anything else is its result, and the end of the input is an error. -/
theorem exited_returns (hexited : w.exited = true) {req : JsonRpcRequest} (hwaiting : w.waiting = some req) :
    ∃ n w' result, n ≤ w.stdin.count 0x0A + 2 ∧
      (system readNumber).run w (List.replicate n .readResponse) = some w' ∧
      w'.waiting = none ∧ w'.returned = w.returned ++ [(req, result)] := by
  induction hcount : w.stdin.count 0x0A generalizing w with
  | zero =>
      obtain ⟨u, hstep, hstdin, ⟨hdone, result, hreturned⟩ | ⟨hopen, hexited', hreturned⟩⟩ :=
        @exited_step readNumber w hexited req hwaiting
      · exact ⟨1, u, result, by omega, (system readNumber).run_cons_eq_some.mpr ⟨u, hstep, rfl⟩, hdone, hreturned⟩
      · rw [(count_readUntil w.stdin).2 (List.count_eq_zero.mp hcount)] at hstdin
        refine ⟨2, _, .error "parse ACP frame", by omega, (system readNumber).run_cons_eq_some.mpr ⟨u, hstep,
          (system readNumber).run_cons_eq_some.mpr ⟨_, exited_empty hexited' hopen hstdin, rfl⟩⟩, rfl, ?_⟩
        dsimp only
        rw [hreturned]
  | succ k ih =>
      obtain ⟨u, hstep, hstdin, ⟨hdone, result, hreturned⟩ | ⟨hopen, hexited', hreturned⟩⟩ :=
        @exited_step readNumber w hexited req hwaiting
      · exact ⟨1, u, result, by omega, (system readNumber).run_cons_eq_some.mpr ⟨u, hstep, rfl⟩, hdone, hreturned⟩
      · have hleft : u.stdin.count 0x0A = k := by
          rw [hstdin, (count_readUntil w.stdin).1, hcount]
          rfl
        obtain ⟨n, w', result, hn, hrun, hdone, hreturned'⟩ := ih hexited' hopen hleft
        refine ⟨n + 1, w', result, by omega, ?_, hdone, by rw [hreturned', hreturned]⟩
        rw [List.replicate_succ]
        exact (system readNumber).run_cons_eq_some.mpr ⟨u, hstep, hrun⟩

/-! ### Whether a request returns -/

/-- While a request waits, what is in flight can be moved on in so many steps at most, whatever their order, and
when nothing is left to move the request has returned exactly if the server could read it. One that the server
cannot read waits as long as the tunnel is up and what is pushed can be read. Should the bridge exit while it waits,
it returns with the end of what is left to read, if the child is let live so long. -/
theorem request_returns_iff (hreads : Dispatch.Reads readNumber) {events : List Event}
    (hfair : ∀ e ∈ events, e.Fair readNumber) {w : Exchange}
    (hrun : (system readNumber).run (system readNumber).init events = some w) {req : JsonRpcRequest}
    (hwaiting : w.waiting = some req) :
    (∀ es w', (∀ e ∈ es, e.Internal ∧ e.Fair readNumber) → (system readNumber).run w es = some w' →
      es.length + work w' ≤ work w ∧
        (Quiet readNumber w' → (w'.waiting = none ↔ req.Readable readNumber))) ∧
    (¬ req.Readable readNumber → ∀ es w', (∀ e ∈ es, e.Fair readNumber) → (system readNumber).run w es = some w' →
      w'.waiting = some req) ∧
    ∀ written u, step readNumber w (.bridgeExit written) = some u → ∃ n w' result,
      n ≤ u.stdin.count 0x0A + 2 ∧ (system readNumber).run u (List.replicate n .readResponse) = some w' ∧
        w'.waiting = none ∧ w'.returned = w.returned ++ [(req, result)] := by
  obtain ⟨-, a, -, hrepresents, hpaired⟩ :=
    run_represented hreads hfair represents_init Rpc.Paired.start hrun
  have hid := hrepresents.waitingId req hwaiting
  have hforever : ¬ req.Readable readNumber → ∀ es w', (∀ e ∈ es, e.Fair readNumber) →
      (system readNumber).run w es = some w' → w'.waiting = some req := by
    intro hunreadable es w' hes hrun'
    obtain ⟨es', a', ha', hrepresents', -⟩ := run_represented hreads hes hrepresents hpaired hrun'
    have hkept := hpaired.waiting_run (fun hooks => (answer_eq_none_iff hreads hid).mpr hunreadable) ha'
      (hrepresents.waiting.trans hwaiting)
    exact hrepresents'.waiting.symm.trans hkept
  refine ⟨fun es w' hes hrun' => ?_, hforever, ?_⟩
  · obtain ⟨hwork, hkept⟩ := moved hreads hes hrepresents hpaired hrun'
    refine ⟨hwork, fun hquiet => ⟨fun hreturned => ?_, fun hreadable => ?_⟩⟩
    · by_contra hunreadable
      rw [hforever hunreadable es w' (fun e he => (hes e he).2) hrun'] at hreturned
      cases hreturned
    · obtain ⟨-, a', -, hrepresents', hpaired'⟩ :=
        run_represented hreads (fun e he => (hes e he).2) hrepresents hpaired hrun'
      cases hopen : w'.waiting with
      | none => rfl
      | some req' =>
          obtain rfl : req = req' := Option.some.inj (hwaiting.symm.trans (hkept req' hopen))
          obtain ⟨hup, hdown⟩ := hrepresents'.drained hopen hquiet
          obtain ⟨hooks, hdropped⟩ := hpaired'.dropped_of_drained (hrepresents'.waiting.trans hopen) hup hdown
          exact absurd hreadable ((answer_eq_none_iff hreads hid).mp hdropped)
  · intro written u hexit
    rw [step, if_neg (by simp [hrepresents.exited])] at hexit
    cases hexit
    exact exited_returns rfl hwaiting

/-- A call of a tool with arguments that are nested too deep for the server. -/
def deepCall : Request := .toolsCall "search" (Dispatch.nested Json.maxNesting)

theorem deepCall_unreadable : ¬ (⟨1, deepCall⟩ : JsonRpcRequest).Readable some := by
  rintro ⟨hnesting, -⟩
  have hdeep : Json.maxNesting < (JsonRpcRequest.toValue ⟨1, deepCall⟩).nesting := by decide +kernel
  omega

/-- A quota check that returns, and a call that does not as long as the tunnel is up. -/
theorem request_returns_iff_quota :
    (∃ w, (system some).run (system some).init [.request .quotaCheck] = some w ∧
      (⟨1, .quotaCheck⟩ : JsonRpcRequest).Readable some ∧
      ∀ es w', (∀ e ∈ es, e.Internal ∧ e.Fair some) → (system some).run w es = some w' →
        es.length + work w' ≤ work w ∧ (Quiet some w' →
          (w'.waiting = none ↔ (⟨1, .quotaCheck⟩ : JsonRpcRequest).Readable some))) ∧
    ∃ w, (system some).run (system some).init [.request deepCall] = some w ∧
      (∀ es w', (∀ e ∈ es, e.Fair some) → (system some).run w es = some w' → w'.waiting = some ⟨1, deepCall⟩) ∧
      ∀ written u, step some w (.bridgeExit written) = some u → ∃ n w' result,
        n ≤ u.stdin.count 0x0A + 2 ∧ (system some).run u (List.replicate n .readResponse) = some w' ∧
          w'.waiting = none ∧ w'.returned = w.returned ++ [(⟨1, deepCall⟩, result)] := by
  have hfair (request : Request) : ∀ e ∈ [(.request request : Event)], e.Fair some :=
    List.forall_mem_singleton.mpr trivial
  have hquota : (⟨1, .quotaCheck⟩ : JsonRpcRequest).Readable some := by decide +kernel
  obtain ⟨-, hforever, hexit⟩ := request_returns_iff Dispatch.reads_some (hfair deepCall) rfl
    (rfl : _ = some (⟨1, deepCall⟩ : JsonRpcRequest))
  exact ⟨⟨_, rfl, hquota, (request_returns_iff Dispatch.reads_some (hfair .quotaCheck) rfl rfl).1⟩,
    _, rfl, hforever deepCall_unreadable, hexit⟩

end Exchange

end Overacp
