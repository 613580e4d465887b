import Overacp.Wire.Exchange

/-!
# What is sent one way, end to end

Notifications of the loop reach the stream broker, and pushes of the operator reach the loop, each in its order and
none twice, however requests and responses come between them. Nothing but a request is answered.
-/

namespace Overacp

namespace Exchange

variable {readNumber : Json.Number → Option Json.Number}

/-- A notice is published, not answered, and asks no hook. -/
theorem UpLine.unanswered {text : List Char} (h : UpLine (.notice text)) (hooks : Hooks) :
    Dispatch.fansOut text = true ∧ Dispatch.handleText readNumber hooks text = ⟨none, []⟩ := by
  obtain ⟨notification, v, hvalue, rfl⟩ := h
  exact ⟨Notification.fansOut_value hvalue, Notification.handleText_value hvalue readNumber hooks⟩

/-- What is on its way up is what was written and has not arrived. -/
theorem Represents.notified_eq {w : Exchange} {a : Ends} (h : Represents readNumber w a) :
    w.notified = (a.arrived.map Prod.fst).filterMap notice? ++ a.up.filterMap notice? := by
  rw [h.notified, Rpc.State.sent, List.filterMap_append]

theorem Represents.pushed_eq {w : Exchange} {a : Ends} (h : Represents readNumber w a) :
    w.pushed.map pushLine = w.taken ++ w.pendingNotifications ++ (a.down.filterMap push?).map pushLine := by
  rw [h.pushed, h.taken, Rpc.State.replied, List.filterMap_append, List.map_append]

/-- In every interleaving, what the server has read are requests and, in their order and each once, the first so many
of the notifications the loop wrote, as they were written. What is published is what it read that looks like a
notification, which all of these do; none of them asks a hook or is answered. Of what the operator pushed the loop has
taken or set aside the first so many, in order. What is not on its way has arrived. -/
theorem delivered_in_order (hreads : Dispatch.Reads readNumber) {events : List Event}
    (hfair : ∀ e ∈ events, e.Fair readNumber) {w : Exchange}
    (hrun : (system readNumber).run (system readNumber).init events = some w) :
    (∃ arrived : List (Rpc.Up JsonRpcRequest (List Char) × Hooks),
      w.heard = arrived.map (fun m => (upText m.1, m.2)) ∧
        (arrived.map Prod.fst).filterMap notice? <+: w.notified ∧
        (nextRead false w.stdout = none → w.wsUp = [] → (arrived.map Prod.fst).filterMap notice? = w.notified) ∧
        (∀ text hooks, (.notice text, hooks) ∈ arrived →
          Dispatch.fansOut text = true ∧ Dispatch.handleText readNumber hooks text = ⟨none, []⟩) ∧
        w.answered = (Rpc.served arrived).flatMap (fun m => (answer readNumber m.2 m.1).toList)) ∧
      w.published = (w.heard.map Prod.fst).filter Dispatch.fansOut ∧
      w.taken ++ w.pendingNotifications <+: w.pushed.map pushLine ∧
      (nextRead false w.stdin = none → w.wsDown = [] →
        w.taken ++ w.pendingNotifications = w.pushed.map pushLine) := by
  obtain ⟨-, a, -, h, -⟩ := run_represented hreads hfair represents_init Rpc.Paired.start hrun
  refine ⟨⟨a.arrived, h.heard, ⟨_, h.notified_eq.symm⟩, ?_, ?_, h.answered⟩, ?_, ⟨_, h.pushed_eq.symm⟩, ?_⟩
  · intro hstdout hwsUp
    rw [h.notified_eq, h.up_nil hstdout hwsUp]
    exact (List.append_nil _).symm
  · intro text hooks hmem
    exact (h.arrivedLine _ hmem).1.unanswered hooks
  · rw [h.published, h.heard, List.map_map]
    rfl
  · intro hstdin hwsDown
    rw [h.pushed_eq, h.down_nil hstdin hwsDown]
    exact (List.append_nil _).symm

/-- A turn is cancelled. -/
def cancelFrame : List Char := "\x7b\"jsonrpc\":\"2.0\",\"method\":\"session/cancel\"\x7d".toList

/-- A text delta and a quota check go up, and a push comes down before the answer. -/
def deltaAndPush : List Event :=
  [.notify (.textDelta "hi"), .request .quotaCheck, .push cancelFrame, .stdoutToWs, .stdoutToWs,
    .readText Dispatch.plainHooks, .readText Dispatch.plainHooks, .wsToStdin, .wsToStdin, .readResponse, .readResponse]

theorem fair_deltaAndPush : ∀ e ∈ deltaAndPush, e.Fair some := by
  have hpush : IsPush some cancelFrame := by
    refine ⟨by decide, ?_⟩
    have hsome : ((Json.read some (pushLine cancelFrame)).map AcpClient.isNotification) = some true := by
      decide +kernel
    obtain ⟨peek, hpeek, hnotification⟩ := Option.map_eq_some_iff.mp hsome
    exact ⟨peek, hpeek, hnotification⟩
  intro e he
  simp only [deltaAndPush, List.mem_cons, List.not_mem_nil, or_false] at he
  rcases he with rfl | rfl | rfl | rfl | rfl | rfl | rfl | rfl | rfl | rfl | rfl
  · trivial
  · trivial
  · exact hpush
  · trivial
  · trivial
  · exact Dispatch.plainHooks_inRange
  · exact Dispatch.plainHooks_inRange
  all_goals trivial

theorem delivered_in_order_delta :
    ∃ w, (system some).run (system some).init deltaAndPush = some w ∧
      w.published.length = 1 ∧ w.answered.length = 1 ∧ w.pendingNotifications.length = 1 ∧
      (∃ arrived : List (Rpc.Up JsonRpcRequest (List Char) × Hooks),
        w.heard = arrived.map (fun m => (upText m.1, m.2)) ∧
          (arrived.map Prod.fst).filterMap notice? <+: w.notified ∧
          (nextRead false w.stdout = none → w.wsUp = [] → (arrived.map Prod.fst).filterMap notice? = w.notified) ∧
          (∀ text hooks, (.notice text, hooks) ∈ arrived →
            Dispatch.fansOut text = true ∧ Dispatch.handleText some hooks text = ⟨none, []⟩) ∧
          w.answered = (Rpc.served arrived).flatMap (fun m => (answer some m.2 m.1).toList)) ∧
        w.published = (w.heard.map Prod.fst).filter Dispatch.fansOut ∧
        w.taken ++ w.pendingNotifications <+: w.pushed.map pushLine ∧
        (nextRead false w.stdin = none → w.wsDown = [] →
          w.taken ++ w.pendingNotifications = w.pushed.map pushLine) := by
  have hrun : ((system some).run (system some).init deltaAndPush).map
      (fun w => (w.published.length, w.answered.length, w.pendingNotifications.length)) = some (1, 1, 1) := by
    decide +kernel
  obtain ⟨w, hw, hcounts⟩ := Option.map_eq_some_iff.mp hrun
  simp only [Prod.mk.injEq] at hcounts
  obtain ⟨hpublished, hanswered, hpending⟩ := hcounts
  exact ⟨w, hw, hpublished, hanswered, hpending, delivered_in_order Dispatch.reads_some fair_deltaAndPush hw⟩

end Exchange

end Overacp
