import Overacp.Server.Tunnel.Responses
import Overacp.Server.Tunnel.Stranded

/-!
# Who holds the senders of a tunnel

A tunnel's channel ends when its last sender is dropped. One sender is in the registry, in the entry of the
agent; `run_tunnel` keeps another for itself and drops it when it returns. The read loop waits for the socket
and for control signals, of which this backend has none, so an entry that is taken out of the registry ends
neither loop.
-/

namespace Overacp

namespace InMemoryAgentRegistry

variable {registry : InMemoryAgentRegistry} {agentId other : Uuid}

/-- The channel that the frames for an agent are sent into. -/
def route (registry : InMemoryAgentRegistry) (agentId : Uuid) : Option Sender :=
  (registry.get agentId).map fun entry => entry.val.tx

theorem route_eq_none_iff : registry.route agentId = none ↔ registry.isConnected agentId = false := by
  rw [route, Option.map_eq_none_iff, isConnected, get, Option.isSome_eq_false_iff, Option.isNone_iff_eq_none]

theorem route_eq_some_iff {t : Sender} :
    registry.route agentId = some t ↔ ∃ entry, registry.get agentId = some entry ∧ entry.val.tx = t := by
  rw [route, Option.map_eq_some_iff]

@[simp] theorem route_register_self (entry : Arc AgentEntry) :
    (registry.register agentId entry).2.route agentId = some entry.val.tx := by
  rw [route, get_register_self, Option.map_some]

theorem route_register_ne (entry : Arc AgentEntry) (hne : other ≠ agentId) :
    (registry.register agentId entry).2.route other = registry.route other := by
  rw [route, get_register_ne entry hne, route]

theorem route_unregister_ne (now : Instant) (hne : other ≠ agentId) :
    (registry.unregister agentId now).route other = registry.route other := by
  rw [route, get_unregister_ne now hne, route]

/-- Activity of an agent changes no route. -/
@[simp] theorem route_touch (now : Instant) : (registry.touch agentId now).route other = registry.route other := by
  unfold touch
  cases hget : registry.get agentId with
  | none => rfl
  | some entry =>
      dsimp only
      by_cases hother : other = agentId
      · subst hother
        rw [route, route, hget, get, AList.lookup_insert]
        rfl
      · rw [route, route, get, AList.lookup_insert_ne hother, get]

end InMemoryAgentRegistry

namespace Broker

variable {φ : Type} {s s' : Broker φ}

def Event.isRespond : Event φ → Bool
  | .respond _ _ => true
  | _ => false

/-- Where a sender of a tunnel's channel is kept. -/
inductive Holder where
  /-- The clone `run_tunnel` keeps for responses and buffered frames. -/
  | localTx
  /-- The original, on its way into `acquire`. -/
  | argument
  /-- The entry of an agent in the registry. -/
  | entry (agentId : Uuid)
  deriving DecidableEq, Repr

/-- The senders a `run_tunnel` call itself holds. -/
def TunnelAt.holders : TunnelAt φ → List Holder
  | .connecting => [.localTx, .argument]
  | .acquired | .draining _ | .serving | .leaving => [.localTx]
  | .ended => []

/-- Every sender there is of the channel of the `t`-th tunnel. -/
def holders (s : Broker φ) (t : Nat) : List Holder :=
  (s.tunnels[t]?.elim [] fun tunnel => TunnelAt.holders tunnel.at_) ++
    (s.registry.connected.entries.filter fun e => e.2.val.tx = t).map fun e => .entry e.1

theorem TunnelAt.holders_eq_nil_iff {at_ : TunnelAt φ} : TunnelAt.holders at_ = [] ↔ at_ = .ended := by
  cases at_ <;> simp [TunnelAt.holders]

/-- Whatever became of its entry, the channel of a tunnel has a sender until `run_tunnel` returns. -/
theorem holders_eq_nil_iff (h : s.Routed) (t : Nat) :
    s.holders t = [] ↔ ∀ tunnel, s.tunnels[t]? = some tunnel → tunnel.at_ = .ended := by
  constructor
  · intro hnone tunnel hget
    have hown := (List.append_eq_nil_iff.mp hnone).1
    rw [hget, Option.elim_some] at hown
    exact TunnelAt.holders_eq_nil_iff.mp hown
  · intro hended
    refine List.append_eq_nil_iff.mpr ⟨?_, ?_⟩
    · cases hget : s.tunnels[t]? with
      | none => rfl
      | some tunnel => exact TunnelAt.holders_eq_nil_iff.mpr (hended tunnel hget)
    · rw [List.map_eq_nil_iff, List.filter_eq_nil_iff]
      intro e he htx
      have hentry : s.registry.get e.1 = some e.2 := AList.mem_lookup_iff.mpr he
      obtain ⟨tunnel, hget, -, hholds⟩ := h e.1 e.2 hentry
      rw [of_decide_eq_true htx] at hget
      rw [hended tunnel hget] at hholds
      cases hholds

/-! ### Tunnels and entries in step -/

/-- A tunnel that holds its lease is the one its agent is routed to. -/
def Listed (s : Broker φ) : Prop :=
  ∀ t tunnel, s.tunnels[t]? = some tunnel → tunnel.at_.holdsLease = true →
    s.registry.route tunnel.agentId = some t

/-- The tunnel whose entry an event takes out of the registry, or replaces. -/
def cutBy (s : Broker φ) : Event φ → Option Nat
  | .acquire t _ => s.tunnels[t]?.bind fun tunnel => s.registry.route tunnel.agentId
  | .disconnect agentId _ => s.registry.route agentId
  | _ => none

/-- Neither a disconnect nor an acquire finds its agent connected. -/
def Spares (s : Broker φ) : Event φ → Prop
  | .acquire t _ => ∀ tunnel, s.tunnels[t]? = some tunnel → s.registry.isConnected tunnel.agentId = false
  | .disconnect agentId _ => s.registry.isConnected agentId = false
  | _ => True

theorem spares_iff {e : Event φ} : s.Spares e ↔ s.cutBy e = none := by
  cases e with
  | acquire t now =>
      simp only [Spares, cutBy, Option.bind_eq_none_iff, InMemoryAgentRegistry.route_eq_none_iff]
  | disconnect agentId now => exact InMemoryAgentRegistry.route_eq_none_iff.symm
  | _ => exact iff_of_true trivial rfl

theorem listed_of_eq (h : s.Listed) (htunnels : s'.tunnels = s.tunnels)
    (hroute : ∀ agentId, s'.registry.route agentId = s.registry.route agentId) : s'.Listed := by
  intro t tunnel hget hholds
  rw [hroute]
  exact h t tunnel (htunnels ▸ hget) hholds

/-- A move that takes no lease and leaves the routes alone. -/
theorem listed_of_set {t : Nat} {tunnel tunnel' : Tunnel φ} (h : s.Listed) (hget : s.tunnels[t]? = some tunnel)
    (htunnels : s'.tunnels = s.tunnels.set t tunnel') (hagent : tunnel'.agentId = tunnel.agentId)
    (hlease : tunnel'.at_.holdsLease = true → tunnel.at_.holdsLease = true)
    (hregistry : s'.registry = s.registry) : s'.Listed := by
  intro n other hother hholds
  rw [hregistry]
  rw [htunnels] at hother
  rcases Slots.of_getElem?_set hother with ⟨rfl, rfl⟩ | ⟨-, hold⟩
  · rw [hagent]
    exact h n tunnel hget (hlease hholds)
  · exact h n other hold hholds

theorem listed_connect (h : s.Listed) (agentId : Uuid) (claims : Claims) : (s.connect agentId claims).Listed := by
  intro n other hother hholds
  rcases Slots.of_getElem?_concat hother with ⟨-, rfl⟩ | ⟨-, hold⟩
  · cases hholds
  · exact h n other hold hholds

/-- Nobody else is listed for the agent that acquires. -/
theorem listed_acquire {t : Nat} {tunnel : Tunnel φ} (h : s.Listed) (hget : s.tunnels[t]? = some tunnel)
    (hfree : s.registry.isConnected tunnel.agentId = false) (now : Instant) :
    Listed { s.moveTunnel t tunnel .acquired with
      registry := (s.registry.acquire t tunnel.agentId t tunnel.claims now).2 } := by
  intro n other hother hholds
  have hroute := InMemoryAgentRegistry.route_eq_none_iff.mpr hfree
  rcases Slots.of_getElem?_set hother with ⟨rfl, rfl⟩ | ⟨-, hold⟩
  · exact InMemoryAgentRegistry.route_register_self _
  · have hlisted := h n other hold hholds
    have hne : other.agentId ≠ tunnel.agentId := by
      intro heq
      rw [heq, hroute] at hlisted
      cases hlisted
    exact (InMemoryAgentRegistry.route_register_ne _ hne).trans hlisted

/-- A tunnel that closes takes its own entry out and no other. -/
theorem listed_close {t : Nat} {tunnel : Tunnel φ} (h : s.Listed) (hget : s.tunnels[t]? = some tunnel)
    (hat : tunnel.at_ = .serving) (now : Instant) :
    Listed { s.moveTunnel t tunnel .leaving with registry := s.registry.unregister tunnel.agentId now } := by
  intro n other hother hholds
  have hown := h t tunnel hget (by rw [hat]; rfl)
  rcases Slots.of_getElem?_set hother with ⟨rfl, rfl⟩ | ⟨hn, hold⟩
  · cases hholds
  · have hlisted := h n other hold hholds
    have hne : other.agentId ≠ tunnel.agentId := by
      intro heq
      rw [heq, hown] at hlisted
      exact hn (Option.some.inj hlisted).symm
    exact (InMemoryAgentRegistry.route_unregister_ne now hne).trans hlisted

theorem listed_step {e : Event φ} (hstep : s.step e = some s') (h : s.Listed) (hspares : s.Spares e) :
    s'.Listed := by
  cases taken_of_step hstep with
  | connect agentId claims => exact listed_connect h agentId claims
  | @acquire t tunnel now hget hat => exact listed_acquire h hget (hspares tunnel hget) now
  | @drain t tunnel hget hat | @serve t tunnel hget hat | @enqueue t tunnel _ _ hget hat =>
      exact listed_of_set h hget rfl rfl (fun _ => by rw [hat]; rfl) rfl
  | @write t tunnel _ _ hget hat hrecv => exact listed_of_set h hget rfl rfl (fun hholds => hholds) rfl
  | @abort t tunnel hget hat => exact listed_of_set h hget rfl rfl (fun hholds => by cases hholds) rfl
  | @close t tunnel now hget hat => exact listed_close h hget hat now
  | writeFails | respond | post | deliverLive | deliverNone | pushed | refused =>
      exact listed_of_eq h rfl fun _ => rfl
  | disconnect agentId now =>
      rw [disconnectAgent, if_neg (by rw [show s.registry.isConnected agentId = false from hspares]; simp)]
      exact h

/-- The tunnel that is cut off has not returned from `run_tunnel`, before the step or after it. -/
theorem cut_not_ended {e : Event φ} (hstep : s.step e = some s') (h : s.Routed) {t : Nat}
    (hcut : s.cutBy e = some t) : ∃ tunnel, s'.tunnels[t]? = some tunnel ∧ tunnel.at_ ≠ .ended := by
  have hlive : ∀ agentId, s.registry.route agentId = some t →
      ∃ tunnel, s.tunnels[t]? = some tunnel ∧ tunnel.at_.holdsLease = true := by
    intro agentId hroute
    obtain ⟨entry, hentry, rfl⟩ := InMemoryAgentRegistry.route_eq_some_iff.mp hroute
    obtain ⟨tunnel, hget, -, hholds⟩ := h agentId entry hentry
    exact ⟨tunnel, hget, hholds⟩
  have hne : ∀ tunnel : Tunnel φ, tunnel.at_.holdsLease = true → tunnel.at_ ≠ .ended := by
    intro tunnel hholds hended
    rw [hended] at hholds
    cases hholds
  cases taken_of_step hstep with
  | @acquire n tunnel now hget hat =>
      rw [cutBy, hget, Option.bind_some] at hcut
      obtain ⟨other, hother, hholds⟩ := hlive tunnel.agentId hcut
      have hn : n ≠ t := by
        rintro rfl
        rw [hget] at hother
        cases hother
        rw [hat] at hholds
        cases hholds
      exact ⟨other, by rwa [moveTunnel, List.getElem?_set_ne hn], hne other hholds⟩
  | disconnect agentId now =>
      obtain ⟨tunnel, hget, hholds⟩ := hlive agentId hcut
      refine ⟨tunnel, ?_, hne tunnel hholds⟩
      unfold disconnectAgent
      split <;> exact hget
  | _ => cases hcut

end Broker

/-! ### What the sockets bring in -/

/-- The broker, the frames it published to subscribers and the hooks it asked, each with the tunnel they came
through, and the tunnels whose entries were taken out by a disconnect or replaced. -/
structure TunnelServer where
  broker : Broker (List Char)
  published : List (Nat × List Char)
  asked : List (Nat × Dispatch.HookCall)
  cut : List Nat

namespace TunnelServer

inductive Event where
  | broker (e : Broker.Event (List Char))
  /-- The read loop takes a text frame from its socket, and the hooks behave in some way. -/
  | read (tunnel : Nat) (text : List Char) (hooks : Hooks) (now : Instant)

variable (readNumber : Json.Number → Option Json.Number)

/-- What the read loop does with a text frame: touch, publish, dispatch, send the response. -/
def readText (s : TunnelServer) (t : Nat) (tunnel : Tunnel (List Char)) (text : List Char) (hooks : Hooks)
    (now : Instant) : TunnelServer :=
  let handled := Dispatch.handleText readNumber hooks text
  { s with
    broker := { s.broker with
      registry := s.broker.registry.touch tunnel.agentId now
      channels := handled.value.elim s.broker.channels (s.broker.channels.sent t) }
    published := s.published ++ if Dispatch.fansOut text then [(t, text)] else []
    asked := s.asked ++ handled.calls.map fun call => (t, call) }

/-- Responses are sent by the read loop, and by nothing else. -/
def step (s : TunnelServer) : Event → Option TunnelServer
  | .read t text hooks now => s.broker.tunnels[t]?.bind fun tunnel =>
      if tunnel.at_ = .serving then some (s.readText readNumber t tunnel text hooks now) else none
  | .broker e =>
      if e.isRespond then none
      else (s.broker.step e).map fun broker => { s with broker := broker, cut := s.cut ++ (s.broker.cutBy e).toList }

def system (capacity : Nat) : Transition.System TunnelServer Event where
  init := ⟨(Broker.system capacity).init, [], [], []⟩
  step := step readNumber

def publishedBy (s : TunnelServer) (t : Nat) : List (Nat × List Char) := s.published.filter fun p => p.1 = t

def askedBy (s : TunnelServer) (t : Nat) : List (Nat × Dispatch.HookCall) := s.asked.filter fun a => a.1 = t

/-- A tunnel that lost its entry has no sender left and is not read any more: nothing of it is published or
dispatched to a hook. No agent is served twice. -/
structure CutTunnelsEnd (before after : TunnelServer) : Prop where
  dropped : ∀ t ∈ after.cut, after.broker.holders t = []
  unread : ∀ t ∈ before.cut, after.publishedBy t = before.publishedBy t ∧ after.askedBy t = before.askedBy t
  served : ∀ (t t' : Nat) (tunnel tunnel' : Tunnel (List Char)), after.broker.tunnels[t]? = some tunnel →
    after.broker.tunnels[t']? = some tunnel' → tunnel.at_ = .serving → tunnel'.at_ = .serving →
      tunnel.agentId = tunnel'.agentId → t = t'

/-- No entry is taken from a connected agent by a disconnect or by a newer acquire. -/
def Spares (before : TunnelServer) : Event → Prop
  | .broker e => before.broker.Spares e
  | .read _ _ _ _ => True

/-- As long as nothing is cut, tunnels and entries are in step. -/
structure Inv (s : TunnelServer) : Prop where
  routed : s.broker.Routed
  listed : s.broker.Listed
  uncut : s.cut = []

variable {readNumber} {s s' : TunnelServer} {e : Event}

theorem inv_init (capacity : Nat) : Inv (system readNumber capacity).init where
  routed := Broker.routed_init capacity
  listed _ _ hget := by cases hget
  uncut := rfl

theorem step_broker {e : Broker.Event (List Char)} (hstep : s.step readNumber (.broker e) = some s') :
    ∃ broker, s.broker.step e = some broker ∧
      s' = { s with broker := broker, cut := s.cut ++ (s.broker.cutBy e).toList } := by
  simp only [step] at hstep
  split at hstep
  · cases hstep
  · obtain ⟨broker, hbroker, rfl⟩ := Option.map_eq_some_iff.mp hstep
    exact ⟨broker, hbroker, rfl⟩

theorem step_read {t : Nat} {text : List Char} {hooks : Hooks} {now : Instant}
    (hstep : s.step readNumber (.read t text hooks now) = some s') :
    ∃ tunnel, s.broker.tunnels[t]? = some tunnel ∧ tunnel.at_ = .serving ∧
      s' = s.readText readNumber t tunnel text hooks now := by
  obtain ⟨tunnel, hget, hread⟩ := Option.bind_eq_some_iff.mp hstep
  split at hread
  · rename_i hat
    cases hread
    exact ⟨tunnel, hget, hat, rfl⟩
  · cases hread

/-- Reading a frame moves no tunnel and changes no route. -/
theorem routed_readText (h : s.broker.Routed) (t : Nat) (tunnel : Tunnel (List Char)) (text : List Char)
    (hooks : Hooks) (now : Instant) : (s.readText readNumber t tunnel text hooks now).broker.Routed := by
  intro agentId entry hentry
  have hroute : s.broker.registry.route agentId = some entry.val.tx := by
    rw [← @InMemoryAgentRegistry.route_touch s.broker.registry tunnel.agentId agentId now]
    exact InMemoryAgentRegistry.route_eq_some_iff.mpr ⟨entry, hentry, rfl⟩
  obtain ⟨old, hold, htx⟩ := InMemoryAgentRegistry.route_eq_some_iff.mp hroute
  rw [← htx]
  exact h agentId old hold

theorem inv_step (hstep : s.step readNumber e = some s') (h : Inv s) (hspares : s.Spares e) : Inv s' := by
  cases e with
  | broker e =>
      obtain ⟨broker, hbroker, rfl⟩ := step_broker hstep
      refine ⟨Broker.routed_step hbroker h.routed, Broker.listed_step hbroker h.listed hspares, ?_⟩
      rw [h.uncut, Broker.spares_iff.mp hspares]
      rfl
  | read t text hooks now =>
      obtain ⟨tunnel, hget, hat, rfl⟩ := step_read hstep
      exact ⟨routed_readText h.routed t tunnel text hooks now,
        Broker.listed_of_eq h.listed rfl fun _ => InMemoryAgentRegistry.route_touch now, h.uncut⟩

/-- Two tunnels of one agent that hold their leases are one, since the agent has one route. -/
theorem Inv.served (h : Inv s) {t t' : Nat} {tunnel tunnel' : Tunnel (List Char)}
    (hget : s.broker.tunnels[t]? = some tunnel) (hget' : s.broker.tunnels[t']? = some tunnel')
    (hat : tunnel.at_ = .serving) (hat' : tunnel'.at_ = .serving) (hagent : tunnel.agentId = tunnel'.agentId) :
    t = t' := by
  have hroute := h.listed t tunnel hget (by rw [hat]; rfl)
  have hroute' := h.listed t' tunnel' hget' (by rw [hat']; rfl)
  rw [hagent, hroute'] at hroute
  exact (Option.some.inj hroute).symm

theorem cutTunnelsEnd_iff (hstep : s.step readNumber e = some s') (h : Inv s) :
    CutTunnelsEnd s s' ↔ s.Spares e := by
  constructor
  · intro hend
    cases e with
    | read => trivial
    | broker e =>
        obtain ⟨broker, hbroker, rfl⟩ := step_broker hstep
        refine Broker.spares_iff.mpr ?_
        by_contra hcut
        obtain ⟨t, hcut⟩ := Option.ne_none_iff_exists'.mp hcut
        have hmem : t ∈ s.cut ++ (s.broker.cutBy e).toList := by
          rw [hcut]
          exact List.mem_append_right _ (List.mem_singleton.mpr rfl)
        obtain ⟨tunnel, hget, hlive⟩ := Broker.cut_not_ended hbroker h.routed hcut
        have hrouted := Broker.routed_step hbroker h.routed
        exact hlive ((Broker.holders_eq_nil_iff hrouted t).mp (hend.dropped t hmem) tunnel hget)
  · intro hspares
    have hinv := inv_step hstep h hspares
    constructor
    · intro t hmem
      rw [hinv.uncut] at hmem
      cases hmem
    · intro t hmem
      rw [h.uncut] at hmem
      cases hmem
    · intro t t' tunnel tunnel' hget hget' hat hat' hagent
      exact hinv.served hget hget' hat hat' hagent

/-- A run leaves nothing of a cut tunnel behind and serves no agent twice, at every step, if and only if it
cuts no tunnel: no disconnect and no acquire finds its agent connected. -/
theorem cutTunnelsEnd_iff_spares (capacity : Nat) (es : List Event) :
    (system readNumber capacity).EveryStep (fun s _ s' => CutTunnelsEnd s s') (system readNumber capacity).init es ↔
      (system readNumber capacity).EveryStep (fun s e _ => s.Spares e) (system readNumber capacity).init es :=
  (system readNumber capacity).everyStep_congr (I := Inv)
    (fun _ _ _ hstep h => cutTunnelsEnd_iff hstep h)
    (fun _ _ _ hstep h hspares => inv_step hstep h hspares) (inv_init capacity) es

private def agentSeven : Claims := ⟨7, "agent", none, 60, "overacp"⟩

/-- A tunnel is served, its agent is disconnected, and the socket brings another frame. -/
private def readAfterDisconnect : List Event :=
  [.broker (.connect 7 agentSeven), .broker (.acquire 0 0), .broker (.drain 0), .broker (.enqueue 0),
    .broker (.disconnect 7 1)]

/-- The frame is dispatched to the hook. -/
theorem disconnected_socket_asks_hooks :
    ¬ ∀ es, (system some defaultPerAgentCapacity).EveryStep (fun s _ s' => CutTunnelsEnd s s')
      (system some defaultPerAgentCapacity).init es := by
  intro h
  have hrun := h (readAfterDisconnect ++ [.read 0 Dispatch.initializeFrame Dispatch.deepHooks 2])
  have hlast := hrun.last (t := _) (u := _) rfl rfl
  have hasked := (hlast.unread 0 (List.mem_singleton.mpr rfl)).2
  obtain ⟨id, params, hrequest⟩ := Dispatch.isRequest_initializeFrame
  have hcalls := congrArg Dispatch.Asked.calls (Dispatch.handleText_request Dispatch.deepHooks hrequest)
  have hown : Dispatch.ownHook Protocol.Methods.initializeAgent params = [.boot] := rfl
  simp only [askedBy, readText, hcalls, hown] at hasked
  exact absurd (congrArg List.length hasked) (by decide)

end TunnelServer

end Overacp
