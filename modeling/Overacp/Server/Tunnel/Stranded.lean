import Overacp.Server.Tunnel.Broker

/-!
# Messages stranded behind a drain

`send_message` tries `deliver` and then falls back to `push`; `run_tunnel` registers, then drains. A
push that lands after the drain it was meant for stays in the queue although the agent is online,
and nothing drains it until the next reconnect. This module says which pushes do that, in any
interleaving of requests, tunnels and disconnects.
-/

namespace Overacp

namespace TunnelAt

variable {φ : Type}

/-- The tunnel has drained the queue and its read loop has not broken yet. -/
def pastDrain : TunnelAt φ → Bool
  | .draining _ | .serving => true
  | _ => false

/-- The tunnel has acquired its lease and not dropped it. -/
def holdsLease : TunnelAt φ → Bool
  | .acquired | .draining _ | .serving => true
  | _ => false

end TunnelAt

namespace Broker

variable {φ : Type} {s s' : Broker φ}

/-- The `t`-th tunnel belongs to the agent, is past its drain, and its channel is open. -/
def OpenPastDrain (s : Broker φ) (t : Nat) (agentId : Uuid) : Prop :=
  ∃ tunnel, s.tunnels[t]? = some tunnel ∧ tunnel.agentId = agentId ∧ tunnel.at_.pastDrain = true ∧
    (s.channels t).isOpen = true

def NoneStranded (s : Broker φ) : Prop :=
  ∀ t agentId, s.OpenPastDrain t agentId → s.messageQueue.buffer agentId = []

/-- A push that the queue has room for comes before the drain of every tunnel it could miss. -/
def PushBeforeDrain (before : Broker φ) : Event φ → Prop
  | .push p => ∀ post frame, before.posts[p]? = some post → post.at_ = .pushing frame →
      before.messageQueue.len post.agentId < before.messageQueue.perAgentCapacity →
        ∀ t, ¬ before.OpenPastDrain t post.agentId
  | _ => True

/-- No request is between its deliver and its push, no tunnel between its acquire and the end of
its drain. -/
structure Quiescent (s : Broker φ) : Prop where
  posts : ∀ post ∈ s.posts, ∀ frame, post.at_ ≠ .pushing frame
  acquired : ∀ tunnel ∈ s.tunnels, tunnel.at_ ≠ .acquired
  draining : ∀ tunnel ∈ s.tunnels, ∀ buffered, tunnel.at_ ≠ .draining buffered

/-- The registry routes the agent to a channel whose receiver is alive. -/
def ConnectedThroughOpen (s : Broker φ) (agentId : Uuid) : Prop :=
  ∃ entry, s.registry.get agentId = some entry ∧ (s.channels entry.val.tx).isOpen = true

/-- Some tunnel of the agent serves an open channel, whatever the registry says. -/
def ServedThroughOpen (s : Broker φ) (agentId : Uuid) : Prop :=
  ∃ t tunnel, s.tunnels[t]? = some tunnel ∧ tunnel.agentId = agentId ∧ tunnel.at_ = .serving ∧
    (s.channels t).isOpen = true

/-! ### What a step changes -/

/-- What every step of a tunnel does. It replaces that tunnel and opens no channel; only its drain
takes it past the drain; and it enters the registry with its acquire and leaves it with its close. -/
structure TunnelMoves (s s' : Broker φ) (t : Nat) (tunnel tunnel' : Tunnel φ) : Prop where
  tunnels : s'.tunnels = s.tunnels.set t tunnel'
  agentId : tunnel'.agentId = tunnel.agentId
  channels : ∀ n, (s'.channels n).isOpen = true → (s.channels n).isOpen = true
  queue : s'.messageQueue = (s.messageQueue.drain tunnel.agentId).2 ∨
    s'.messageQueue = s.messageQueue ∧ (tunnel'.at_.pastDrain = true → tunnel.at_.pastDrain = true)
  registry : (∃ now, s'.registry = (s.registry.acquire t tunnel.agentId t tunnel.claims now).2 ∧
      tunnel'.at_ = .acquired) ∨
    (∃ now, s'.registry = s.registry.unregister tunnel.agentId now) ∨
    s'.registry = s.registry ∧ (tunnel.at_.holdsLease = true → tunnel'.at_.holdsLease = true)

theorem isOpen_close (cs : Channels φ) {t n : Nat} (hopen : (cs.close t n).isOpen = true) :
    (cs n).isOpen = true := by
  by_cases htn : n = t
  · subst htn
    rw [Channels.close_self] at hopen
    cases hopen
  · rwa [Channels.close_ne cs htn] at hopen

theorem isOpen_recv {cs cs' : Channels φ} {t n : Nat} {frame : φ}
    (hrecv : cs.recv t = some (frame, cs')) (hopen : (cs' n).isOpen = true) :
    (cs n).isOpen = true := by
  unfold Channels.recv at hrecv
  split at hrecv
  · cases hrecv
  · cases hrecv
    by_cases htn : n = t
    · subst htn
      rwa [Function.update_self] at hopen
    · rwa [Function.update_of_ne htn] at hopen

/-- A request, a new connection and a disconnect leave every tunnel where it stands. -/
structure Elsewhere (s s' : Broker φ) (e : Event φ) : Prop where
  tunnels : ∀ (t : Nat) (tunnel : Tunnel φ), s'.tunnels[t]? = some tunnel →
    s.tunnels[t]? = some tunnel ∨ tunnel.at_ = .connecting
  kept : ∀ (t : Nat) (tunnel : Tunnel φ), s.tunnels[t]? = some tunnel → s'.tunnels[t]? = some tunnel
  channels : ∀ (t : Nat) (tunnel : Tunnel φ), s.tunnels[t]? = some tunnel →
    (s'.channels t).isOpen = (s.channels t).isOpen
  queue : s'.messageQueue = s.messageQueue ∨ ∃ p post frame, e = .push p ∧ s.posts[p]? = some post ∧
    post.at_ = .pushing frame ∧ s'.messageQueue = (s.messageQueue.push post.agentId frame).2
  registry : s'.registry = s.registry ∨ ∃ agentId now, s'.registry = s.registry.unregister agentId now

theorem elsewhere_connect (agentId : Uuid) (claims : Claims) :
    Elsewhere s (s.connect agentId claims) (.connect agentId claims) where
  tunnels := by
    intro t tunnel hget
    rcases Slots.of_getElem?_concat hget with ⟨-, rfl⟩ | ⟨-, hold⟩
    · exact .inr rfl
    · exact .inl hold
  kept := fun _ _ hget => Slots.getElem?_concat_of_some hget
  channels := by
    intro t tunnel hget
    have hlt : t < s.tunnels.length := (List.getElem?_eq_some_iff.mp hget).1
    exact congrArg Channel.isOpen (Channels.create_ne _ (Nat.ne_of_lt hlt))
  queue := .inl rfl
  registry := .inl rfl

/-- Only the queue and the registry have to be looked at where the tunnels are left alone. -/
theorem elsewhere_of_tunnels {e : Event φ} (htunnels : s'.tunnels = s.tunnels)
    (hchannels : ∀ t, (s'.channels t).isOpen = (s.channels t).isOpen)
    (hqueue : s'.messageQueue = s.messageQueue ∨ ∃ p post frame, e = .push p ∧ s.posts[p]? = some post ∧
      post.at_ = .pushing frame ∧ s'.messageQueue = (s.messageQueue.push post.agentId frame).2)
    (hregistry : s'.registry = s.registry ∨ ∃ agentId now, s'.registry = s.registry.unregister agentId now) :
    Elsewhere s s' e where
  tunnels _ _ hget := .inl (htunnels ▸ hget)
  kept _ _ hget := htunnels.symm ▸ hget
  channels t _ _ := hchannels t
  queue := hqueue
  registry := hregistry

theorem elsewhere_push {p : Nat} (hstep : s.step (.push p) = some s') : Elsewhere s s' (.push p) := by
  cases taken_of_step hstep with
  | @pushed _ post frame _ hget hat hpush | @refused _ post frame _ _ hget hat hpush =>
      exact elsewhere_of_tunnels rfl (fun _ => rfl) (.inr ⟨p, post, frame, rfl, hget, hat, by rw [hpush]⟩)
        (.inl rfl)

/-- A step moves one tunnel, or leaves all of them alone. -/
theorem step_cases {e : Event φ} (hstep : s.step e = some s') :
    (∃ t tunnel tunnel', s.tunnels[t]? = some tunnel ∧ TunnelMoves s s' t tunnel tunnel') ∨
      Elsewhere s s' e := by
  cases taken_of_step hstep with
  | connect agentId claims => exact .inr (elsewhere_connect agentId claims)
  | @acquire t tunnel now hget hat =>
      exact .inl ⟨t, tunnel, { tunnel with at_ := .acquired }, hget, rfl, rfl, fun _ hopen => hopen,
        .inr ⟨rfl, fun hpast => by cases hpast⟩, .inl ⟨now, rfl, rfl⟩⟩
  | @drain t tunnel hget hat =>
      exact .inl ⟨t, tunnel, _, hget, rfl, rfl, fun _ hopen => hopen, .inl rfl,
        .inr (.inr ⟨rfl, fun _ => rfl⟩)⟩
  | @serve t tunnel hget hat =>
      exact .inl ⟨t, tunnel, { tunnel with at_ := .serving }, hget, rfl, rfl, fun _ hopen => hopen,
        .inr ⟨rfl, fun _ => by rw [hat]; rfl⟩, .inr (.inr ⟨rfl, fun _ => rfl⟩)⟩
  | @enqueue t tunnel frame buffered hget hat =>
      exact .inl ⟨t, tunnel, { tunnel with at_ := .draining buffered }, hget, rfl, rfl,
        fun n hopen => by rwa [Channels.isOpen_sent] at hopen, .inr ⟨rfl, fun _ => by rw [hat]; rfl⟩,
        .inr (.inr ⟨rfl, fun _ => rfl⟩)⟩
  | @write t tunnel frame channels hget hat hrecv =>
      exact .inl ⟨t, tunnel, _, hget, rfl, rfl, fun n hopen => isOpen_recv hrecv hopen,
        .inr ⟨rfl, fun hpast => hpast⟩, .inr (.inr ⟨rfl, fun hholds => hholds⟩)⟩
  | @writeFails t tunnel hget hat =>
      exact .inl ⟨t, tunnel, tunnel, hget, tunnels_eq_set hget, rfl, fun n hopen => isOpen_close _ hopen,
        .inr ⟨rfl, fun hpast => hpast⟩, .inr (.inr ⟨rfl, fun hholds => hholds⟩)⟩
  | @respond t tunnel frame hget hat =>
      exact .inl ⟨t, tunnel, tunnel, hget, tunnels_eq_set hget, rfl,
        fun n hopen => by rwa [Channels.isOpen_sent] at hopen, .inr ⟨rfl, fun hpast => hpast⟩,
        .inr (.inr ⟨rfl, fun hholds => hholds⟩)⟩
  | @close t tunnel now hget hat =>
      exact .inl ⟨t, tunnel, { tunnel with at_ := .leaving }, hget, rfl, rfl, fun _ hopen => hopen,
        .inr ⟨rfl, fun hpast => by cases hpast⟩, .inr (.inl ⟨now, rfl⟩)⟩
  | @abort t tunnel hget hat =>
      exact .inl ⟨t, tunnel, { tunnel with at_ := .ended }, hget, rfl, rfl,
        fun n hopen => isOpen_close _ hopen, .inr ⟨rfl, fun hpast => by cases hpast⟩,
        .inr (.inr ⟨rfl, fun hholds => by rw [hat] at hholds; cases hholds⟩)⟩
  | post | deliverNone => exact .inr (elsewhere_of_tunnels rfl (fun _ => rfl) (.inl rfl) (.inl rfl))
  | deliverLive =>
      exact .inr (elsewhere_of_tunnels rfl (fun n => Channels.isOpen_sent _ _ n _) (.inl rfl) (.inl rfl))
  | pushed | refused => exact .inr (elsewhere_push hstep)
  | disconnect agentId now =>
      refine .inr ?_
      unfold disconnectAgent
      split
      · exact elsewhere_of_tunnels rfl (fun _ => rfl) (.inl rfl) (.inr ⟨agentId, now, rfl⟩)
      · exact elsewhere_of_tunnels rfl (fun _ => rfl) (.inl rfl) (.inl rfl)

/-! ### Which pushes strand a message -/

/-- The tunnel and the channel a later state shows past the drain were there before, unless the step
is a drain of the agent. -/
theorem openPastDrain_before {t : Nat} {tunnel tunnel' : Tunnel φ} (hget : s.tunnels[t]? = some tunnel)
    (hmoves : TunnelMoves s s' t tunnel tunnel')
    (hpast : tunnel'.at_.pastDrain = true → tunnel.at_.pastDrain = true) {n : Nat} {agentId : Uuid}
    (hopen : s'.OpenPastDrain n agentId) : s.OpenPastDrain n agentId := by
  obtain ⟨other, hother, howner, hdrained, hlive⟩ := hopen
  rw [hmoves.tunnels] at hother
  rcases Slots.of_getElem?_set hother with ⟨rfl, rfl⟩ | ⟨-, hold⟩
  · exact ⟨tunnel, hget, hmoves.agentId ▸ howner, hpast hdrained, hmoves.channels _ hlive⟩
  · exact ⟨other, hold, howner, hdrained, hmoves.channels _ hlive⟩

theorem noneStranded_moves {t : Nat} {tunnel tunnel' : Tunnel φ} (hget : s.tunnels[t]? = some tunnel)
    (hmoves : TunnelMoves s s' t tunnel tunnel') (h : s.NoneStranded) : s'.NoneStranded := by
  intro n agentId hopen
  rcases hmoves.queue with hqueue | ⟨hqueue, hpast⟩
  · rw [hqueue]
    by_cases hagent : agentId = tunnel.agentId
    · subst hagent
      exact InMemoryMessageQueue.buffer_drain_self ..
    · rw [InMemoryMessageQueue.buffer_drain_ne hagent]
      obtain ⟨other, hother, howner, hdrained, hlive⟩ := hopen
      rw [hmoves.tunnels] at hother
      rcases Slots.of_getElem?_set hother with ⟨rfl, rfl⟩ | ⟨-, hold⟩
      · exact absurd (howner.symm.trans hmoves.agentId) hagent
      · exact h n agentId ⟨other, hold, howner, hdrained, hmoves.channels _ hlive⟩
  · rw [hqueue]
    exact h n agentId (openPastDrain_before hget hmoves hpast hopen)

theorem openPastDrain_elsewhere {e : Event φ} (helse : Elsewhere s s' e) (t : Nat) (agentId : Uuid) :
    s'.OpenPastDrain t agentId ↔ s.OpenPastDrain t agentId := by
  constructor
  · intro hopen
    obtain ⟨tunnel, hget, howner, hdrained, hlive⟩ := hopen
    rcases helse.tunnels t tunnel hget with hold | hnew
    · exact ⟨tunnel, hold, howner, hdrained, helse.channels t tunnel hold ▸ hlive⟩
    · rw [hnew] at hdrained
      cases hdrained
  · intro hopen
    obtain ⟨tunnel, hget, howner, hdrained, hlive⟩ := hopen
    exact ⟨tunnel, helse.kept t tunnel hget, howner, hdrained, (helse.channels t tunnel hget).trans hlive⟩

theorem noneStranded_push_iff {p : Nat} (hstep : s.step (.push p) = some s')
    (h : s.NoneStranded) : s'.NoneStranded ↔ s.PushBeforeDrain (.push p) := by
  have helse := elsewhere_push hstep
  obtain ⟨post, frame, hget, hat, hqueue⟩ : ∃ post frame, s.posts[p]? = some post ∧
      post.at_ = .pushing frame ∧ s'.messageQueue = (s.messageQueue.push post.agentId frame).2 := by
    cases taken_of_step hstep with
    | @pushed _ post frame _ hget hat hpush | @refused _ post frame _ _ hget hat hpush =>
        exact ⟨post, frame, hget, hat, by rw [hpush]⟩
  constructor
  · intro hnone other frame' hother _ hroom t hopen
    rw [hget] at hother
    cases hother
    have hempty := hnone t post.agentId ((openPastDrain_elsewhere helse t post.agentId).mpr hopen)
    rw [hqueue, InMemoryMessageQueue.buffer_push_self, if_neg (by omega)] at hempty
    exact List.append_ne_nil_of_right_ne_nil _ (List.cons_ne_nil _ _) hempty
  · intro hbefore t agentId hopen
    have hold := (openPastDrain_elsewhere helse t agentId).mp hopen
    rw [hqueue]
    by_cases hagent : agentId = post.agentId
    · subst hagent
      rw [InMemoryMessageQueue.buffer_push_self]
      split
      · exact h t _ hold
      · exact absurd hold (hbefore post frame hget hat (by omega) t)
    · rw [InMemoryMessageQueue.buffer_push_ne frame hagent]
      exact h t agentId hold

/-- A step strands no message if and only if it is no push that comes after the drain. -/
theorem noneStranded_step_iff {e : Event φ} (hstep : s.step e = some s') (h : s.NoneStranded) :
    s'.NoneStranded ↔ s.PushBeforeDrain e := by
  by_cases hpush : ∃ p, e = .push p
  · obtain ⟨p, rfl⟩ := hpush
    exact noneStranded_push_iff hstep h
  · have hbefore : s.PushBeforeDrain e := by
      cases e with
      | push p => exact absurd ⟨p, rfl⟩ hpush
      | _ => trivial
    refine ⟨fun _ => hbefore, fun _ => ?_⟩
    rcases step_cases hstep with ⟨t, tunnel, tunnel', hget, hmoves⟩ | helse
    · exact noneStranded_moves hget hmoves h
    · intro t agentId hopen
      rcases helse.queue with hqueue | ⟨p, _, _, rfl, _⟩
      · rw [hqueue]
        exact h t agentId ((openPastDrain_elsewhere helse t agentId).mp hopen)
      · exact absurd ⟨p, rfl⟩ hpush

theorem noneStranded_init (capacity : Nat) : (system (φ := φ) capacity).init.NoneStranded := by
  intro t agentId hopen
  obtain ⟨tunnel, hget, _⟩ := hopen
  cases hget

/-- No step of a run strands a message if and only if every push that is accepted comes before the
drain of the tunnels it could miss. -/
theorem everyStep_noneStranded_iff (capacity : Nat) (es : List (Event φ)) :
    (system capacity).EveryStep (fun _ _ s' => s'.NoneStranded) (system capacity).init es ↔
      (system capacity).EveryStep (fun s e _ => s.PushBeforeDrain e) (system capacity).init es :=
  (system capacity).everyStep_congr (fun _ _ _ hstep h => noneStranded_step_iff hstep h)
    (fun _ _ _ hstep h hpush => (noneStranded_step_iff hstep h).mpr hpush) (noneStranded_init capacity) es

/-! ### What the registry routes to -/

/-- An entry of the registry was put there by a tunnel of that agent which still holds its lease. -/
def Routed (s : Broker φ) : Prop :=
  ∀ agentId entry, s.registry.get agentId = some entry →
    ∃ tunnel, s.tunnels[entry.val.tx]? = some tunnel ∧ tunnel.agentId = agentId ∧
      tunnel.at_.holdsLease = true

theorem get_of_get_unregister {registry : InMemoryAgentRegistry} {agentId other : Uuid} {now : Instant}
    {entry : Arc AgentEntry} (hget : (registry.unregister agentId now).get other = some entry) :
    other ≠ agentId ∧ registry.get other = some entry := by
  by_cases hagent : other = agentId
  · subst hagent
    rw [InMemoryAgentRegistry.get_unregister_self] at hget
    cases hget
  · exact ⟨hagent, by rwa [InMemoryAgentRegistry.get_unregister_ne now hagent] at hget⟩

/-- The tunnel an entry names moves only if its agent is the one that takes the step. -/
theorem routed_other {t : Nat} {tunnel tunnel' : Tunnel φ} (hget : s.tunnels[t]? = some tunnel)
    (hmoves : TunnelMoves s s' t tunnel tunnel') (h : s.Routed) {agentId : Uuid}
    {entry : Arc AgentEntry} (hentry : s.registry.get agentId = some entry)
    (hagent : agentId ≠ tunnel.agentId) :
    ∃ other, s'.tunnels[entry.val.tx]? = some other ∧ other.agentId = agentId ∧
      other.at_.holdsLease = true := by
  obtain ⟨other, hother, howner, hholds⟩ := h agentId entry hentry
  have htn : t ≠ entry.val.tx := by
    intro htn
    rw [← htn, hget] at hother
    cases hother
    exact hagent howner.symm
  exact ⟨other, by rwa [hmoves.tunnels, List.getElem?_set_ne htn], howner, hholds⟩

theorem routed_moves {t : Nat} {tunnel tunnel' : Tunnel φ} (hget : s.tunnels[t]? = some tunnel)
    (hmoves : TunnelMoves s s' t tunnel tunnel') (h : s.Routed) : s'.Routed := by
  have hself : s'.tunnels[t]? = some tunnel' := by
    have hlt : t < s.tunnels.length := (List.getElem?_eq_some_iff.mp hget).1
    rw [hmoves.tunnels, List.getElem?_set_self hlt]
  intro agentId entry hentry
  rcases hmoves.registry with ⟨now, hregistry, hat⟩ | ⟨now, hregistry⟩ | ⟨hregistry, hkeeps⟩
  · rw [hregistry] at hentry
    by_cases hagent : agentId = tunnel.agentId
    · subst hagent
      have hnew : entry = ⟨t, .new t tunnel.claims now⟩ :=
        (Option.some.inj ((InMemoryAgentRegistry.get_register_self ..).symm.trans hentry)).symm
      rw [hnew]
      exact ⟨tunnel', hself, hmoves.agentId, by rw [hat]; rfl⟩
    · have hold := (InMemoryAgentRegistry.get_register_ne _ hagent).symm.trans hentry
      exact routed_other hget hmoves h hold hagent
  · rw [hregistry] at hentry
    obtain ⟨hagent, hold⟩ := get_of_get_unregister hentry
    exact routed_other hget hmoves h hold hagent
  · rw [hregistry] at hentry
    by_cases hagent : agentId = tunnel.agentId
    · obtain ⟨other, hother, howner, hholds⟩ := h agentId entry hentry
      by_cases htn : t = entry.val.tx
      · rw [← htn, hget] at hother
        cases hother
        exact ⟨tunnel', htn ▸ hself, hmoves.agentId.trans howner, hkeeps hholds⟩
      · exact ⟨other, by rwa [hmoves.tunnels, List.getElem?_set_ne htn], howner, hholds⟩
    · exact routed_other hget hmoves h hentry hagent

theorem routed_step {e : Event φ} (hstep : s.step e = some s') (h : s.Routed) : s'.Routed := by
  rcases step_cases hstep with ⟨t, tunnel, tunnel', hget, hmoves⟩ | helse
  · exact routed_moves hget hmoves h
  · intro agentId entry hentry
    have hold : s.registry.get agentId = some entry := by
      rcases helse.registry with hregistry | ⟨other, now, hregistry⟩
      · rwa [hregistry] at hentry
      · rw [hregistry] at hentry
        exact (get_of_get_unregister hentry).2
    obtain ⟨tunnel, hget, howner, hholds⟩ := h agentId entry hold
    exact ⟨tunnel, helse.kept _ tunnel hget, howner, hholds⟩

theorem routed_init (capacity : Nat) : (system (φ := φ) capacity).init.Routed := by
  intro agentId entry hentry
  cases hentry

/-- In a quiescent state the tunnel the registry routes to is in its read loop. -/
theorem servedThroughOpen_of_connected (h : s.Routed) (hquiet : s.Quiescent) {agentId : Uuid}
    (hconnected : s.ConnectedThroughOpen agentId) : s.ServedThroughOpen agentId := by
  obtain ⟨entry, hentry, hopen⟩ := hconnected
  obtain ⟨tunnel, hget, howner, hholds⟩ := h agentId entry hentry
  have hmem : tunnel ∈ s.tunnels := List.mem_of_getElem? hget
  refine ⟨entry.val.tx, tunnel, hget, howner, ?_, hopen⟩
  cases hat : tunnel.at_ with
  | serving => rfl
  | acquired => exact absurd hat (hquiet.acquired tunnel hmem)
  | draining buffered => exact absurd hat (hquiet.draining tunnel hmem buffered)
  | connecting | leaving | ended =>
      rw [hat] at hholds
      cases hholds

theorem noneStranded_run {capacity : Nat} {es : List (Event φ)}
    (hrun : (system capacity).run (system capacity).init es = some s)
    (hpush : (system capacity).EveryStep (fun s e _ => s.PushBeforeDrain e) (system capacity).init es) :
    s.NoneStranded :=
  (system capacity).run_invariant_of_everyStep (I := NoneStranded)
    (fun _ _ _ hstep hbefore h => (noneStranded_step_iff hstep h).mpr hbefore) hrun hpush
    (noneStranded_init capacity)

/-- In every run whose accepted pushes all come before the drain of the tunnels they could miss, an
agent that is connected through an open tunnel has an empty queue whenever the broker is quiescent. -/
theorem queue_empty_while_connected {capacity : Nat} {es : List (Event φ)}
    (hrun : (system capacity).run (system capacity).init es = some s)
    (hpush : (system capacity).EveryStep (fun s e _ => s.PushBeforeDrain e) (system capacity).init es)
    (hquiet : s.Quiescent) (agentId : Uuid)
    (honline : s.ConnectedThroughOpen agentId ∨ s.ServedThroughOpen agentId) :
    s.messageQueue.isEmpty agentId = true := by
  have hrouted : s.Routed :=
    (system capacity).run_invariant (fun _ _ _ hstep h => routed_step hstep h) hrun
      (routed_init capacity)
  have hserved : s.ServedThroughOpen agentId := by
    rcases honline with hconnected | hserved
    · exact servedThroughOpen_of_connected hrouted hquiet hconnected
    · exact hserved
  obtain ⟨t, tunnel, hget, howner, hat, hopen⟩ := hserved
  have hempty := noneStranded_run hrun hpush t agentId ⟨tunnel, hget, howner, by rw [hat]; rfl, hopen⟩
  rw [InMemoryMessageQueue.isEmpty, InMemoryMessageQueue.len, hempty]
  rfl

private def agentSeven : Claims := ⟨7, "agent", none, 60, "overacp"⟩

/-- A request falls back to its push while the tunnel is between its acquire and its drain. -/
private def pushThenDrain : List (Event String) :=
  [.connect 7 agentSeven, .post 7 "hi", .deliver 0, .acquire 0 0, .push 0, .drain 0, .enqueue 0, .enqueue 0]

/-- The same request falls back after the drain. -/
private def drainThenPush : List (Event String) :=
  [.connect 7 agentSeven, .post 7 "hi", .deliver 0, .acquire 0 0, .drain 0, .enqueue 0, .push 0]

theorem quiescent_of_answered_serving {post : Post φ} {tunnel : Tunnel φ}
    {outcome : Except QueueError Delivery} (hposts : s.posts = [post]) (htunnels : s.tunnels = [tunnel])
    (hpost : post.at_ = .answered outcome) (htunnel : tunnel.at_ = .serving) : s.Quiescent := by
  refine ⟨fun other hother frame hat => ?_, fun other hother hat => ?_, fun other hother buffered hat => ?_⟩
  · rw [hposts, List.mem_singleton] at hother
    rw [hother, hpost] at hat
    cases hat
  · rw [htunnels, List.mem_singleton] at hother
    rw [hother, htunnel] at hat
    cases hat
  · rw [htunnels, List.mem_singleton] at hother
    rw [hother, htunnel] at hat
    cases hat

theorem queue_empty_after_push_then_drain :
    ∃ s, (system defaultPerAgentCapacity).run (system defaultPerAgentCapacity).init pushThenDrain =
      some s ∧ s.ConnectedThroughOpen 7 ∧ s.messageQueue.isEmpty 7 = true := by
  have hconnected : ∃ s, (system defaultPerAgentCapacity).run (system defaultPerAgentCapacity).init
      pushThenDrain = some s ∧ s.Quiescent ∧ s.ConnectedThroughOpen 7 :=
    ⟨_, rfl, quiescent_of_answered_serving rfl rfl rfl rfl, _, rfl, rfl⟩
  obtain ⟨s, hrun, hquiet, hopen⟩ := hconnected
  refine ⟨s, hrun, hopen, queue_empty_while_connected hrun ?_ hquiet 7 (.inl hopen)⟩
  simp only [pushThenDrain, Transition.System.EveryStep, PushBeforeDrain, true_and, and_true]
  intro s₁ h₁ s₂ h₂ s₃ h₃ s₄ h₄ s₅ _
  cases h₁; cases h₂; cases h₃; cases h₄
  refine ⟨fun post frame hget _ _ t hpast => ?_, fun _ _ _ _ _ _ => trivial⟩
  cases hget
  obtain ⟨tunnel, htunnel, _, hdrained, _⟩ := hpast
  cases List.mem_singleton.mp (List.mem_of_getElem? htunnel)
  cases hdrained

/-- A push lands after the drain it was meant for: the agent is connected, nothing is under way, and
its message stays in the queue. -/
theorem push_after_drain_strands :
    ¬ ∀ (es : List (Event String)) (s : Broker String),
      (system defaultPerAgentCapacity).run (system defaultPerAgentCapacity).init es = some s →
        s.Quiescent → ∀ agentId, s.ConnectedThroughOpen agentId →
          s.messageQueue.isEmpty agentId = true := by
  intro h
  have hempty := h drainThenPush _ rfl (quiescent_of_answered_serving rfl rfl rfl rfl) 7 ⟨_, rfl, rfl⟩
  exact absurd hempty (by decide)

end Broker

end Overacp
