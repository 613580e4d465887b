import Overacp.Lib.Transition
import Overacp.Server.Registry.Agent

/-!
# Overlapping leases of the in-memory registry

`acquire` hands out a guard whose drop unregisters the agent. The guard closes over the agent id and
nothing else, so on a flapping reconnect the guard of the replaced tunnel unregisters whatever entry
is in the table by then. This module runs acquires, drops and disconnects of any number of agents in
any order, and says exactly in which runs a drop leaves the newer tunnel alone.
-/

namespace Overacp

/-- What `acquire` returns. The guard remembers the agent id only; `installed` names the entry its
acquire put in the table, for the statements below. -/
structure TunnelLease where
  agentId : Uuid
  installed : Arc AgentEntry
  deriving DecidableEq, Repr

namespace InMemoryAgentRegistry

def acquire (registry : InMemoryAgentRegistry) (addr : Nat) (agentId : Uuid) (localTx : Sender)
    (claims : Claims) (now : Instant) : TunnelLease × InMemoryAgentRegistry :=
  let entry : Arc AgentEntry := ⟨addr, .new localTx claims now⟩
  (⟨agentId, entry⟩, (registry.register agentId entry).2)

/-- `TunnelLease::drop`: the closure built by `acquire`. -/
def dropLease (registry : InMemoryAgentRegistry) (lease : TunnelLease) (now : Instant) :
    InMemoryAgentRegistry := registry.unregister lease.agentId now

def disconnect (registry : InMemoryAgentRegistry) (agentId : Uuid) (now : Instant) :
    InMemoryAgentRegistry := registry.unregister agentId now

end InMemoryAgentRegistry

namespace Leases

open InMemoryAgentRegistry

/-- The registry, the leases that are held, and the history a statement about them needs: the most
recent lease of each agent and whether a disconnect came after it. -/
structure World where
  registry : InMemoryAgentRegistry
  nextAddr : Nat
  held : List TunnelLease
  newest : Uuid → Option TunnelLease
  cut : Uuid → Bool

inductive Event where
  | acquire (agentId : Uuid) (localTx : Sender) (claims : Claims) (now : Instant)
  | dropLease (lease : TunnelLease) (now : Instant)
  | disconnect (agentId : Uuid) (now : Instant)

def step (w : World) : Event → Option World
  | .acquire agentId localTx claims now =>
      let acquired := w.registry.acquire w.nextAddr agentId localTx claims now
      some { registry := acquired.2
             nextAddr := w.nextAddr + 1
             held := acquired.1 :: w.held
             newest := Function.update w.newest agentId (some acquired.1)
             cut := Function.update w.cut agentId false }
  | .dropLease lease now =>
      if lease ∈ w.held then
        some { w with registry := w.registry.dropLease lease now, held := w.held.erase lease }
      else none
  | .disconnect agentId now =>
      some { w with
        registry := w.registry.disconnect agentId now
        cut := Function.update w.cut agentId true }

def system : Transition.System World Event where
  init := ⟨.new, 0, [], fun _ => none, fun _ => false⟩
  step := step

/-- The lease is the newest of its agent, still held, and no disconnect came after it. -/
structure Current (w : World) (lease : TunnelLease) : Prop where
  newest : w.newest lease.agentId = some lease
  held : lease ∈ w.held
  uncut : w.cut lease.agentId = false

/-- A drop takes out of the table no entry but the one its own acquire installed. -/
def OwnEntryOnly (before : World) (event : Event) (after : World) : Prop :=
  ∀ lease now, event = .dropLease lease now → ∀ agentId entry,
    before.registry.get agentId = some entry →
      after.registry.get agentId = some entry ∨ entry.addr = lease.installed.addr

/-- The agent of a current lease is connected, and delivery to it sends into the lease's channel. -/
def CurrentServed (w : World) : Prop :=
  ∀ lease, Current w lease → w.registry.isConnected lease.agentId = true ∧
    ∀ (φ : Type) (channels : Channels φ) (frame : φ),
      w.registry.deliver channels lease.agentId frame =
        sendOutcome channels lease.installed.val.tx frame

/-- A lease is dropped only while no other lease of its agent is current. -/
def InOrder (before : World) : Event → Prop
  | .dropLease lease _ => ∀ other, Current before other → other.agentId = lease.agentId → other = lease
  | _ => True

/-! ### The table holds exactly the entries of the current leases -/

structure Inv (w : World) : Prop where
  served : ∀ lease, Current w lease → w.registry.get lease.agentId = some lease.installed
  others : ∀ agentId, (∀ lease, Current w lease → lease.agentId ≠ agentId) →
    w.registry.get agentId = none
  owner : ∀ agentId lease, w.newest agentId = some lease → lease.agentId = agentId
  fresh : ∀ lease ∈ w.held, lease.installed.addr < w.nextAddr
  distinct : ∀ left ∈ w.held, ∀ right ∈ w.held,
    left.installed.addr = right.installed.addr → left = right
  nodup : w.held.Nodup

theorem inv_init : Inv system.init where
  served := by
    intro lease hcurrent
    cases hcurrent.newest
  others := fun _ _ => rfl
  owner := by
    intro agentId lease hnewest
    cases hnewest
  fresh := by
    intro lease hheld
    cases hheld
  distinct := by
    intro left hleft
    cases hleft
  nodup := List.nodup_nil

theorem Current.unique {w : World} {left right : TunnelLease} (hleft : Current w left)
    (hright : Current w right) (hagent : left.agentId = right.agentId) : left = right := by
  have hnewest := hleft.newest
  rw [hagent, hright.newest] at hnewest
  exact (Option.some.inj hnewest).symm

theorem Inv.currentServed {w : World} (h : Inv w) : CurrentServed w := by
  intro lease hcurrent
  have hget := h.served lease hcurrent
  refine ⟨?_, fun φ channels frame => deliver_of_get hget channels frame⟩
  rw [isConnected, show w.registry.connected.lookup lease.agentId = some lease.installed from hget]
  rfl

/-- After an acquire the new lease is current, and no other lease of its agent is. -/
theorem current_acquire {w w' : World} {agentId : Uuid} {localTx : Sender} {claims : Claims}
    {now : Instant} (hstep : step w (.acquire agentId localTx claims now) = some w')
    (lease : TunnelLease) :
    Current w' lease ↔ lease = ⟨agentId, w.nextAddr, .new localTx claims now⟩ ∨
      lease.agentId ≠ agentId ∧ Current w lease := by
  cases hstep
  constructor
  · rintro ⟨hnewest, hheld, huncut⟩
    by_cases hagent : lease.agentId = agentId
    · rw [hagent] at hnewest
      simp only [Function.update_self, Option.some.injEq] at hnewest
      exact .inl hnewest.symm
    · simp only [Function.update_of_ne hagent] at hnewest huncut
      refine .inr ⟨hagent, hnewest, ?_, huncut⟩
      rcases List.mem_cons.mp hheld with hnew | hold
      · exact absurd (congrArg TunnelLease.agentId hnew) hagent
      · exact hold
  · rintro (rfl | ⟨hagent, hnewest, hheld, huncut⟩)
    · exact ⟨Function.update_self .., List.mem_cons_self, Function.update_self ..⟩
    · exact ⟨(Function.update_of_ne hagent ..).trans hnewest, List.mem_cons_of_mem _ hheld,
        (Function.update_of_ne hagent ..).trans huncut⟩

theorem inv_acquire {w w' : World} {agentId : Uuid} {localTx : Sender} {claims : Claims}
    {now : Instant} (h : Inv w) (hstep : step w (.acquire agentId localTx claims now) = some w') :
    Inv w' := by
  have hcurrent := current_acquire hstep
  cases hstep
  constructor
  · intro lease hlease
    rcases (hcurrent lease).mp hlease with rfl | ⟨hagent, hold⟩
    · exact get_register_self ..
    · exact (get_register_ne _ hagent).trans (h.served lease hold)
  · intro other hnone
    have hne : other ≠ agentId := fun heq => hnone _ ((hcurrent _).mpr (.inl rfl)) heq.symm
    refine (get_register_ne _ hne).trans (h.others other fun lease hlease hagent => ?_)
    exact hnone lease ((hcurrent lease).mpr (.inr ⟨hagent ▸ hne, hlease⟩)) hagent
  · intro other lease hnewest
    by_cases hne : other = agentId
    · subst hne
      simp only [Function.update_self, Option.some.injEq] at hnewest
      exact hnewest ▸ rfl
    · exact h.owner other lease ((Function.update_of_ne hne ..).symm.trans hnewest)
  · intro lease hheld
    rcases List.mem_cons.mp hheld with rfl | hold
    · exact Nat.lt_succ_self _
    · exact Nat.lt_succ_of_lt (h.fresh lease hold)
  · intro left hleft right hright haddr
    rcases List.mem_cons.mp hleft with rfl | hleft <;> rcases List.mem_cons.mp hright with rfl | hright
    · rfl
    · exact absurd haddr.symm (Nat.ne_of_lt (h.fresh right hright))
    · exact absurd haddr (Nat.ne_of_lt (h.fresh left hleft))
    · exact h.distinct left hleft right hright haddr
  · refine List.nodup_cons.mpr ⟨fun hmem => ?_, h.nodup⟩
    exact Nat.lt_irrefl _ (h.fresh _ hmem)

theorem step_drop {w w' : World} {dropped : TunnelLease} {now : Instant}
    (hstep : step w (.dropLease dropped now) = some w') :
    dropped ∈ w.held ∧ w' = { w with
      registry := w.registry.unregister dropped.agentId now
      held := w.held.erase dropped } := by
  simp only [step] at hstep
  split at hstep
  · rename_i hheld
    exact ⟨hheld, (Option.some.inj hstep).symm⟩
  · cases hstep

/-- Dropping a lease makes no lease current and ends only the dropped one's being so. -/
theorem current_drop {w w' : World} {dropped : TunnelLease} {now : Instant} (h : Inv w)
    (hstep : step w (.dropLease dropped now) = some w') (lease : TunnelLease) :
    Current w' lease ↔ lease ≠ dropped ∧ Current w lease := by
  obtain ⟨-, rfl⟩ := step_drop hstep
  constructor
  · rintro ⟨hnewest, hheld, huncut⟩
    obtain ⟨hne, hold⟩ := h.nodup.mem_erase_iff.mp hheld
    exact ⟨hne, hnewest, hold, huncut⟩
  · rintro ⟨hne, hnewest, hheld, huncut⟩
    exact ⟨hnewest, h.nodup.mem_erase_iff.mpr ⟨hne, hheld⟩, huncut⟩

theorem inv_drop {w w' : World} {dropped : TunnelLease} {now : Instant} (h : Inv w)
    (hstep : step w (.dropLease dropped now) = some w') (horder : InOrder w (.dropLease dropped now)) :
    Inv w' := by
  have hcurrent := current_drop h hstep
  obtain ⟨-, rfl⟩ := step_drop hstep
  constructor
  · intro lease hlease
    obtain ⟨hne, hold⟩ := (hcurrent lease).mp hlease
    have hagent : lease.agentId ≠ dropped.agentId := fun heq => hne (horder lease hold heq)
    exact (get_unregister_ne now hagent).trans (h.served lease hold)
  · intro other hnone
    by_cases hagent : other = dropped.agentId
    · subst hagent
      exact get_unregister_self ..
    · refine (get_unregister_ne now hagent).trans (h.others other fun lease hlease heq => ?_)
      have hne : lease ≠ dropped := fun hl => hagent (by rw [← heq, hl])
      exact hnone lease ((hcurrent lease).mpr ⟨hne, hlease⟩) heq
  · exact h.owner
  · exact fun lease hlease => h.fresh lease (List.mem_of_mem_erase hlease)
  · exact fun left hleft right hright =>
      h.distinct left (List.mem_of_mem_erase hleft) right (List.mem_of_mem_erase hright)
  · exact h.nodup.erase dropped

theorem inv_disconnect {w w' : World} {agentId : Uuid} {now : Instant} (h : Inv w)
    (hstep : step w (.disconnect agentId now) = some w') : Inv w' := by
  cases hstep
  have hcurrent : ∀ lease, Current { w with
      registry := w.registry.disconnect agentId now
      cut := Function.update w.cut agentId true } lease ↔ lease.agentId ≠ agentId ∧ Current w lease := by
    intro lease
    constructor
    · rintro ⟨hnewest, hheld, huncut⟩
      have hagent : lease.agentId ≠ agentId := by
        intro heq
        rw [heq] at huncut
        simp only [Function.update_self, Bool.true_eq_false] at huncut
      simp only [Function.update_of_ne hagent] at huncut
      exact ⟨hagent, hnewest, hheld, huncut⟩
    · rintro ⟨hagent, hnewest, hheld, huncut⟩
      exact ⟨hnewest, hheld, by simpa only [Function.update_of_ne hagent] using huncut⟩
  refine ⟨?_, ?_, h.owner, h.fresh, h.distinct, h.nodup⟩
  · intro lease hlease
    obtain ⟨hagent, hold⟩ := (hcurrent lease).mp hlease
    exact (get_unregister_ne now hagent).trans (h.served lease hold)
  · intro other hnone
    by_cases hagent : other = agentId
    · subst hagent
      exact get_unregister_self ..
    · refine (get_unregister_ne now hagent).trans (h.others other fun lease hlease heq => ?_)
      exact hnone lease ((hcurrent lease).mpr ⟨heq ▸ hagent, hlease⟩) heq

theorem inv_step {w w' : World} {event : Event} (hstep : step w event = some w') (h : Inv w)
    (horder : InOrder w event) : Inv w' := by
  cases event with
  | acquire agentId localTx claims now => exact inv_acquire h hstep
  | dropLease lease now => exact inv_drop h hstep horder
  | disconnect agentId now => exact inv_disconnect h hstep

/-! ### When a drop spares the newer tunnel -/

theorem ownEntryOnly_of_inOrder {w w' : World} {event : Event} (hstep : step w event = some w')
    (h : Inv w) (horder : InOrder w event) : OwnEntryOnly w event w' := by
  rintro lease now rfl agentId entry hget
  obtain ⟨-, rfl⟩ := step_drop hstep
  by_cases hagent : agentId = lease.agentId
  · right
    -- the entry is in the table, so some current lease of the agent installed it
    by_contra hne
    have hnone : w.registry.get agentId = none := by
      refine h.others agentId fun other hother heq => hne ?_
      have hsame := horder other hother (heq.trans hagent)
      have hserved := h.served other hother
      rw [heq, hget] at hserved
      rw [Option.some.inj hserved, hsame]
    rw [hget] at hnone
    cases hnone
  · exact .inl ((get_unregister_ne now hagent).trans hget)

theorem inOrder_of_ownEntryOnly {w w' : World} {event : Event} (hstep : step w event = some w')
    (h : Inv w) (hown : OwnEntryOnly w event w') : InOrder w event := by
  cases event with
  | acquire | disconnect => trivial
  | dropLease lease now =>
      intro other hother hagent
      obtain ⟨hheld, rfl⟩ := step_drop hstep
      rcases hown lease now rfl other.agentId other.installed (h.served other hother) with hkept | haddr
      · rw [hagent] at hkept
        exact absurd ((get_unregister_self ..).symm.trans hkept) (by simp)
      · exact h.distinct other hother.held lease hheld haddr

/-- In a run, every drop takes out its own entry only and every current lease is served at every
step, if and only if leases are dropped in order: never while a newer lease of the agent is current. -/
theorem own_entry_and_served_iff_in_order (es : List Event) :
    system.EveryStep (fun w e w' => OwnEntryOnly w e w' ∧ CurrentServed w') system.init es ↔
      system.EveryStep (fun w e _ => InOrder w e) system.init es := by
  refine system.everyStep_congr (I := Inv) ?_ (fun w e w' hstep h horder => inv_step hstep h horder)
    inv_init es
  intro w e w' hstep h
  constructor
  · exact fun hgood => inOrder_of_ownEntryOnly hstep h hgood.1
  · exact fun horder =>
      ⟨ownEntryOnly_of_inOrder hstep h horder, (inv_step hstep h horder).currentServed⟩

private def agentClaims : Claims := ⟨7, "agent", none, 60, "overacp"⟩

/-- An agent reconnects and the guard of the replaced tunnel is dropped: the newer entry goes. -/
theorem older_drop_removes_newer_entry :
    ¬ ∀ es, system.EveryStep (fun w e w' => OwnEntryOnly w e w' ∧ CurrentServed w') system.init es := by
  intro h
  have hrun := h ([.acquire 7 0 agentClaims 0, .acquire 7 1 agentClaims 1] ++
    [.dropLease ⟨7, 0, .new 0 agentClaims 0⟩ 2])
  have hlast := hrun.last (t := _) (u := _) rfl rfl
  rcases hlast.1 _ _ rfl 7 ⟨1, .new 1 agentClaims 1⟩ rfl with hkept | haddr
  · cases hkept
  · cases haddr

end Leases

end Overacp
