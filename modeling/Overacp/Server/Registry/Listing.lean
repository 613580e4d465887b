import Overacp.Lib.RecentLog
import Overacp.Server.Registry.Lease

/-!
# What the in-memory registry lists

The table of connected agents and the log of recent ones are kept apart: whoever enters one leaves the
other. So a listing has every agent once, the connected ones first, and agrees with the description of
each; an agent goes missing from it only when as many others as the log holds were disconnected after it.
-/

namespace Overacp

namespace InMemoryAgentRegistry

variable {registry : InMemoryAgentRegistry} {history : List Uuid}

/-! ### Table and log -/

/-- The agents in the log, oldest first. -/
def recentIds (registry : InMemoryAgentRegistry) : List Uuid := registry.recent.map RecentEntry.agentId

theorem recentIds_purge (recent : List RecentEntry) (agentId : Uuid) :
    (recent.filter fun r => r.agentId ≠ agentId).map RecentEntry.agentId =
      RecentLog.purge (recent.map RecentEntry.agentId) agentId := by
  rw [RecentLog.purge, List.filter_map]
  rfl

theorem recentIds_purgeRecent (registry : InMemoryAgentRegistry) (agentId : Uuid) :
    (registry.purgeRecent agentId).recentIds = RecentLog.purge registry.recentIds agentId :=
  recentIds_purge registry.recent agentId

theorem recentIds_pushRecent (registry : InMemoryAgentRegistry) (entry : RecentEntry) :
    (registry.pushRecent entry).recentIds =
      RecentLog.push recentCapacity registry.recentIds entry.agentId := by
  rw [RecentLog.push, recentIds, recentIds, ← recentIds_purge, List.length_map, ← List.map_drop, ← apply_ite,
    pushRecent, List.map_append, List.map_singleton]

theorem isConnected_eq_get (registry : InMemoryAgentRegistry) (agentId : Uuid) :
    registry.isConnected agentId = (registry.get agentId).isSome := rfl

theorem isConnected_register (registry : InMemoryAgentRegistry) (agentId other : Uuid)
    (entry : Arc AgentEntry) :
    (registry.register agentId entry).2.isConnected other =
      (decide (other = agentId) || registry.isConnected other) := by
  rw [isConnected_eq_get, isConnected_eq_get]
  by_cases heq : other = agentId
  · subst heq
    rw [get_register_self]
    simp
  · rw [get_register_ne entry heq]
    simp [heq]

theorem isConnected_unregister (registry : InMemoryAgentRegistry) (agentId other : Uuid) (now : Instant) :
    (registry.unregister agentId now).isConnected other =
      (!decide (other = agentId) && registry.isConnected other) := by
  rw [isConnected_eq_get, isConnected_eq_get]
  by_cases heq : other = agentId
  · subst heq
    rw [get_unregister_self]
    simp
  · rw [get_unregister_ne now heq]
    simp [heq]

theorem unregister_of_not_connected {agentId : Uuid} (now : Instant)
    (h : registry.isConnected agentId = false) : registry.unregister agentId now = registry := by
  rw [isConnected, Option.isSome_eq_false_iff, Option.isNone_iff_eq_none] at h
  rw [unregister, h]

theorem recentIds_unregister {agentId : Uuid} (now : Instant) (h : registry.isConnected agentId = true) :
    (registry.unregister agentId now).recentIds =
      RecentLog.push recentCapacity registry.recentIds agentId := by
  obtain ⟨entry, hentry⟩ := Option.isSome_iff_exists.mp h
  rw [unregister, hentry]
  exact recentIds_pushRecent _ _

/-- No agent is both in the table and in the log, and the log follows the disconnects so far. -/
structure Consistent (registry : InMemoryAgentRegistry) (history : List Uuid) : Prop where
  log : RecentLog.Follows recentCapacity history registry.recentIds
  apart : ∀ agentId ∈ registry.recentIds, registry.isConnected agentId = false

theorem consistent_new : Consistent .new history where
  log := RecentLog.Follows.nil
  apart := by
    intro agentId hmem
    cases hmem

theorem Consistent.register (h : Consistent registry history) (agentId : Uuid) (entry : Arc AgentEntry) :
    Consistent (registry.register agentId entry).2 history := by
  have hids : (registry.register agentId entry).2.recentIds =
      RecentLog.purge registry.recentIds agentId := recentIds_purgeRecent _ agentId
  refine ⟨?_, ?_⟩
  · rw [hids]
    exact h.log.purge agentId
  · intro other hother
    rw [hids, RecentLog.mem_purge] at hother
    rw [isConnected_register, h.apart other hother.1]
    simp [hother.2]

theorem Consistent.unregister (h : Consistent registry history) (agentId : Uuid) (now : Instant) :
    Consistent (registry.unregister agentId now)
      (if registry.isConnected agentId then agentId :: history else history) := by
  by_cases hconnected : registry.isConnected agentId = true
  · rw [if_pos hconnected]
    refine ⟨?_, ?_⟩
    · rw [recentIds_unregister now hconnected]
      exact h.log.push (by decide) agentId
    · intro other hother
      rw [isConnected_unregister]
      by_cases heq : other = agentId
      · simp [heq]
      · rw [recentIds_unregister now hconnected, RecentLog.push, List.mem_append, List.mem_singleton] at hother
        have hold := hother.resolve_right heq
        rw [h.apart other (RecentLog.mem_purge.mp ((RecentLog.Follows.kept_sublist _ _).subset hold)).1]
        simp
  · rw [if_neg hconnected, unregister_of_not_connected now (by simpa using hconnected)]
    exact h

/-! ### The listing -/

theorem mem_list {now : Instant} {d : AgentDescription} :
    d ∈ registry.list now ↔
      (∃ entry, registry.get d.agentId = some entry ∧ d = .fromConnected d.agentId entry.val now) ∨
        ∃ r ∈ registry.recent, registry.isConnected r.agentId = false ∧ d = .fromRecent r now := by
  rw [list, List.mem_append, List.mem_map, List.mem_map]
  constructor
  · rintro (⟨⟨agentId, entry⟩, hentry, rfl⟩ | ⟨r, hr, rfl⟩)
    · exact .inl ⟨entry, AList.mem_lookup_iff.mpr hentry, rfl⟩
    · rw [List.mem_filter] at hr
      exact .inr ⟨r, hr.1, by simpa using hr.2, rfl⟩
  · rintro (⟨entry, hget, hd⟩ | ⟨r, hr, hapart, rfl⟩)
    · exact .inl ⟨⟨d.agentId, entry⟩, AList.mem_lookup_iff.mp hget, hd.symm⟩
    · exact .inr ⟨r, List.mem_filter.mpr ⟨hr, by simp [hapart]⟩, rfl⟩

/-- An agent is listed if it is in the table or in the log. -/
theorem listed_iff {now : Instant} {agentId : Uuid} :
    (∃ d ∈ registry.list now, d.agentId = agentId) ↔
      registry.isConnected agentId = true ∨ agentId ∈ registry.recentIds := by
  constructor
  · rintro ⟨d, hd, rfl⟩
    rcases mem_list.mp hd with ⟨entry, hget, -⟩ | ⟨r, hr, -, rfl⟩
    · left
      rw [isConnected_eq_get, hget]
      rfl
    · exact .inr (List.mem_map_of_mem hr)
  · intro h
    by_cases hconnected : registry.isConnected agentId = true
    · obtain ⟨entry, hentry⟩ := Option.isSome_iff_exists.mp hconnected
      exact ⟨.fromConnected agentId entry.val now, mem_list.mpr (.inl ⟨entry, hentry, rfl⟩), rfl⟩
    · obtain ⟨r, hr, rfl⟩ := List.mem_map.mp (h.resolve_left hconnected)
      exact ⟨_, mem_list.mpr (.inr ⟨r, hr, by simpa using hconnected, rfl⟩), rfl⟩

theorem Consistent.nodup_list (h : Consistent registry history) (now : Instant) :
    ((registry.list now).map AgentDescription.agentId).Nodup := by
  rw [list, List.map_append, List.map_map, List.map_map]
  refine List.Nodup.append ?_ ?_ ?_
  · exact registry.connected.keys_nodup
  · exact h.log.nodup.sublist (List.filter_sublist.map _)
  · intro agentId hleft hright
    obtain ⟨⟨agentId, entry⟩, hentry, rfl⟩ := List.mem_map.mp hleft
    obtain ⟨r, hr, hagent⟩ := List.mem_map.mp hright
    have hgone : registry.isConnected r.agentId = false := by simpa using (List.mem_filter.mp hr).2
    rw [isConnected, show r.agentId = agentId from hagent, AList.mem_lookup_iff.mpr hentry] at hgone
    cases hgone

/-- Whoever is listed before a connected agent is connected. -/
theorem connected_first (registry : InMemoryAgentRegistry) (now : Instant) :
    (registry.list now).Pairwise fun d d' => d'.connected = true → d.connected = true := by
  refine List.pairwise_append.mpr ⟨?_, ?_, ?_⟩
  · refine List.pairwise_map.mpr (List.pairwise_of_forall fun _ _ _ => rfl)
  · refine List.pairwise_map.mpr (List.pairwise_of_forall fun _ _ hconnected => ?_)
    cases hconnected
  · intro d hd _ _ _
    obtain ⟨e, -, rfl⟩ := List.mem_map.mp hd
    rfl

/-- The description of a listed agent says of it what the listing says. -/
theorem Consistent.describe_listed (h : Consistent registry history) {now now' : Instant}
    {d : AgentDescription} (hd : d ∈ registry.list now) :
    ∃ d', registry.describe d.agentId now' = some d' ∧ d'.connected = d.connected ∧ d'.user = d.user := by
  rcases mem_list.mp hd with ⟨entry, hget, hd⟩ | ⟨r, hr, hapart, rfl⟩
  · refine ⟨.fromConnected d.agentId entry.val now', ?_, ?_, ?_⟩
    · rw [describe, hget]
    · rw [hd]
      rfl
    · rw [hd]
      rfl
  · refine ⟨.fromRecent r now', ?_, rfl, rfl⟩
    have hget : registry.get r.agentId = none := by
      rw [isConnected_eq_get, Option.isSome_eq_false_iff, Option.isNone_iff_eq_none] at hapart
      exact hapart
    have hfind : (registry.recent.find? fun r' => r'.agentId = r.agentId) = some r := by
      obtain ⟨r', hr'⟩ := Option.isSome_iff_exists.mp
        (List.find?_isSome.mpr ⟨r, hr, decide_eq_true rfl⟩ :
          (registry.recent.find? fun r' => r'.agentId = r.agentId).isSome = true)
      have hagent : r'.agentId = r.agentId := by simpa using List.find?_some hr'
      rw [hr', List.inj_on_of_nodup_map h.log.nodup (List.mem_of_find?_eq_some hr') hr hagent]
    rw [describe, show (AgentDescription.fromRecent r now).agentId = r.agentId from rfl, hget, hfind]
    rfl

theorem describe_eq_none_iff {now now' : Instant} {agentId : Uuid} :
    registry.describe agentId now' = none ↔ ∀ d ∈ registry.list now, d.agentId ≠ agentId := by
  have hlisted := @listed_iff registry now agentId
  rw [describe]
  cases hget : registry.get agentId with
  | some entry =>
      have hconnected : registry.isConnected agentId = true := by rw [isConnected_eq_get, hget]; rfl
      obtain ⟨d, hd, hagent⟩ := hlisted.mpr (.inl hconnected)
      exact iff_of_false (by simp) fun hnone => hnone d hd hagent
  | none =>
      have hconnected : registry.isConnected agentId = false := by rw [isConnected_eq_get, hget]; rfl
      rw [hconnected] at hlisted
      rw [Option.map_eq_none_iff, List.find?_eq_none]
      constructor
      · intro hnone d hd hagent
        obtain ⟨r, hr, hid⟩ := List.mem_map.mp ((hlisted.mp ⟨d, hd, hagent⟩).resolve_left Bool.noConfusion)
        exact hnone r hr (decide_eq_true hid)
      · intro hnone r hr hid
        obtain ⟨d, hd, hagent⟩ := hlisted.mpr (.inr (List.mem_map.mpr ⟨r, hr, of_decide_eq_true hid⟩))
        exact hnone d hd hagent

end InMemoryAgentRegistry

/-! ### Runs -/

namespace Listing

open InMemoryAgentRegistry

/-- The registry and the leases that are held; beside them the agents that were registered, and those
that were disconnected, the latest first. -/
structure World where
  registry : InMemoryAgentRegistry
  held : List TunnelLease
  registered : List Uuid
  disconnected : List Uuid

inductive Event where
  | register (agentId : Uuid) (entry : Arc AgentEntry)
  | unregister (agentId : Uuid) (now : Instant)
  | acquire (addr : Nat) (agentId : Uuid) (localTx : Sender) (claims : Claims) (now : Instant)
  | dropLease (lease : TunnelLease) (now : Instant)
  | disconnect (agentId : Uuid) (now : Instant)

/-- The world with another registry, after the agent was taken out of the one it had. -/
def World.left (w : World) (agentId : Uuid) (registry : InMemoryAgentRegistry) : World :=
  { w with
    registry := registry
    disconnected := if w.registry.isConnected agentId then agentId :: w.disconnected else w.disconnected }

def step (w : World) : Event → Option World
  | .register agentId entry =>
      some { w with registry := (w.registry.register agentId entry).2, registered := agentId :: w.registered }
  | .unregister agentId now => some (w.left agentId (w.registry.unregister agentId now))
  | .acquire addr agentId localTx claims now =>
      let acquired := w.registry.acquire addr agentId localTx claims now
      some { w with
        registry := acquired.2, held := acquired.1 :: w.held, registered := agentId :: w.registered }
  | .dropLease lease now =>
      if lease ∈ w.held then
        some { w.left lease.agentId (w.registry.dropLease lease now) with held := w.held.erase lease }
      else none
  | .disconnect agentId now => some (w.left agentId (w.registry.disconnect agentId now))

def system : Transition.System World Event where
  init := ⟨.new, [], [], []⟩
  step := step

/-- An agent that was registered is listed, or has left and the log was filled by others since. -/
def Accounted (registry : InMemoryAgentRegistry) (disconnected : List Uuid) (agentId : Uuid) : Prop :=
  registry.isConnected agentId = true ∨ agentId ∈ registry.recentIds ∨
    agentId ∈ disconnected ∧ recentCapacity ≤ RecentLog.others disconnected agentId

structure Inv (w : World) : Prop where
  consistent : Consistent w.registry w.disconnected
  accounted : ∀ agentId ∈ w.registered, Accounted w.registry w.disconnected agentId

theorem inv_init : Inv system.init where
  consistent := consistent_new
  accounted := by
    intro agentId hmem
    cases hmem

/-- Registering an agent takes no other one out. -/
theorem accounted_register {registry : InMemoryAgentRegistry} {disconnected : List Uuid} {other : Uuid}
    (h : Accounted registry disconnected other) (agentId : Uuid) (entry : Arc AgentEntry) :
    Accounted (registry.register agentId entry).2 disconnected other := by
  rw [Accounted, isConnected_register]
  by_cases heq : other = agentId
  · simp [heq]
  · rcases h with hconnected | hrecent | hgone
    · simp [hconnected]
    · right
      left
      rw [show (registry.register agentId entry).2.recentIds = RecentLog.purge registry.recentIds agentId from
        recentIds_purgeRecent _ agentId, RecentLog.mem_purge]
      exact ⟨hrecent, heq⟩
    · exact .inr (.inr hgone)

/-- An agent that is disconnected goes to the log; whoever falls out of it for that was overtaken by as
many as it holds. -/
theorem accounted_unregister {registry : InMemoryAgentRegistry} {disconnected : List Uuid} {other : Uuid}
    (hconsistent : Consistent registry disconnected) (h : Accounted registry disconnected other)
    (agentId : Uuid) (now : Instant) :
    Accounted (registry.unregister agentId now)
      (if registry.isConnected agentId then agentId :: disconnected else disconnected) other := by
  by_cases hconnected : registry.isConnected agentId = true
  · rw [if_pos hconnected, Accounted, isConnected_unregister, recentIds_unregister now hconnected]
    by_cases heq : other = agentId
    · right
      left
      rw [heq, RecentLog.push]
      exact List.mem_append_right _ List.mem_cons_self
    · have hne : agentId ≠ other := Ne.symm heq
      rcases h with hstays | hrecent | ⟨hgone, hmany⟩
      · simp [heq, hstays]
      · by_cases hkept : other ∈ RecentLog.push recentCapacity registry.recentIds agentId
        · exact .inr (.inl hkept)
        · exact .inr (.inr ⟨List.mem_cons_of_mem _ (hconsistent.log.noted other hrecent),
            hconsistent.log.evicted hrecent hne hkept⟩)
      · exact .inr (.inr ⟨List.mem_cons_of_mem _ hgone,
          hmany.trans (RecentLog.others_le_cons disconnected hne)⟩)
  · rw [if_neg hconnected, unregister_of_not_connected now (by simpa using hconnected)]
    exact h

theorem inv_register {w : World} (h : Inv w) (agentId : Uuid) (entry : Arc AgentEntry)
    (held : List TunnelLease) :
    Inv ⟨(w.registry.register agentId entry).2, held, agentId :: w.registered, w.disconnected⟩ := by
  refine ⟨h.consistent.register agentId entry, ?_⟩
  intro other hother
  rcases List.mem_cons.mp hother with rfl | hold
  · left
    rw [isConnected_register]
    simp
  · exact accounted_register (h.accounted other hold) agentId entry

theorem inv_left {w : World} (h : Inv w) (agentId : Uuid) (now : Instant) :
    Inv (w.left agentId (w.registry.unregister agentId now)) where
  consistent := h.consistent.unregister agentId now
  accounted := fun other hother =>
    accounted_unregister h.consistent (h.accounted other hother) agentId now

theorem inv_step {w w' : World} {e : Event} (hstep : step w e = some w') (h : Inv w) : Inv w' := by
  cases e with
  | register agentId entry =>
      cases hstep
      exact inv_register h agentId entry w.held
  | unregister agentId now =>
      cases hstep
      exact inv_left h agentId now
  | acquire addr agentId localTx claims now =>
      cases hstep
      exact inv_register h agentId _ _
  | dropLease lease now =>
      simp only [step] at hstep
      split at hstep
      · cases hstep
        have hleft := inv_left h lease.agentId now
        exact ⟨hleft.consistent, hleft.accounted⟩
      · cases hstep
  | disconnect agentId now =>
      cases hstep
      exact inv_left h agentId now

/-- In every run: the log is bounded and has no agent twice, nobody is both connected and in the log,
the listing has each agent once and the connected ones first, the description of an agent says what the
listing says of it, and an agent that was registered is missing from the listing only if at least as
many others as the log holds were disconnected after it. -/
theorem listing_of_run {es : List Event} {w : World} (hrun : system.run system.init es = some w) :
    w.registry.recent.length ≤ recentCapacity ∧
    (w.registry.recent.map RecentEntry.agentId).Nodup ∧
    (∀ r ∈ w.registry.recent, w.registry.isConnected r.agentId = false) ∧
    (∀ now, ((w.registry.list now).map AgentDescription.agentId).Nodup) ∧
    (∀ now, (w.registry.list now).Pairwise fun d d' => d'.connected = true → d.connected = true) ∧
    (∀ now now', ∀ d ∈ w.registry.list now, ∃ d', w.registry.describe d.agentId now' = some d' ∧
      d'.connected = d.connected ∧ d'.user = d.user) ∧
    (∀ now now' agentId, w.registry.describe agentId now' = none ↔
      ∀ d ∈ w.registry.list now, d.agentId ≠ agentId) ∧
    ∀ agentId ∈ w.registered, ∀ now, (∀ d ∈ w.registry.list now, d.agentId ≠ agentId) →
      agentId ∈ w.disconnected ∧ recentCapacity ≤ RecentLog.others w.disconnected agentId := by
  have h : Inv w := system.run_invariant (I := Inv) (fun s e t hstep hs => inv_step hstep hs) hrun inv_init
  have hbounded := h.consistent.log.bounded
  rw [recentIds, List.length_map] at hbounded
  refine ⟨hbounded, h.consistent.log.nodup, ?_, h.consistent.nodup_list, connected_first w.registry,
    fun _ _ _ hd => h.consistent.describe_listed hd, fun _ _ _ => describe_eq_none_iff, ?_⟩
  · exact fun r hr => h.consistent.apart r.agentId (List.mem_map_of_mem hr)
  · intro agentId hregistered now hmissing
    have hunlisted : ¬ ∃ d ∈ w.registry.list now, d.agentId = agentId :=
      fun ⟨d, hd, hagent⟩ => hmissing d hd hagent
    rw [listed_iff, not_or] at hunlisted
    exact ((h.accounted agentId hregistered).resolve_left hunlisted.1).resolve_left hunlisted.2

/-- A run in which one agent comes and goes, and another one stays. -/
theorem listing_of_visit :
    ∃ w, system.run system.init [.acquire 0 7 0 ⟨7, "agent", none, 60, "overacp"⟩ 0,
        .register 8 ⟨1, .new 1 ⟨8, "agent", none, 60, "overacp"⟩ 1⟩, .disconnect 7 2] = some w ∧
      w.registry.recent.length ≤ recentCapacity := by
  exact ⟨_, rfl, (@listing_of_run [.acquire 0 7 0 ⟨7, "agent", none, 60, "overacp"⟩ 0,
    .register 8 ⟨1, .new 1 ⟨8, "agent", none, 60, "overacp"⟩ 1⟩, .disconnect 7 2] _ rfl).1⟩

end Listing

end Overacp
