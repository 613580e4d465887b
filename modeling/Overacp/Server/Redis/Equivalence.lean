import Overacp.Lib.Json.RoundTrip
import Overacp.Lib.RedisRank
import Overacp.Lib.Transition
import Overacp.Server.Redis.Listing
import Overacp.Server.Registry.Listing
import Overacp.Server.Registry.UuidText

/-!
# One registry and the other

The registry in memory and a single instance on Redis, taken through the same acquires and drops. Both are
asked which agents there are, whether they are connected and for which user.
-/

namespace Overacp

/-- What is rendered is read back. -/
def ReadsRendered (parseUuid : String → Option Uuid) : Prop := ∀ id : Uuid, parseUuid id.render = some id

variable {parseUuid : String → Option Uuid} {parseRfc3339 : String → Option Int}

theorem ClaimsSnapshot.ofText_text (h : ReadsRendered parseUuid) (snapshot : ClaimsSnapshot) :
    ofText parseUuid snapshot.text = some snapshot := by
  have hdepth : snapshot.toJson.nesting ≤ Json.maxNesting := by
    obtain ⟨agentId, user, connectedAt⟩ := snapshot
    cases user with
    | none => exact (by decide : 1 ≤ 127)
    | some user => exact (by decide : 1 ≤ 127)
  have hparse := @Json.parse_print snapshot.toJson [] (fun _ hc => by cases hc)
  rw [List.append_nil, if_pos hdepth] at hparse
  rw [ofText, text, String.toList_ofList, hparse]
  obtain ⟨agentId, user, connectedAt⟩ := snapshot
  cases user with
  | none => simp [toJson, Json.fields, Json.unique, Json.asStr, Json.optional, h agentId]
  | some user => simp [toJson, Json.fields, Json.unique, Json.asStr, Json.optional, h agentId, h user]

/-! ### Whole operations -/

/-- What `acquire_lease` leaves in the keys, apart from the tunnel directory and what it published. -/
theorem acquireLease_eq (args : AcquireArgs) (now : Nat) (db : LeaseDb) :
    ∃ tunnel control, acquireLease args now db =
      { owner := Function.update db.owner args.agentId (Redis.setEx args.instanceId leaseTtlSecs now)
        tunnel := tunnel
        connected := insert args.agentId db.connected
        recent := db.recent.zrem args.agentId
        claims := Function.update db.claims args.agentId (Redis.setEx args.claimsJson (leaseTtlSecs * 2) now)
        control := control } := by
  rw [acquireLease, acquireSteps]
  simp only [acquireStep]
  cases db.ownerOf args.agentId with
  | none => exact ⟨_, _, rfl⟩
  | some prev =>
      by_cases hprev : prev ≠ args.instanceId
      · simp only [if_pos hprev]
        exact ⟨_, _, rfl⟩
      · simp only [if_neg hprev]
        exact ⟨_, _, rfl⟩

/-- As many commands of `release_lease` as there are left. -/
def releaseSteps (agentId : Uuid) (instanceId : String) (now : Nat) : Nat → LeaseDb × ReleasePc → LeaseDb
  | 0, s => s.1
  | fuel + 1, s =>
      match releaseStep agentId instanceId now s.1 s.2 with
      | some s' => releaseSteps agentId instanceId now fuel s'
      | none => s.1

/-- The whole of `release_lease`: five commands at most. -/
def releaseLease (agentId : Uuid) (instanceId : String) (now : Nat) (db : LeaseDb) : LeaseDb :=
  releaseSteps agentId instanceId now 5 (db, .casDel)

theorem releaseLease_eq {agentId : Uuid} {instanceId : String} {db : LeaseDb}
    (howner : db.ownerOf agentId = some instanceId) (now : Nat) :
    releaseLease agentId instanceId now db =
      { db with
        owner := Function.update db.owner agentId none
        tunnel := Function.update db.tunnel agentId none
        connected := db.connected.erase agentId
        recent := (db.recent.zadd now agentId).zremrangebyrank 0 (-(recentCapacity + 1)) } := by
  have hdeleted : releaseStep agentId instanceId now db .casDel = some (db.setOwner agentId none, .srem) := by
    rw [releaseStep, if_pos howner]
  rw [releaseLease, releaseSteps, hdeleted]
  rfl

/-! ### What is shown -/

/-- Agent, whether it is connected, and for which user. -/
def AgentDescription.shown (d : AgentDescription) : Uuid × Bool × Option Uuid := (d.agentId, d.connected, d.user)

/-- The Redis registry lists what it describes. -/
theorem LeaseDb.mem_shown_listAgents {db : LeaseDb} {nowMs : Int} {shown : Uuid × Bool × Option Uuid} :
    shown ∈ (db.listAgents parseUuid parseRfc3339 nowMs).map AgentDescription.shown ↔
      ∃ agentId, (db.describeAgent parseUuid parseRfc3339 agentId nowMs).map AgentDescription.shown = some shown := by
  rw [Multiset.mem_map]
  constructor
  · rintro ⟨d, hd, rfl⟩
    rcases Multiset.mem_add.mp hd with hconnected | hrecent
    · obtain ⟨agentId, hmem, rfl⟩ := Multiset.mem_map.mp hconnected
      exact ⟨agentId, by rw [describeAgent, if_pos (Finset.mem_val.mp hmem)]; rfl⟩
    · obtain ⟨e, he, rfl⟩ := List.mem_map.mp (Multiset.mem_coe.mp hrecent)
      obtain ⟨hentry, hapart⟩ := List.mem_filter.mp he
      have hlookup : db.recent.lookup e.1 = some e.2 := AList.mem_lookup_iff.mpr hentry
      exact ⟨e.1, by rw [describeAgent, if_neg (of_decide_eq_true hapart), hlookup]; rfl⟩
  · rintro ⟨agentId, hdescribe⟩
    obtain ⟨d, hd, rfl⟩ := Option.map_eq_some_iff.mp hdescribe
    refine ⟨d, Multiset.mem_add.mpr ?_, rfl⟩
    rw [describeAgent] at hd
    split at hd
    · rename_i hmem
      cases hd
      exact .inl (Multiset.mem_map_of_mem _ hmem)
    · rename_i hapart
      obtain ⟨score, hscore, rfl⟩ := Option.map_eq_some_iff.mp hd
      refine .inr (Multiset.mem_coe.mpr (List.mem_map.mpr ⟨⟨agentId, score⟩, ?_, rfl⟩))
      exact List.mem_filter.mpr ⟨AList.mem_lookup_iff.mp hscore, decide_eq_true hapart⟩

/-- The Redis registry lists an agent that left without a user. -/
theorem LeaseDb.mem_shown_listAgents_left {db : LeaseDb} {nowMs : Int} {agentId : Uuid} {user : Option Uuid} :
    (agentId, false, user) ∈ (db.listAgents parseUuid parseRfc3339 nowMs).map AgentDescription.shown ↔
      user = none ∧ agentId ∈ db.recent ∧ agentId ∉ db.connected := by
  rw [Multiset.mem_map]
  constructor
  · rintro ⟨d, hd, hshown⟩
    rcases Multiset.mem_add.mp hd with hconnected | hrecent
    · obtain ⟨other, -, rfl⟩ := Multiset.mem_map.mp hconnected
      have hfalse := congrArg (fun shown => shown.2.1) hshown
      rw [AgentDescription.shown, connected_hydrateDescription] at hfalse
      cases hfalse
    · obtain ⟨e, he, rfl⟩ := List.mem_map.mp (Multiset.mem_coe.mp hrecent)
      obtain ⟨hentry, hapart⟩ := List.mem_filter.mp he
      cases hshown
      exact ⟨rfl, AList.mem_keys.mpr (List.mem_map_of_mem hentry), of_decide_eq_true hapart⟩
  · rintro ⟨rfl, hrecent, hapart⟩
    obtain ⟨score, hscore⟩ := Option.isSome_iff_exists.mp (AList.lookup_isSome.mpr hrecent)
    refine ⟨describeRecent agentId score nowMs, Multiset.mem_add.mpr (.inr (Multiset.mem_coe.mpr ?_)), rfl⟩
    refine List.mem_map.mpr ⟨⟨agentId, score⟩, ?_, rfl⟩
    exact List.mem_filter.mpr ⟨AList.mem_lookup_iff.mp hscore, decide_eq_true hapart⟩

namespace InMemoryAgentRegistry

variable {registry : InMemoryAgentRegistry} {history : List Uuid}

/-- The log gets an entry with the user of the agent's claims. -/
theorem recent_unregister {agentId : Uuid} {entry : Arc AgentEntry} (hget : registry.get agentId = some entry)
    (instant : Instant) :
    ∃ kept, kept.Sublist (registry.recent.filter fun r => r.agentId ≠ agentId) ∧
      (registry.unregister agentId instant).recent = kept ++ [⟨agentId, entry.val.claims.user, instant⟩] := by
  rw [get] at hget
  rw [unregister, hget]
  refine ⟨_, ?_, rfl⟩
  show List.Sublist (if _ then _ else _) _
  split
  · exact List.drop_sublist 1 _
  · exact List.Sublist.refl _

theorem agentId_of_describe {agentId : Uuid} {now : Instant} {d : AgentDescription}
    (h : registry.describe agentId now = some d) : d.agentId = agentId := by
  rw [describe] at h
  split at h
  · cases h
    rfl
  · obtain ⟨r, hfind, rfl⟩ := Option.map_eq_some_iff.mp h
    have hagent := List.find?_some hfind
    exact of_decide_eq_true hagent

/-- The registry in memory lists what it describes. -/
theorem mem_shown_list (h : Consistent registry history) {now : Instant} {shown : Uuid × Bool × Option Uuid} :
    shown ∈ (registry.list now).map AgentDescription.shown ↔
      ∃ agentId, (registry.describe agentId now).map AgentDescription.shown = some shown := by
  rw [List.mem_map]
  constructor
  · rintro ⟨d, hd, rfl⟩
    obtain ⟨d', hdescribe, hconnected, huser⟩ := @Consistent.describe_listed _ _ h now now d hd
    refine ⟨d.agentId, ?_⟩
    rw [hdescribe, Option.map_some, AgentDescription.shown, agentId_of_describe hdescribe, hconnected, huser]
    rfl
  · rintro ⟨agentId, hdescribe⟩
    obtain ⟨d, hd, rfl⟩ := Option.map_eq_some_iff.mp hdescribe
    refine ⟨d, mem_list.mpr ?_, rfl⟩
    rw [describe] at hd
    split at hd
    · rename_i entry hget
      cases hd
      exact .inl ⟨entry, hget, rfl⟩
    · obtain ⟨r, hfind, rfl⟩ := Option.map_eq_some_iff.mp hd
      have hr := List.mem_of_find?_eq_some hfind
      exact .inr ⟨r, hr, h.apart r.agentId (List.mem_map_of_mem hr), rfl⟩

/-- The registry in memory lists an agent that left with the user it had. -/
theorem mem_shown_list_left {now : Instant} {agentId : Uuid} {user : Option Uuid} :
    (agentId, false, user) ∈ (registry.list now).map AgentDescription.shown ↔
      ∃ r ∈ registry.recent, registry.isConnected agentId = false ∧ r.agentId = agentId ∧ r.user = user := by
  rw [List.mem_map]
  constructor
  · rintro ⟨d, hd, hshown⟩
    rcases mem_list.mp hd with ⟨entry, -, hconnected⟩ | ⟨r, hr, hapart, rfl⟩
    · rw [hconnected] at hshown
      cases hshown
    · cases hshown
      exact ⟨r, hr, hapart, rfl, rfl⟩
  · rintro ⟨r, hr, hapart, rfl, rfl⟩
    exact ⟨.fromRecent r now, mem_list.mpr (.inr ⟨r, hr, hapart, rfl⟩), rfl⟩

end InMemoryAgentRegistry

/-! ### The two registries side by side -/

/-- Both registries, who has a live lease, and how many entries were made. -/
structure Backends where
  memory : InMemoryAgentRegistry
  redis : LeaseDb
  live : Uuid → Bool
  count : Nat

namespace Backends

/-- A call runs to its end, and so does the release that a drop spawns. The claims are kept in Redis with the
time of the acquire as a text; the drop is stamped by both clocks. -/
inductive Event where
  | acquire (agentId : Uuid) (localTx : Sender) (claims : Claims) (connectedAt : String) (instant : Instant) (now : Nat)
  | dropLease (agentId : Uuid) (instant : Instant) (now : Nat)

variable (instanceId : String)

/-- An agent acquires a lease while it has none. -/
def step (w : Backends) : Event → Option Backends
  | .acquire agentId localTx claims connectedAt instant now =>
      if w.live agentId = true then none
      else
        let snapshot : ClaimsSnapshot := ⟨agentId, claims.user, connectedAt⟩
        some { memory := (w.memory.acquire w.count agentId localTx claims instant).2
               redis := acquireLease ⟨agentId, instanceId, snapshot.text⟩ now w.redis
               live := Function.update w.live agentId true
               count := w.count + 1 }
  | .dropLease agentId instant now =>
      if w.live agentId = true then
        some { w with
          memory := w.memory.unregister agentId instant
          redis := releaseLease agentId instanceId now w.redis
          live := Function.update w.live agentId false }
      else none

def system : Transition.System Backends Event := ⟨⟨.new, .empty, fun _ => false, 0⟩, step instanceId⟩

/-- Nobody can tell one registry from the other. -/
structure Same (parseUuid : String → Option Uuid) (parseRfc3339 : String → Option Int) (w : Backends) : Prop where
  isConnected : ∀ agentId, w.memory.isConnected agentId = w.redis.isConnected agentId
  describe : ∀ agentId instant nowMs, (w.memory.describe agentId instant).map AgentDescription.shown =
    (w.redis.describeAgent parseUuid parseRfc3339 agentId nowMs).map AgentDescription.shown
  list : ∀ instant nowMs shown, shown ∈ (w.memory.list instant).map AgentDescription.shown ↔
    shown ∈ (w.redis.listAgents parseUuid parseRfc3339 nowMs).map AgentDescription.shown

/-- The agent that leaves has no user; and where the log is full, the agent that left longest ago has the least
time stamp of those in the log and of the one that is added. -/
def Plain (w : Backends) : Event → Prop
  | .acquire .. => True
  | .dropLease agentId _ now =>
      (∀ entry, w.memory.get agentId = some entry → entry.val.claims.user = none) ∧
        (w.memory.recent.length = recentCapacity → ∀ oldest ∈ w.memory.recentIds.head?,
          (w.redis.recent.zadd now agentId).RanksFirst oldest)

/-- Both registries hold what the live leases and the last drops put there. -/
structure Inv (w : Backends) : Prop where
  consistent : ∃ history, InMemoryAgentRegistry.Consistent w.memory history
  connected : ∀ agentId, w.memory.isConnected agentId = w.live agentId
  owner : ∀ agentId, w.live agentId = true → w.redis.ownerOf agentId = some instanceId
  ownerless : ∀ agentId, w.live agentId = false → w.redis.ownerOf agentId = none
  listed : ∀ agentId, agentId ∈ w.redis.connected ↔ w.live agentId = true
  claims : ∀ agentId entry, w.memory.get agentId = some entry →
    ∃ connectedAt, Redis.get (w.redis.claims agentId) =
      some (ClaimsSnapshot.text ⟨agentId, entry.val.claims.user, connectedAt⟩)
  recent : ∀ agentId, agentId ∈ w.redis.recent ↔ agentId ∈ w.memory.recentIds

/-- No agent in the log has a user. -/
def Userless (w : Backends) : Prop := ∀ r ∈ w.memory.recent, r.user = none

variable {instanceId} {w w' : Backends}

theorem isConnected_eq_ownerOf (db : LeaseDb) (agentId : Uuid) :
    db.isConnected agentId = (db.ownerOf agentId).isSome := Option.isSome_map.symm

theorem inv_init : Inv instanceId (system instanceId).init where
  consistent := ⟨[], InMemoryAgentRegistry.consistent_new⟩
  connected _ := rfl
  owner _ h := by cases h
  ownerless _ _ := rfl
  listed agentId := iff_of_false (Finset.notMem_empty agentId) Bool.false_ne_true
  claims _ _ h := by cases h
  recent agentId := iff_of_false (AList.notMem_empty agentId) (List.not_mem_nil)

/-! ### What is shown under the invariant -/

theorem isConnected_same (h : Inv instanceId w) (agentId : Uuid) :
    w.memory.isConnected agentId = w.redis.isConnected agentId := by
  rw [h.connected, isConnected_eq_ownerOf]
  cases hlive : w.live agentId with
  | true => rw [h.owner agentId hlive, Option.isSome_some]
  | false => rw [h.ownerless agentId hlive, Option.isSome_none]

/-- A connected agent is described with the user of its claims. -/
theorem describe_live (hreads : ReadsRendered parseUuid) (h : Inv instanceId w) {agentId : Uuid}
    {entry : Arc AgentEntry} (hget : w.memory.get agentId = some entry) (instant : Instant) (nowMs : Int) :
    (w.memory.describe agentId instant).map AgentDescription.shown =
      (w.redis.describeAgent parseUuid parseRfc3339 agentId nowMs).map AgentDescription.shown := by
  have hlive : w.live agentId = true := by
    rw [← h.connected, InMemoryAgentRegistry.isConnected_eq_get, hget, Option.isSome_some]
  obtain ⟨connectedAt, hclaims⟩ := h.claims agentId entry hget
  rw [InMemoryAgentRegistry.describe, hget, LeaseDb.describeAgent, if_pos ((h.listed agentId).mpr hlive),
    LeaseDb.hydrateDescription, hclaims, Option.bind_some, ClaimsSnapshot.ofText_text hreads]
  rfl

/-- An agent that left is described without its user in Redis. -/
theorem describe_recent (h : Inv instanceId w) {agentId : Uuid} (hget : w.memory.get agentId = none) (nowMs : Int) :
    (w.redis.describeAgent parseUuid parseRfc3339 agentId nowMs).map AgentDescription.shown =
      if agentId ∈ w.memory.recentIds then some (agentId, false, none) else none := by
  have hlive : ¬ w.live agentId = true := by
    rw [← h.connected, InMemoryAgentRegistry.isConnected_eq_get, hget]
    exact Bool.false_ne_true
  rw [LeaseDb.describeAgent, if_neg (mt (h.listed agentId).mp hlive)]
  by_cases hrecent : agentId ∈ w.memory.recentIds
  · obtain ⟨score, hscore⟩ := Option.isSome_iff_exists.mp (AList.lookup_isSome.mpr ((h.recent agentId).mpr hrecent))
    rw [if_pos hrecent, hscore]
    rfl
  · rw [if_neg hrecent, AList.lookup_eq_none.mpr (mt (h.recent agentId).mp hrecent)]
    rfl

theorem describe_left (huserless : Userless w) {agentId : Uuid} (hget : w.memory.get agentId = none)
    (instant : Instant) :
    (w.memory.describe agentId instant).map AgentDescription.shown =
      if agentId ∈ w.memory.recentIds then some (agentId, false, none) else none := by
  rw [InMemoryAgentRegistry.describe, hget]
  cases hfind : w.memory.recent.find? fun r => r.agentId = agentId with
  | none =>
      have hnot : agentId ∉ w.memory.recentIds := by
        intro hmem
        obtain ⟨r, hr, hagent⟩ := List.mem_map.mp hmem
        exact List.find?_eq_none.mp hfind r hr (decide_eq_true hagent)
      rw [if_neg hnot]
      rfl
  | some r =>
      have hr := List.mem_of_find?_eq_some hfind
      have hagent : r.agentId = agentId := by
        have hfound := List.find?_some hfind
        exact of_decide_eq_true hfound
      have hmem : agentId ∈ w.memory.recentIds := List.mem_map.mpr ⟨r, hr, hagent⟩
      rw [if_pos hmem]
      simp only [Option.map_some, AgentDescription.shown, AgentDescription.fromRecent, hagent, huserless r hr]

theorem same_of_inv (hreads : ReadsRendered parseUuid) (h : Inv instanceId w) (huserless : Userless w) :
    Same parseUuid parseRfc3339 w := by
  have hdescribe : ∀ agentId instant nowMs, (w.memory.describe agentId instant).map AgentDescription.shown =
      (w.redis.describeAgent parseUuid parseRfc3339 agentId nowMs).map AgentDescription.shown := by
    intro agentId instant nowMs
    cases hget : w.memory.get agentId with
    | some entry => exact describe_live hreads h hget instant nowMs
    | none => rw [describe_left huserless hget instant, describe_recent h hget nowMs]
  obtain ⟨history, hconsistent⟩ := h.consistent
  refine ⟨isConnected_same h, hdescribe, fun instant nowMs shown => ?_⟩
  rw [InMemoryAgentRegistry.mem_shown_list hconsistent, LeaseDb.mem_shown_listAgents]
  exact exists_congr fun agentId => by rw [hdescribe agentId instant nowMs]

/-! ### An acquire -/

/-- What an acquire does for an agent without a lease. -/
structure Acquired (instanceId : String) (w : Backends) (agentId : Uuid) (entry : Arc AgentEntry)
    (connectedAt : String) (now : Nat) (w' : Backends) : Prop where
  memory : w'.memory = (w.memory.register agentId entry).2
  owner : w'.redis.owner = Function.update w.redis.owner agentId (Redis.setEx instanceId leaseTtlSecs now)
  connected : w'.redis.connected = insert agentId w.redis.connected
  recent : w'.redis.recent = w.redis.recent.zrem agentId
  claims : w'.redis.claims = Function.update w.redis.claims agentId
    (Redis.setEx (ClaimsSnapshot.text ⟨agentId, entry.val.claims.user, connectedAt⟩) (leaseTtlSecs * 2) now)
  lives : w'.live = Function.update w.live agentId true

theorem acquired_of_step {agentId : Uuid} {localTx : Sender} {claims : Claims} {connectedAt : String}
    {instant : Instant} {now : Nat}
    (hstep : step instanceId w (.acquire agentId localTx claims connectedAt instant now) = some w') :
    Acquired instanceId w agentId ⟨w.count, .new localTx claims instant⟩ connectedAt now w' := by
  rw [step] at hstep
  split at hstep
  · cases hstep
  · obtain rfl := Option.some.inj hstep
    obtain ⟨tunnel, control, hacquire⟩ := acquireLease_eq
      ⟨agentId, instanceId, ClaimsSnapshot.text ⟨agentId, claims.user, connectedAt⟩⟩ now w.redis
    rw [hacquire]
    exact ⟨rfl, rfl, rfl, rfl, rfl, rfl⟩

namespace Acquired

variable {agentId : Uuid} {entry : Arc AgentEntry} {connectedAt : String} {now : Nat}

theorem inv (h : Inv instanceId w) (hacquired : Acquired instanceId w agentId entry connectedAt now w') :
    Inv instanceId w' := by
  obtain ⟨history, hconsistent⟩ := h.consistent
  refine ⟨?_, fun other => ?_, fun other hlive => ?_, fun other hlive => ?_, fun other => ?_,
    fun other entry' hget => ?_, fun other => ?_⟩
  · rw [hacquired.memory]
    exact ⟨history, hconsistent.register agentId entry⟩
  · rw [hacquired.memory, hacquired.lives, InMemoryAgentRegistry.isConnected_register, h.connected]
    by_cases heq : other = agentId
    · rw [heq, Function.update_self, decide_eq_true rfl, Bool.true_or]
    · rw [Function.update_of_ne heq, decide_eq_false heq, Bool.false_or]
  · rw [hacquired.lives] at hlive
    rw [LeaseDb.ownerOf, hacquired.owner]
    by_cases heq : other = agentId
    · rw [heq, Function.update_self, Redis.get_setEx]
    · rw [Function.update_of_ne heq] at hlive ⊢
      exact h.owner other hlive
  · rw [hacquired.lives] at hlive
    rw [LeaseDb.ownerOf, hacquired.owner]
    by_cases heq : other = agentId
    · rw [heq, Function.update_self] at hlive
      cases hlive
    · rw [Function.update_of_ne heq] at hlive ⊢
      exact h.ownerless other hlive
  · rw [hacquired.connected, hacquired.lives, Finset.mem_insert, h.listed]
    by_cases heq : other = agentId
    · rw [heq, Function.update_self]
      exact iff_of_true (.inl rfl) rfl
    · rw [Function.update_of_ne heq]
      exact or_iff_right heq
  · rw [hacquired.memory] at hget
    rw [hacquired.claims]
    by_cases heq : other = agentId
    · rw [heq, InMemoryAgentRegistry.get_register_self] at hget
      obtain rfl := Option.some.inj hget
      exact ⟨connectedAt, by rw [heq, Function.update_self, Redis.get_setEx]⟩
    · rw [InMemoryAgentRegistry.get_register_ne entry heq] at hget
      rw [Function.update_of_ne heq]
      exact h.claims other entry' hget
  · have hids : (w.memory.register agentId entry).2.recentIds = RecentLog.purge w.memory.recentIds agentId :=
      InMemoryAgentRegistry.recentIds_purgeRecent _ agentId
    rw [hacquired.recent, hacquired.memory, hids, RecentLog.mem_purge, Redis.ZSet.zrem, AList.mem_erase, h.recent,
      and_comm]

theorem userless (h : Userless w) (hacquired : Acquired instanceId w agentId entry connectedAt now w') :
    Userless w' := by
  intro r hr
  rw [hacquired.memory] at hr
  exact h r (List.mem_of_mem_filter hr)

end Acquired

/-! ### A drop -/

/-- What a drop does to an agent that has a lease. -/
structure Dropped (instanceId : String) (w : Backends) (agentId : Uuid) (instant : Instant) (now : Nat)
    (w' : Backends) : Prop where
  live : w.live agentId = true
  memory : w'.memory = w.memory.unregister agentId instant
  redis : w'.redis = { w.redis with
    owner := Function.update w.redis.owner agentId none
    tunnel := Function.update w.redis.tunnel agentId none
    connected := w.redis.connected.erase agentId
    recent := (w.redis.recent.zadd now agentId).zremrangebyrank 0 (-(recentCapacity + 1)) }
  lives : w'.live = Function.update w.live agentId false

theorem dropped_of_step (h : Inv instanceId w) {agentId : Uuid} {instant : Instant} {now : Nat}
    (hstep : step instanceId w (.dropLease agentId instant now) = some w') :
    Dropped instanceId w agentId instant now w' := by
  rw [step] at hstep
  split at hstep
  · rename_i hlive
    obtain rfl := Option.some.inj hstep
    exact ⟨hlive, rfl, releaseLease_eq (h.owner agentId hlive) now, rfl⟩
  · cases hstep

namespace Dropped

variable {agentId : Uuid} {instant : Instant} {now : Nat}

theorem isConnected (h : Inv instanceId w) (hdropped : Dropped instanceId w agentId instant now w') :
    w.memory.isConnected agentId = true := (h.connected agentId).trans hdropped.live

theorem recentIds (h : Inv instanceId w) (hdropped : Dropped instanceId w agentId instant now w') :
    w'.memory.recentIds = RecentLog.push recentCapacity w.memory.recentIds agentId := by
  rw [hdropped.memory, InMemoryAgentRegistry.recentIds_unregister instant (hdropped.isConnected h)]

theorem fresh (h : Inv instanceId w) (hdropped : Dropped instanceId w agentId instant now w') :
    agentId ∉ w.memory.recentIds := by
  obtain ⟨history, hconsistent⟩ := h.consistent
  intro hmem
  have happart := hconsistent.apart agentId hmem
  rw [hdropped.isConnected h] at happart
  cases happart

/-- Set and log stay in agreement just if the oldest of a full log ranks first. -/
theorem recent_iff (h : Inv instanceId w) (hdropped : Dropped instanceId w agentId instant now w') :
    (∀ other, other ∈ w'.redis.recent ↔ other ∈ w'.memory.recentIds) ↔
      (w.memory.recent.length = recentCapacity → ∀ oldest ∈ w.memory.recentIds.head?,
        (w.redis.recent.zadd now agentId).RanksFirst oldest) := by
  obtain ⟨history, hconsistent⟩ := h.consistent
  have htrim := Redis.ZSet.trim_push_iff BitVec.le_total (fun x y z => @BitVec.le_trans 128 x y z)
    (fun x y => @BitVec.le_antisymm 128 x y) (by decide : 0 < recentCapacity) h.recent hconsistent.log.nodup
    hconsistent.log.bounded (hdropped.fresh h) now
  rw [InMemoryAgentRegistry.recentIds, List.length_map] at htrim
  rw [hdropped.recentIds h, hdropped.redis]
  exact htrim

theorem inv (h : Inv instanceId w) (hdropped : Dropped instanceId w agentId instant now w')
    (hrecent : ∀ other, other ∈ w'.redis.recent ↔ other ∈ w'.memory.recentIds) : Inv instanceId w' := by
  obtain ⟨history, hconsistent⟩ := h.consistent
  refine ⟨?_, fun other => ?_, fun other hlive => ?_, fun other hlive => ?_, fun other => ?_,
    fun other entry hget => ?_, hrecent⟩
  · rw [hdropped.memory]
    exact ⟨_, hconsistent.unregister agentId instant⟩
  · rw [hdropped.memory, hdropped.lives, InMemoryAgentRegistry.isConnected_unregister, h.connected]
    by_cases heq : other = agentId
    · rw [heq, Function.update_self, decide_eq_true rfl, Bool.not_true, Bool.false_and]
    · rw [Function.update_of_ne heq, decide_eq_false heq, Bool.not_false, Bool.true_and]
  · rw [hdropped.lives] at hlive
    rw [LeaseDb.ownerOf, hdropped.redis]
    by_cases heq : other = agentId
    · rw [heq, Function.update_self] at hlive
      cases hlive
    · simp only [Function.update_of_ne heq] at hlive ⊢
      exact h.owner other hlive
  · rw [hdropped.lives] at hlive
    rw [LeaseDb.ownerOf, hdropped.redis]
    by_cases heq : other = agentId
    · simp only [heq, Function.update_self, Redis.get_none]
    · simp only [Function.update_of_ne heq] at hlive ⊢
      exact h.ownerless other hlive
  · rw [hdropped.redis, hdropped.lives, Finset.mem_erase, h.listed]
    by_cases heq : other = agentId
    · rw [heq, Function.update_self]
      exact iff_of_false (fun hmem => hmem.1 rfl) Bool.false_ne_true
    · rw [Function.update_of_ne heq]
      exact and_iff_right heq
  · rw [hdropped.memory] at hget
    rw [hdropped.redis]
    by_cases heq : other = agentId
    · rw [heq, InMemoryAgentRegistry.get_unregister_self] at hget
      cases hget
    · rw [InMemoryAgentRegistry.get_unregister_ne instant heq] at hget
      exact h.claims other entry hget

theorem userless_iff (h : Inv instanceId w) (huserless : Userless w)
    (hdropped : Dropped instanceId w agentId instant now w') :
    Userless w' ↔ ∀ entry, w.memory.get agentId = some entry → entry.val.claims.user = none := by
  obtain ⟨entry, hget⟩ := Option.isSome_iff_exists.mp (hdropped.isConnected h)
  obtain ⟨kept, hkept, hrecent⟩ := InMemoryAgentRegistry.recent_unregister hget instant
  rw [Userless, hdropped.memory, hrecent]
  constructor
  · intro hall entry' hget'
    obtain rfl := Option.some.inj (hget.symm.trans hget')
    exact hall _ (List.mem_append_right _ List.mem_cons_self)
  · intro huser r hr
    rcases List.mem_append.mp hr with hold | hnew
    · exact huserless r (List.mem_of_mem_filter (hkept.subset hold))
    · rw [List.mem_singleton.mp hnew]
      exact huser entry hget

end Dropped

/-! ### From what is shown back to the logs -/

/-- Two registries that show the same know the same agents that left, and no user of one. -/
theorem recents_of_same {history : List Uuid} (hsame : Same parseUuid parseRfc3339 w)
    (hconsistent : InMemoryAgentRegistry.Consistent w.memory history)
    (hapart : ∀ agentId ∈ w.redis.recent, agentId ∉ w.redis.connected) :
    Userless w ∧ ∀ agentId, agentId ∈ w.redis.recent ↔ agentId ∈ w.memory.recentIds := by
  have hleft : ∀ agentId user, (∃ r ∈ w.memory.recent, w.memory.isConnected agentId = false ∧ r.agentId = agentId ∧
      r.user = user) ↔ user = none ∧ agentId ∈ w.redis.recent ∧ agentId ∉ w.redis.connected := by
    intro agentId user
    rw [← @LeaseDb.mem_shown_listAgents_left parseUuid parseRfc3339 w.redis 0, ← hsame.list 0 0,
      InMemoryAgentRegistry.mem_shown_list_left]
  have hmemory (r : RecentEntry) (hr : r ∈ w.memory.recent) :
      r.user = none ∧ r.agentId ∈ w.redis.recent ∧ r.agentId ∉ w.redis.connected :=
    (hleft r.agentId r.user).mp ⟨r, hr, hconsistent.apart r.agentId (List.mem_map_of_mem hr), rfl, rfl⟩
  refine ⟨fun r hr => (hmemory r hr).1, fun agentId => ⟨fun hrecent => ?_, fun hrecent => ?_⟩⟩
  · obtain ⟨r, hr, -, hagent, -⟩ := (hleft agentId none).mpr ⟨rfl, hrecent, hapart agentId hrecent⟩
    exact List.mem_map.mpr ⟨r, hr, hagent⟩
  · obtain ⟨r, hr, rfl⟩ := List.mem_map.mp hrecent
    exact (hmemory r hr).2.1

theorem Dropped.apart (h : Inv instanceId w) {agentId : Uuid} {instant : Instant} {now : Nat}
    (hdropped : Dropped instanceId w agentId instant now w') :
    ∀ other ∈ w'.redis.recent, other ∉ w'.redis.connected := by
  obtain ⟨history, hconsistent⟩ := h.consistent
  intro other hrecent hlisted
  rw [hdropped.redis] at hrecent hlisted
  obtain ⟨hne, hold⟩ := Finset.mem_erase.mp hlisted
  rcases (AList.mem_insert _).mp (Redis.ZSet.mem_of_mem_zremrangebyrank hrecent) with heq | hmem
  · exact hne heq
  · have happart := hconsistent.apart other ((h.recent other).mp hmem)
    rw [h.connected, (h.listed other).mp hold] at happart
    cases happart

/-! ### Runs -/

theorem same_step_iff (hreads : ReadsRendered parseUuid) {e : Event} (hstep : step instanceId w e = some w')
    (h : Inv instanceId w) (huserless : Userless w) : Same parseUuid parseRfc3339 w' ↔ w.Plain e := by
  cases e with
  | acquire agentId localTx claims connectedAt instant now =>
      have hacquired := acquired_of_step hstep
      exact iff_of_true (same_of_inv hreads (hacquired.inv h) (hacquired.userless huserless)) trivial
  | dropLease agentId instant now =>
      have hdropped := dropped_of_step h hstep
      rw [Plain, ← hdropped.userless_iff h huserless, ← hdropped.recent_iff h]
      constructor
      · intro hsame
        obtain ⟨history, hconsistent⟩ := h.consistent
        have hleft := hconsistent.unregister agentId instant
        rw [← hdropped.memory] at hleft
        exact recents_of_same hsame hleft (hdropped.apart h)
      · rintro ⟨huser, hrecent⟩
        exact same_of_inv hreads (hdropped.inv h hrecent) huser

theorem inv_step {e : Event} (hstep : step instanceId w e = some w') (h : Inv instanceId w) (huserless : Userless w)
    (hplain : w.Plain e) : Inv instanceId w' ∧ Userless w' := by
  cases e with
  | acquire agentId localTx claims connectedAt instant now =>
      have hacquired := acquired_of_step hstep
      exact ⟨hacquired.inv h, hacquired.userless huserless⟩
  | dropLease agentId instant now =>
      have hdropped := dropped_of_step h hstep
      obtain ⟨huser, hranks⟩ := hplain
      exact ⟨hdropped.inv h ((hdropped.recent_iff h).mpr hranks), (hdropped.userless_iff h huserless).mpr huser⟩

/-- In every run: nobody can tell the registries apart after any step, just if no agent that leaves has a user and
the agents leave the full logs in the same order. -/
theorem same_iff_plain (hreads : ReadsRendered parseUuid) (es : List Event) :
    (system instanceId).EveryStep (fun _ _ w' => Same parseUuid parseRfc3339 w') (system instanceId).init es ↔
      (system instanceId).EveryStep (fun w e _ => w.Plain e) (system instanceId).init es :=
  (system instanceId).everyStep_congr (fun _ _ _ hstep h => same_step_iff hreads hstep h.1 h.2)
    (fun _ _ _ hstep h hplain => inv_step hstep h.1 h.2 hplain)
    (⟨inv_init, fun _ hr => by cases hr⟩ :
      Inv instanceId (system instanceId).init ∧ Userless (system instanceId).init) es

/-- An agent without a user comes and goes. -/
theorem same_of_userless_visit : (system "one").EveryStep (fun _ _ w' => Same Uuid.parseStr (fun _ => none) w')
    (system "one").init [.acquire 7 0 ⟨7, "agent", none, 60, "overacp"⟩ "2026-01-01T00:00:00+00:00" 0 0,
      .dropLease 7 1 1] := by
  refine (same_iff_plain Uuid.parseStr_render _).mpr ?_
  refine Transition.System.everyStep_of_step rfl trivial (Transition.System.everyStep_of_step rfl ⟨?_, ?_⟩ trivial)
  · intro entry hget
    cases hget
    rfl
  · intro hfull
    cases hfull

/-- An agent with a user leaves: one registry still has the user, the other one has none. -/
theorem user_forgotten : ∃ w, (system "one").run (system "one").init
      [.acquire 7 0 ⟨7, "agent", some 1, 60, "overacp"⟩ "2026-01-01T00:00:00+00:00" 0 0, .dropLease 7 1 1] = some w ∧
    ¬ Same Uuid.parseStr (fun _ => none) w := by
  refine ⟨_, rfl, fun h => ?_⟩
  have hdescribe : some ((7 : Uuid), false, some (1 : Uuid)) = some (7, false, none) := h.describe 7 1 1
  cases hdescribe

/-! ### A clock that goes forward -/

/-- Whoever left later has the greater time stamp. -/
def InOrder (w : Backends) : Prop := w.memory.recentIds.Pairwise fun x y =>
  ∀ s t, w.redis.recent.lookup x = some s → w.redis.recent.lookup y = some t → s < t

/-- A drop has a greater time stamp than any in the log. -/
def Later (w : Backends) : Event → Prop
  | .acquire .. => True
  | .dropLease _ _ now => ∀ other s, w.redis.recent.lookup other = some s → s < now

/-- The agent that leaves has no user. -/
def Anonymous (w : Backends) : Event → Prop
  | .acquire .. => True
  | .dropLease agentId _ _ => ∀ entry, w.memory.get agentId = some entry → entry.val.claims.user = none

theorem ranksFirst_of_later (horder : InOrder w) {agentId oldest : Uuid} {instant : Instant} {now : Nat}
    (hlater : w.Later (.dropLease agentId instant now))
    (hknown : ∀ other, other ∈ w.redis.recent ↔ other ∈ w.memory.recentIds)
    (hnew : agentId ∉ w.memory.recentIds) (hfirst : oldest ∈ w.memory.recentIds.head?) :
    (w.redis.recent.zadd now agentId).RanksFirst oldest := by
  obtain ⟨rest, hids⟩ := List.head?_eq_some_iff.mp hfirst
  rw [InOrder, hids] at horder
  have hne : oldest ≠ agentId := by
    rintro rfl
    exact hnew (List.mem_of_mem_head? hfirst)
  intro s y t hs ht
  rw [Redis.ZSet.zadd, AList.lookup_insert_ne hne] at hs
  by_cases hy : y = agentId
  · rw [hy, Redis.ZSet.zadd, AList.lookup_insert] at ht
    obtain rfl := Option.some.inj ht
    exact .inl (hlater oldest s hs)
  · rw [Redis.ZSet.zadd, AList.lookup_insert_ne hy] at ht
    have hmem : y ∈ w.memory.recentIds :=
      (hknown y).mp (AList.lookup_isSome.mp (Option.isSome_iff_exists.mpr ⟨t, ht⟩))
    rw [hids] at hmem
    rcases List.mem_cons.mp hmem with rfl | hrest
    · obtain rfl := Option.some.inj (hs.symm.trans ht)
      exact .inr ⟨rfl, BitVec.le_refl _⟩
    · exact .inl ((List.pairwise_cons.mp horder).1 y hrest s t hs ht)

theorem Acquired.inOrder {agentId : Uuid} {entry : Arc AgentEntry} {connectedAt : String} {now : Nat}
    (horder : InOrder w) (hacquired : Acquired instanceId w agentId entry connectedAt now w') : InOrder w' := by
  have hids : w'.memory.recentIds = RecentLog.purge w.memory.recentIds agentId := by
    rw [hacquired.memory]
    exact InMemoryAgentRegistry.recentIds_purgeRecent _ agentId
  rw [InOrder, hids, hacquired.recent]
  refine (List.Pairwise.sublist List.filter_sublist horder).imp fun {x y} hlt s t hs ht => ?_
  exact hlt s t (Redis.ZSet.lookup_of_lookup_erase hs) (Redis.ZSet.lookup_of_lookup_erase ht)

theorem Dropped.inOrder (h : Inv instanceId w) {agentId : Uuid} {instant : Instant} {now : Nat} (horder : InOrder w)
    (hlater : w.Later (.dropLease agentId instant now)) (hdropped : Dropped instanceId w agentId instant now w') :
    InOrder w' := by
  have hadded : ∀ x s, w'.redis.recent.lookup x = some s → (w.redis.recent.zadd now agentId).lookup x = some s := by
    intro x s hlookup
    rw [hdropped.redis] at hlookup
    exact Redis.ZSet.lookup_of_lookup_zremrangebyrank hlookup
  have hold : ∀ x s, x ≠ agentId → w'.redis.recent.lookup x = some s → w.redis.recent.lookup x = some s := by
    intro x s hne hlookup
    rw [← AList.lookup_insert_ne hne]
    exact hadded x s hlookup
  have hpurged := @RecentLog.Follows.kept_sublist _ _ recentCapacity w.memory.recentIds agentId
  rw [InOrder, hdropped.recentIds h, RecentLog.push]
  refine List.pairwise_append.mpr ⟨?_, List.pairwise_singleton _ _, ?_⟩
  · refine (horder.sublist (hpurged.trans List.filter_sublist)).imp_of_mem ?_
    intro x y hx hy hlt s t hs ht
    exact hlt s t (hold x s (RecentLog.mem_purge.mp (hpurged.subset hx)).2 hs)
      (hold y t (RecentLog.mem_purge.mp (hpurged.subset hy)).2 ht)
  · intro x hx y hy s t hs ht
    obtain rfl := List.mem_singleton.mp hy
    have htime := hadded y t ht
    rw [Redis.ZSet.zadd, AList.lookup_insert] at htime
    obtain rfl := Option.some.inj htime
    exact hlater x s (hold x s (RecentLog.mem_purge.mp (hpurged.subset hx)).2 hs)

theorem plain_iff_anonymous (h : Inv instanceId w) (horder : InOrder w) {e : Event}
    (hstep : step instanceId w e = some w') (hlater : w.Later e) : w.Plain e ↔ w.Anonymous e := by
  cases e with
  | acquire agentId localTx claims connectedAt instant now => exact Iff.rfl
  | dropLease agentId instant now =>
      have hdropped := dropped_of_step h hstep
      exact and_iff_left fun _ oldest hfirst => ranksFirst_of_later horder hlater h.recent (hdropped.fresh h) hfirst

theorem inOrder_step (h : Inv instanceId w) (horder : InOrder w) {e : Event} (hstep : step instanceId w e = some w')
    (hlater : w.Later e) : InOrder w' := by
  cases e with
  | acquire agentId localTx claims connectedAt instant now => exact (acquired_of_step hstep).inOrder horder
  | dropLease agentId instant now => exact (dropped_of_step h hstep).inOrder h horder hlater

/-- In every run in which the drops are stamped in their order: nobody can tell the registries apart after any
step, just if no agent that leaves has a user. -/
theorem same_iff_anonymous (hreads : ReadsRendered parseUuid) {es : List Event}
    (hlater : (system instanceId).EveryStep (fun w e _ => w.Later e) (system instanceId).init es) :
    (system instanceId).EveryStep (fun _ _ w' => Same parseUuid parseRfc3339 w') (system instanceId).init es ↔
      (system instanceId).EveryStep (fun w e _ => w.Anonymous e) (system instanceId).init es := by
  refine (system instanceId).everyStep_congr_of (I := fun w => (Inv instanceId w ∧ Userless w) ∧ InOrder w) ?_ ?_
    ⟨⟨inv_init, fun _ hr => by cases hr⟩, .nil⟩ hlater
  · intro w e w' hstep h hlater
    exact (same_step_iff hreads hstep h.1.1 h.1.2).trans (plain_iff_anonymous h.1.1 h.2 hstep hlater)
  · intro w e w' hstep h hlater hanonymous
    have hplain := (plain_iff_anonymous h.1.1 h.2 hstep hlater).mpr hanonymous
    exact ⟨inv_step hstep h.1.1 h.1.2 hplain, inOrder_step h.1.1 h.2 hstep hlater⟩

end Backends

end Overacp
