import Overacp.Lib.Transition
import Overacp.Server.Redis.Takeover

/-!
# Overlapping leases of the Redis registry

Instances acquire and drop leases of one agent. The owner key holds an instance id, and each instance
keeps its sender and its consumer in tables keyed by the agent, so a lease that is dropped late may
find what a newer one has put there. This module says in which runs it does not.
-/

namespace Overacp

/-- All instances of the registry, as far as one agent goes. Leases are numbered by their acquires;
the tables hold the number of the lease whose sender or consumer it is. -/
structure RedisAgentRegistry where
  db : LeaseDb
  count : Nat
  instanceOf : Nat → String
  held : Nat → Bool
  consuming : Nat → Bool
  releasing : Nat → Option ReleasePc
  localSenders : String → Option Nat
  consumerHandles : String → Option Nat

namespace RedisAgentRegistry

def new : RedisAgentRegistry where
  db := .empty
  count := 0
  instanceOf _ := ""
  held _ := false
  consuming _ := false
  releasing _ := none
  localSenders _ := none
  consumerHandles _ := none

/-- `acquire` on an instance. The handle of an earlier consumer is overwritten, not aborted. -/
def acquire (r : RedisAgentRegistry) (args : AcquireArgs) (now : Nat) : RedisAgentRegistry where
  db := acquireLease args now r.db
  count := r.count + 1
  instanceOf := Function.update r.instanceOf r.count args.instanceId
  held := Function.update r.held r.count true
  consuming := Function.update r.consuming r.count true
  releasing := r.releasing
  localSenders := Function.update r.localSenders args.instanceId (some r.count)
  consumerHandles := Function.update r.consumerHandles args.instanceId (some r.count)

/-- The consumers after the handle found in the table has been aborted. -/
def abort (consuming : Nat → Bool) : Option Nat → Nat → Bool
  | some handle => Function.update consuming handle false
  | none => consuming

/-- The closure `acquire` builds; dropping the ownership spawns `release_lease`. -/
def dropLease (r : RedisAgentRegistry) (lease : Nat) : RedisAgentRegistry :=
  let instanceId := r.instanceOf lease
  { r with
    consuming := abort r.consuming (r.consumerHandles instanceId)
    consumerHandles := Function.update r.consumerHandles instanceId none
    localSenders := Function.update r.localSenders instanceId none
    held := Function.update r.held lease false
    releasing := Function.update r.releasing lease (some .casDel) }

inductive Event where
  | acquire (instanceId claimsJson : String) (now : Nat)
  | dropLease (lease : Nat)
  | release (lease now : Nat)
  deriving DecidableEq, Repr

def step (agentId : Uuid) (r : RedisAgentRegistry) : Event → Option RedisAgentRegistry
  | .acquire instanceId claimsJson now => some (r.acquire ⟨agentId, instanceId, claimsJson⟩ now)
  | .dropLease lease => if r.held lease = true then some (r.dropLease lease) else none
  | .release lease now =>
      (r.releasing lease).bind fun pc =>
        (releaseStep agentId (r.instanceOf lease) now r.db pc).map fun next =>
          { r with db := next.1, releasing := Function.update r.releasing lease (some next.2) }

def system (agentId : Uuid) : Transition.System RedisAgentRegistry Event := ⟨new, step agentId⟩

/-! ### What a late drop may do -/

/-- The lease that is being dropped or released. -/
def Event.ending : Event → Option Nat
  | acquire .. => none
  | dropLease lease | release lease _ => some lease

/-- The owner key is there, and it is the lease that set it. -/
def OwnerSetBy (agentId : Uuid) (r : RedisAgentRegistry) (lease : Nat) : Prop :=
  lease + 1 = r.count ∧ r.db.ownerOf agentId = some (r.instanceOf lease)

/-- Of what a lease has in Redis and in the tables of its instance, nothing goes. -/
structure Spared (agentId : Uuid) (r r' : RedisAgentRegistry) (lease : Nat) : Prop where
  owner : OwnerSetBy agentId r lease → OwnerSetBy agentId r' lease
  sender : r.localSenders (r.instanceOf lease) = some lease →
    r'.localSenders (r.instanceOf lease) = some lease
  consumer : r.consuming lease = true → r'.consuming lease = true

/-- The end of a lease spares every newer one that is still held. -/
def NewerSpared (agentId : Uuid) (r : RedisAgentRegistry) (e : Event) (r' : RedisAgentRegistry) : Prop :=
  ∀ lease, e.ending = some lease → ∀ newer, lease < newer → r.held newer = true →
    Spared agentId r r' newer

/-- No later lease was acquired on the same instance. -/
structure Newest (r : RedisAgentRegistry) (lease : Nat) : Prop where
  acquired : lease < r.count
  latest : ∀ other, lease < other → other < r.count → r.instanceOf other ≠ r.instanceOf lease

/-- A lease is dropped while the newest lease of its instance is itself or no longer held; and its
compare-and-delete runs while the newest lease of all is not a held one of the same instance. -/
def InOrder (r : RedisAgentRegistry) : Event → Prop
  | .acquire .. => True
  | .dropLease lease => ∀ newer, lease < newer → r.held newer = true → Newest r newer →
      r.instanceOf newer ≠ r.instanceOf lease
  | .release lease _ => r.releasing lease = some .casDel → ∀ newer, lease < newer →
      r.held newer = true → newer + 1 = r.count → r.instanceOf newer ≠ r.instanceOf lease

/-! ### The newest leases own the tables -/

structure Inv (agentId : Uuid) (r : RedisAgentRegistry) : Prop where
  sender : ∀ lease, r.held lease = true → Newest r lease →
    r.localSenders (r.instanceOf lease) = some lease
  senderNewest : ∀ instanceId lease, r.localSenders instanceId = some lease →
    Newest r lease ∧ r.instanceOf lease = instanceId
  handleNewest : ∀ instanceId lease, r.consumerHandles instanceId = some lease →
    Newest r lease ∧ r.instanceOf lease = instanceId
  owner : ∀ lease, r.held lease = true → lease + 1 = r.count →
    r.db.ownerOf agentId = some (r.instanceOf lease)
  acquired : ∀ lease, r.held lease = true → lease < r.count
  released : ∀ lease pc, r.releasing lease = some pc → r.held lease = false ∧ lease < r.count

theorem inv_new (agentId : Uuid) : Inv agentId new := by
  refine ⟨?_, ?_, ?_, ?_, ?_, ?_⟩
  · intro lease hheld
    cases hheld
  · intro instanceId lease hsender
    cases hsender
  · intro instanceId lease hhandle
    cases hhandle
  · intro lease hheld
    cases hheld
  · intro lease hheld
    cases hheld
  · intro lease pc hreleasing
    cases hreleasing

variable {agentId : Uuid} {r r' : RedisAgentRegistry}

theorem newest_acquire {args : AcquireArgs} {now lease : Nat} :
    Newest (r.acquire args now) lease ↔
      lease = r.count ∨ Newest r lease ∧ r.instanceOf lease ≠ args.instanceId := by
  have hnew : (r.acquire args now).instanceOf r.count = args.instanceId := Function.update_self ..
  have hold {n : Nat} (h : n < r.count) : (r.acquire args now).instanceOf n = r.instanceOf n :=
    Function.update_of_ne (Nat.ne_of_lt h) ..
  have hcount : (r.acquire args now).count = r.count + 1 := rfl
  constructor
  · intro h
    by_cases hlast : lease = r.count
    · exact .inl hlast
    · have hlt : lease < r.count := by
        have hacquired := h.acquired
        omega
      refine .inr ⟨⟨hlt, ?_⟩, ?_⟩
      · intro other hother hother'
        have hlatest := h.latest other hother (by omega)
        rw [hold hlt, hold hother'] at hlatest
        exact hlatest
      · have hlatest := h.latest r.count hlt (by omega)
        rw [hold hlt, hnew] at hlatest
        exact hlatest.symm
  · intro h
    rcases h with hlast | ⟨hnewest, hinstance⟩
    · refine ⟨by omega, ?_⟩
      intro other hother hother'
      omega
    · have hacquired := hnewest.acquired
      refine ⟨by omega, ?_⟩
      intro other hother hother'
      rw [hold hacquired]
      by_cases hlast : other = r.count
      · rw [hlast, hnew]
        exact hinstance.symm
      · have hlt : other < r.count := by omega
        rw [hold hlt]
        exact hnewest.latest other hother hlt

theorem inv_acquire {args : AcquireArgs} {now : Nat} (hagent : args.agentId = agentId)
    (h : Inv agentId r) : Inv agentId (r.acquire args now) := by
  have hnew : (r.acquire args now).instanceOf r.count = args.instanceId := Function.update_self ..
  have hold {n : Nat} (hn : n < r.count) : (r.acquire args now).instanceOf n = r.instanceOf n :=
    Function.update_of_ne (Nat.ne_of_lt hn) ..
  have hheldOld {n : Nat} (hn : n ≠ r.count) : (r.acquire args now).held n = r.held n :=
    Function.update_of_ne hn ..
  have htable {table : String → Option Nat}
      (hkept : ∀ instanceId lease, table instanceId = some lease →
        Newest r lease ∧ r.instanceOf lease = instanceId)
      (instanceId : String) (lease : Nat)
      (hlease : Function.update table args.instanceId (some r.count) instanceId = some lease) :
      Newest (r.acquire args now) lease ∧ (r.acquire args now).instanceOf lease = instanceId := by
    by_cases hinstance : instanceId = args.instanceId
    · subst hinstance
      rw [Function.update_self] at hlease
      obtain rfl := Option.some.inj hlease
      exact ⟨newest_acquire.mpr (.inl rfl), hnew⟩
    · rw [Function.update_of_ne hinstance] at hlease
      obtain ⟨hnewest, hsame⟩ := hkept instanceId lease hlease
      rw [hold hnewest.acquired]
      exact ⟨newest_acquire.mpr (.inr ⟨hnewest, by rw [hsame]; exact hinstance⟩), hsame⟩
  refine ⟨?_, htable h.senderNewest, htable h.handleNewest, ?_, ?_, ?_⟩
  · intro lease hheld hnewest
    show Function.update r.localSenders args.instanceId (some r.count) _ = some lease
    rcases newest_acquire.mp hnewest with hlast | ⟨hnewestOld, hinstance⟩
    · rw [hlast, hnew, Function.update_self]
    · have hlt := hnewestOld.acquired
      rw [hheldOld (Nat.ne_of_lt hlt)] at hheld
      rw [hold hlt, Function.update_of_ne hinstance]
      exact h.sender lease hheld hnewestOld
  · intro lease _ hlast
    have hcount : lease = r.count := Nat.succ.inj hlast
    rw [hcount, hnew, ← hagent]
    exact ownerOf_acquireLease args now r.db
  · intro lease hheld
    show lease < r.count + 1
    by_cases hlast : lease = r.count
    · omega
    · rw [hheldOld hlast] at hheld
      have hlt := h.acquired lease hheld
      omega
  · intro lease pc hreleasing
    obtain ⟨hheld, hlt⟩ := h.released lease pc hreleasing
    exact ⟨(hheldOld (Nat.ne_of_lt hlt)).trans hheld, Nat.lt_succ_of_lt hlt⟩

theorem step_dropLease {lease : Nat} (hstep : step agentId r (.dropLease lease) = some r') :
    r.held lease = true ∧ r' = r.dropLease lease := by
  simp only [step] at hstep
  split at hstep
  · rename_i hheld
    exact ⟨hheld, (Option.some.inj hstep).symm⟩
  · cases hstep

theorem held_dropLease {lease other : Nat} :
    (r.dropLease lease).held other = true ↔ other ≠ lease ∧ r.held other = true := by
  show Function.update r.held lease false other = true ↔ _
  by_cases hother : other = lease
  · simp [hother]
  · simp [hother]

theorem newest_dropLease {lease other : Nat} : Newest (r.dropLease lease) other ↔ Newest r other := by
  constructor
  · intro h
    exact ⟨h.acquired, h.latest⟩
  · intro h
    exact ⟨h.acquired, h.latest⟩

/-- A held lease that is the newest of its instance is not on the dropped one's. -/
theorem instance_ne_of_inOrder {lease other : Nat} (hheldLease : r.held lease = true)
    (h : Inv agentId r) (horder : InOrder r (.dropLease lease)) (hne : other ≠ lease)
    (hheld : r.held other = true) (hnewest : Newest r other) :
    r.instanceOf other ≠ r.instanceOf lease := by
  rcases Nat.lt_or_gt_of_ne hne with hlt | hgt
  · exact (hnewest.latest lease hlt (h.acquired lease hheldLease)).symm
  · exact horder other hgt hheld hnewest

theorem inv_dropLease {lease : Nat} (hstep : step agentId r (.dropLease lease) = some r')
    (h : Inv agentId r) (horder : InOrder r (.dropLease lease)) : Inv agentId r' := by
  obtain ⟨hheldLease, rfl⟩ := step_dropLease hstep
  have htable {table : String → Option Nat}
      (hkept : ∀ instanceId other, table instanceId = some other →
        Newest r other ∧ r.instanceOf other = instanceId)
      (instanceId : String) (other : Nat)
      (hother : Function.update table (r.instanceOf lease) none instanceId = some other) :
      Newest (r.dropLease lease) other ∧ r.instanceOf other = instanceId := by
    by_cases hinstance : instanceId = r.instanceOf lease
    · rw [hinstance, Function.update_self] at hother
      cases hother
    · rw [Function.update_of_ne hinstance] at hother
      obtain ⟨hnewest, hsame⟩ := hkept instanceId other hother
      exact ⟨newest_dropLease.mpr hnewest, hsame⟩
  refine ⟨?_, htable h.senderNewest, htable h.handleNewest, ?_, ?_, ?_⟩
  · intro other hheld hnewest
    obtain ⟨hne, hheldOther⟩ := held_dropLease.mp hheld
    have hnewestOther := newest_dropLease.mp hnewest
    have hinstance := instance_ne_of_inOrder hheldLease h horder hne hheldOther hnewestOther
    show Function.update r.localSenders (r.instanceOf lease) none (r.instanceOf other) = some other
    rw [Function.update_of_ne hinstance]
    exact h.sender other hheldOther hnewestOther
  · intro other hheld hlast
    exact h.owner other (held_dropLease.mp hheld).2 hlast
  · intro other hheld
    exact h.acquired other (held_dropLease.mp hheld).2
  · intro other pc hreleasing
    by_cases hother : other = lease
    · subst hother
      exact ⟨Function.update_self .., h.acquired other hheldLease⟩
    · have hreleasingOther : r.releasing other = some pc := by
        rw [← hreleasing]
        exact (Function.update_of_ne hother ..).symm
      obtain ⟨hheld, hlt⟩ := h.released other pc hreleasingOther
      exact ⟨(Function.update_of_ne hother ..).trans hheld, hlt⟩

theorem step_release {lease now : Nat} (hstep : step agentId r (.release lease now) = some r') :
    ∃ pc db pc', r.releasing lease = some pc ∧
      releaseStep agentId (r.instanceOf lease) now r.db pc = some (db, pc') ∧
      r' = { r with db := db, releasing := Function.update r.releasing lease (some pc') } := by
  obtain ⟨pc, hpc, hnext⟩ := Option.bind_eq_some_iff.mp hstep
  obtain ⟨⟨db, pc'⟩, hrelease, rfl⟩ := Option.map_eq_some_iff.mp hnext
  exact ⟨pc, db, pc', hpc, hrelease, rfl⟩

/-- Only the compare-and-delete touches the owner key, and only where it names the instance. -/
theorem ownerOf_releaseStep {instanceId : String} {now : Nat} {db db' : LeaseDb} {pc pc' : ReleasePc}
    (h : releaseStep agentId instanceId now db pc = some (db', pc')) :
    db'.ownerOf agentId = db.ownerOf agentId ∨
      pc = .casDel ∧ db.ownerOf agentId = some instanceId ∧ db'.ownerOf agentId = none := by
  cases pc with
  | casDel =>
      simp only [releaseStep] at h
      split at h
      · rename_i howner
        cases h
        exact .inr ⟨rfl, howner, LeaseDb.ownerOf_setOwner ..⟩
      · cases h
        exact .inl rfl
  | srem | zadd | zremrangebyrank | del =>
      cases h
      exact .inl rfl
  | done => cases h

theorem inv_release {lease now : Nat} (hstep : step agentId r (.release lease now) = some r')
    (h : Inv agentId r) (horder : InOrder r (.release lease now)) : Inv agentId r' := by
  obtain ⟨pc, db, pc', hpc, hrelease, rfl⟩ := step_release hstep
  obtain ⟨hnotHeld, hacquired⟩ := h.released lease pc hpc
  have hnewest {other : Nat} (hother : Newest r other) :
      Newest { r with db := db, releasing := Function.update r.releasing lease (some pc') } other :=
    ⟨hother.acquired, hother.latest⟩
  refine ⟨?_, ?_, ?_, ?_, h.acquired, ?_⟩
  · intro other hheld hother
    exact h.sender other hheld ⟨hother.acquired, hother.latest⟩
  · intro instanceId other hother
    obtain ⟨hother', hsame⟩ := h.senderNewest instanceId other hother
    exact ⟨hnewest hother', hsame⟩
  · intro instanceId other hother
    obtain ⟨hother', hsame⟩ := h.handleNewest instanceId other hother
    exact ⟨hnewest hother', hsame⟩
  · intro other hheld hlast
    have howner := h.owner other hheld hlast
    rcases ownerOf_releaseStep hrelease with hsame | ⟨hcas, hforeign, _⟩
    · exact hsame.trans howner
    · -- the newest lease of all is held, so it is not the one being released
      have hne : other ≠ lease := by
        intro heq
        rw [heq, hnotHeld] at hheld
        cases hheld
      have hlt : lease < other := by
        have hcount : other + 1 = r.count := hlast
        omega
      rw [hcas] at hpc
      rw [howner] at hforeign
      exact absurd (Option.some.inj hforeign) (horder hpc other hlt hheld hlast)
  · intro other pc₀ hother
    by_cases hsame : other = lease
    · subst hsame
      exact ⟨hnotHeld, hacquired⟩
    · exact h.released other pc₀ ((Function.update_of_ne hsame ..).symm.trans hother)

theorem inv_step {e : Event} (hstep : step agentId r e = some r') (h : Inv agentId r)
    (horder : InOrder r e) : Inv agentId r' := by
  cases e with
  | acquire instanceId claimsJson now =>
      cases hstep
      exact inv_acquire rfl h
  | dropLease lease => exact inv_dropLease hstep h horder
  | release lease now => exact inv_release hstep h horder

/-! ### When the newer leases are spared -/

theorem spared_of_dropLease {lease newer : Nat} (h : Inv agentId r)
    (horder : InOrder r (.dropLease lease)) (hnewer : lease < newer) (hheld : r.held newer = true) :
    Spared agentId r (r.dropLease lease) newer := by
  refine ⟨id, ?_, ?_⟩
  · intro hsender
    have hnewest := (h.senderNewest _ _ hsender).1
    have hinstance := horder newer hnewer hheld hnewest
    exact (Function.update_of_ne hinstance ..).trans hsender
  · intro hconsuming
    show abort r.consuming (r.consumerHandles (r.instanceOf lease)) newer = true
    cases hhandle : r.consumerHandles (r.instanceOf lease) with
    | none => exact hconsuming
    | some handle =>
        obtain ⟨hnewest, hsame⟩ := h.handleNewest _ _ hhandle
        have hne : newer ≠ handle := by
          intro heq
          subst heq
          exact horder newer hnewer hheld hnewest hsame
        exact (Function.update_of_ne hne ..).trans hconsuming

theorem spared_of_release {lease now newer : Nat} (hstep : step agentId r (.release lease now) = some r')
    (horder : InOrder r (.release lease now)) (hnewer : lease < newer) (hheld : r.held newer = true) :
    Spared agentId r r' newer := by
  obtain ⟨pc, db, pc', hpc, hrelease, rfl⟩ := step_release hstep
  refine ⟨?_, id, id⟩
  intro hset
  obtain ⟨hlast, howner⟩ := hset
  refine ⟨hlast, ?_⟩
  rcases ownerOf_releaseStep hrelease with hsame | ⟨hcas, hforeign, _⟩
  · exact hsame.trans howner
  · rw [hcas] at hpc
    rw [howner] at hforeign
    exact absurd (Option.some.inj hforeign) (horder hpc newer hnewer hheld hlast)

theorem newerSpared_of_inOrder {e : Event} (hstep : step agentId r e = some r') (h : Inv agentId r)
    (horder : InOrder r e) : NewerSpared agentId r e r' := by
  intro lease hending newer hnewer hheld
  cases e with
  | acquire => cases hending
  | dropLease other =>
      obtain rfl := Option.some.inj hending
      obtain ⟨_, rfl⟩ := step_dropLease hstep
      exact spared_of_dropLease h horder hnewer hheld
  | release other now =>
      obtain rfl := Option.some.inj hending
      exact spared_of_release hstep horder hnewer hheld

theorem inOrder_of_newerSpared {e : Event} (hstep : step agentId r e = some r') (h : Inv agentId r)
    (hspared : NewerSpared agentId r e r') : InOrder r e := by
  cases e with
  | acquire => trivial
  | dropLease lease =>
      intro newer hnewer hheld hnewest hsame
      obtain ⟨_, rfl⟩ := step_dropLease hstep
      have hsender := (hspared lease rfl newer hnewer hheld).sender (h.sender newer hheld hnewest)
      have hgone : (r.dropLease lease).localSenders (r.instanceOf newer) = none := by
        rw [hsame]
        exact Function.update_self ..
      rw [hgone] at hsender
      cases hsender
  | release lease now =>
      intro hcas newer hnewer hheld hlast hsame
      have howner := h.owner newer hheld hlast
      have hkept := (hspared lease rfl newer hnewer hheld).owner ⟨hlast, howner⟩
      obtain ⟨pc, db, pc', hpc, hrelease, rfl⟩ := step_release hstep
      rw [hcas] at hpc
      obtain rfl := Option.some.inj hpc
      simp only [releaseStep, if_pos (howner.trans (congrArg some hsame))] at hrelease
      cases hrelease
      have howner' := hkept.2
      rw [LeaseDb.ownerOf_setOwner] at howner'
      cases howner'

/-- In a run, every lease that ends spares the newer ones that are held, if and only if leases end in
order. -/
theorem newer_leases_spared_iff_in_order (agentId : Uuid) (es : List Event) :
    (system agentId).EveryStep (NewerSpared agentId) (system agentId).init es ↔
      (system agentId).EveryStep (fun r e _ => InOrder r e) (system agentId).init es := by
  refine (system agentId).everyStep_congr (I := Inv agentId) ?_ ?_ (inv_new agentId) es
  · intro r e r' hstep h
    constructor
    · exact inOrder_of_newerSpared hstep h
    · exact newerSpared_of_inOrder hstep h
  · intro r e r' hstep h horder
    exact inv_step hstep h horder

/-- The agent reconnects to the same instance, and then the replaced lease is dropped and released:
consumer, sender and owner key of the newer one are gone. -/
theorem replaced_lease_takes_newer_down :
    (∃ r, (system 7).run new [.acquire "a" "" 0, .acquire "a" "" 1, .dropLease 0, .release 0 2] = some r ∧
        r.held 1 = true ∧ r.consuming 1 = false ∧ r.localSenders "a" = none ∧ r.db.ownerOf 7 = none) ∧
      ¬ ∀ es, (system 7).EveryStep (NewerSpared 7) (system 7).init es := by
  refine ⟨⟨_, rfl, by decide +kernel, by decide +kernel, by decide +kernel, by decide +kernel⟩, ?_⟩
  intro h
  have hrun := h ([.acquire "a" "" 0, .acquire "a" "" 1] ++ [.dropLease 0])
  have hspared := hrun.last (t := _) (u := _) rfl rfl
  have hsender := (hspared 0 rfl 1 (by decide) (by decide +kernel)).sender (by decide +kernel)
  exact absurd hsender (by decide +kernel)

end RedisAgentRegistry

end Overacp
