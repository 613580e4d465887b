import Overacp.Lib.Transition
import Overacp.Server.Redis.Lease

/-!
# Takeover

One instance acquires the lease of an agent while the instance that held it releases it. The commands
of the two interleave in any order. This module says in which orders the new owner ends up with all
that its acquire wrote.
-/

namespace Overacp

/-- One instance owns the agent and another calls `acquire_lease`. -/
structure Takeover where
  previous : String
  args : AcquireArgs
  db : LeaseDb
  owned : db.ownerOf args.agentId = some previous
  different : previous ≠ args.instanceId

namespace Takeover

structure State where
  db : LeaseDb
  acquire : AcquirePc
  release : ReleasePc

/-- The next command of one of the two, and when it runs. -/
inductive Event where
  | acquire (now : Nat)
  | release (now : Nat)
  deriving DecidableEq, Repr

variable (T : Takeover)

def step (s : State) : Event → Option State
  | .acquire now => (acquireStep T.args now s.db s.acquire).map fun r => { s with db := r.1, acquire := r.2 }
  | .release now =>
      (releaseStep T.args.agentId T.previous now s.db s.release).map fun r =>
        { s with db := r.1, release := r.2 }

def system : Transition.System State Event := ⟨⟨T.db, .get, .casDel⟩, T.step⟩

/-- The owner key and the tunnel directory name the new owner, and the agent is listed as connected. -/
structure Owned (db : LeaseDb) : Prop where
  owner : db.ownerOf T.args.agentId = some T.args.instanceId
  connected : T.args.agentId ∈ db.connected
  notRecent : T.args.agentId ∉ db.recent
  tunnel : db.tunnelOf T.args.agentId = some T.args.instanceId

/-- Between its successful compare-and-delete and its last command. -/
def Busy : ReleasePc → Prop
  | .casDel | .done => False
  | .srem | .zadd | .zremrangebyrank | .del => True

/-- The new owner does not write its tunnel directory while the release is under way. -/
def Clear (s : State) (e : Event) (_ : State) : Prop :=
  ∀ now, e = .acquire now → s.acquire = .hset → ¬ Busy s.release

/-! ### What has been written stays written -/

/-- How many commands `acquire_lease` has behind it, the announcement counted. -/
def passed : AcquirePc → Nat
  | .get => 0
  | .publish => 1
  | .set => 2
  | .hset => 3
  | .expire => 4
  | .sadd => 5
  | .zrem => 6
  | .setClaims => 7
  | .done => 8

/-- What the acquire has written by now is there, and no release is left that would remove it. -/
structure Intact (db : LeaseDb) (acquire : AcquirePc) (release : ReleasePc) : Prop where
  owner : 3 ≤ passed acquire → db.ownerOf T.args.agentId = some T.args.instanceId
  idle : 4 ≤ passed acquire → ¬ Busy release
  tunnel : 4 ≤ passed acquire → db.tunnelOf T.args.agentId = some T.args.instanceId
  connected : 6 ≤ passed acquire → T.args.agentId ∈ db.connected
  notRecent : 7 ≤ passed acquire → T.args.agentId ∉ db.recent

/-- The directory was written, and a release is about to remove it or has done so. -/
structure Wrecked (db : LeaseDb) (acquire : AcquirePc) (release : ReleasePc) : Prop where
  written : 4 ≤ passed acquire
  removed : Busy release ∨ (release = .done ∧ db.tunnelOf T.args.agentId = none)

variable {T}

theorem step_acquire {s t : State} {now : Nat} (h : T.step s (.acquire now) = some t) :
    ∃ db pc, acquireStep T.args now s.db s.acquire = some (db, pc) ∧ t = ⟨db, pc, s.release⟩ := by
  obtain ⟨⟨db, pc⟩, hr, rfl⟩ := Option.map_eq_some_iff.mp h
  exact ⟨db, pc, hr, rfl⟩

theorem step_release {s t : State} {now : Nat} (h : T.step s (.release now) = some t) :
    ∃ db pc, releaseStep T.args.agentId T.previous now s.db s.release = some (db, pc) ∧
      t = ⟨db, s.acquire, pc⟩ := by
  obtain ⟨⟨db, pc⟩, hr, rfl⟩ := Option.map_eq_some_iff.mp h
  exact ⟨db, pc, hr, rfl⟩

/-- Up to the `SET` there is nothing to keep. -/
theorem intact_of_le {db : LeaseDb} {acquire : AcquirePc} {release : ReleasePc}
    (h : passed acquire ≤ 2) : T.Intact db acquire release := by
  refine ⟨?_, ?_, ?_, ?_, ?_⟩ <;> intro hpassed <;> omega

theorem passed_of_get {now : Nat} {db db' : LeaseDb} {pc : AcquirePc}
    (h : acquireStep T.args now db .get = some (db', pc)) : passed pc ≤ 2 := by
  simp only [acquireStep] at h
  split at h
  · obtain ⟨-, rfl⟩ := Prod.mk.inj (Option.some.inj h)
    split <;> decide
  · obtain ⟨-, rfl⟩ := Prod.mk.inj (Option.some.inj h)
    decide

theorem intact_acquire {now : Nat} {db db' : LeaseDb} {acquire acquire' : AcquirePc}
    {release : ReleasePc} (hstep : acquireStep T.args now db acquire = some (db', acquire'))
    (hclear : acquire = .hset → ¬ Busy release) (hs : T.Intact db acquire release) :
    T.Intact db' acquire' release := by
  obtain ⟨owner, idle, tunnel, connected, notRecent⟩ := hs
  cases acquire with
  | get => exact intact_of_le (passed_of_get hstep)
  | publish =>
      cases hstep
      exact intact_of_le (by decide)
  | set =>
      cases hstep
      refine ⟨?_, ?_, ?_, ?_, ?_⟩
      · intro _
        simp
      all_goals
        intro hpassed
        exact absurd hpassed (by decide)
  | hset =>
      cases hstep
      refine ⟨fun _ => owner (by decide), fun _ => hclear rfl, ?_, ?_, ?_⟩
      · intro _
        simp
      all_goals
        intro hpassed
        exact absurd hpassed (by decide)
  | expire =>
      cases hstep
      refine ⟨fun _ => owner (by decide), fun _ => idle (by decide), ?_, ?_, ?_⟩
      · intro _
        rw [LeaseDb.tunnelOf_setTunnel, Redis.get_expire]
        exact tunnel (by decide)
      all_goals
        intro hpassed
        exact absurd hpassed (by decide)
  | sadd =>
      cases hstep
      refine ⟨fun _ => owner (by decide), fun _ => idle (by decide), fun _ => tunnel (by decide), ?_, ?_⟩
      · intro _
        exact Finset.mem_insert_self _ _
      · intro hpassed
        exact absurd hpassed (by decide)
  | zrem =>
      cases hstep
      refine ⟨fun _ => owner (by decide), fun _ => idle (by decide), fun _ => tunnel (by decide),
        fun _ => connected (by decide), ?_⟩
      intro _
      exact Redis.ZSet.notMem_zrem _ _
  | setClaims =>
      cases hstep
      exact ⟨fun _ => owner (by decide), fun _ => idle (by decide), fun _ => tunnel (by decide),
        fun _ => connected (by decide), fun _ => notRecent (by decide)⟩
  | done => cases hstep

/-- The compare-and-delete finds the new owner and leaves everything as it is. -/
theorem releaseStep_casDel {now : Nat} {db db' : LeaseDb} {release' : ReleasePc}
    (howner : db.ownerOf T.args.agentId = some T.args.instanceId)
    (hstep : releaseStep T.args.agentId T.previous now db .casDel = some (db', release')) :
    db' = db ∧ release' = .done := by
  have hforeign : db.ownerOf T.args.agentId ≠ some T.previous := by
    intro hprevious
    exact T.different (Option.some.inj (hprevious.symm.trans howner))
  simp only [releaseStep, if_neg hforeign] at hstep
  cases hstep
  exact ⟨rfl, rfl⟩

theorem ownerOf_release {now : Nat} {db db' : LeaseDb} {release release' : ReleasePc}
    (howner : db.ownerOf T.args.agentId = some T.args.instanceId)
    (hstep : releaseStep T.args.agentId T.previous now db release = some (db', release')) :
    db'.ownerOf T.args.agentId = some T.args.instanceId := by
  cases release with
  | casDel =>
      rw [(releaseStep_casDel howner hstep).1]
      exact howner
  | srem | zadd | zremrangebyrank | del =>
      cases hstep
      exact howner
  | done => cases hstep

theorem intact_release {now : Nat} {db db' : LeaseDb} {acquire : AcquirePc}
    {release release' : ReleasePc}
    (hstep : releaseStep T.args.agentId T.previous now db release = some (db', release'))
    (hs : T.Intact db acquire release) : T.Intact db' acquire release' := by
  by_cases hwritten : 4 ≤ passed acquire
  · have hidle : ¬ Busy release := hs.idle hwritten
    cases release with
    | casDel =>
        obtain ⟨rfl, rfl⟩ := releaseStep_casDel (hs.owner (by omega)) hstep
        exact ⟨hs.owner, fun _ => id, hs.tunnel, hs.connected, hs.notRecent⟩
    | srem | zadd | zremrangebyrank | del => exact absurd trivial hidle
    | done => cases hstep
  · refine ⟨?_, ?_, ?_, ?_, ?_⟩
    · intro hpassed
      exact ownerOf_release (hs.owner hpassed) hstep
    all_goals
      intro hpassed
      omega

theorem wrecked_acquire {now : Nat} {db db' : LeaseDb} {acquire acquire' : AcquirePc}
    {release : ReleasePc} (hstep : acquireStep T.args now db acquire = some (db', acquire'))
    (hs : T.Wrecked db acquire release) : T.Wrecked db' acquire' release := by
  obtain ⟨written, removed⟩ := hs
  cases acquire with
  | get | publish | set | hset => exact absurd written (by decide)
  | expire =>
      cases hstep
      refine ⟨by decide, ?_⟩
      rw [LeaseDb.tunnelOf_setTunnel, Redis.get_expire]
      exact removed
  | sadd | zrem | setClaims =>
      cases hstep
      exact ⟨by decide, removed⟩
  | done => cases hstep

theorem wrecked_release {now : Nat} {db db' : LeaseDb} {acquire : AcquirePc}
    {release release' : ReleasePc}
    (hstep : releaseStep T.args.agentId T.previous now db release = some (db', release'))
    (hs : T.Wrecked db acquire release) : T.Wrecked db' acquire release' := by
  obtain ⟨written, removed⟩ := hs
  refine ⟨written, ?_⟩
  cases release with
  | casDel =>
      rcases removed with hbusy | hdone
      · exact absurd hbusy id
      · exact absurd hdone.1 (by decide)
  | srem | zadd | zremrangebyrank =>
      cases hstep
      exact .inl trivial
  | del =>
      cases hstep
      right
      simp
  | done => cases hstep

/-! ### A whole takeover -/

theorem intact_step {s t : State} {e : Event} (h : T.step s e = some t) (hclear : Clear s e t)
    (hs : T.Intact s.db s.acquire s.release) : T.Intact t.db t.acquire t.release := by
  cases e with
  | acquire now =>
      obtain ⟨db, pc, hstep, rfl⟩ := step_acquire h
      exact intact_acquire hstep (hclear now rfl) hs
  | release now =>
      obtain ⟨db, pc, hstep, rfl⟩ := step_release h
      exact intact_release hstep hs

theorem wrecked_step {s t : State} {e : Event} (h : T.step s e = some t)
    (hs : T.Wrecked s.db s.acquire s.release) : T.Wrecked t.db t.acquire t.release := by
  cases e with
  | acquire now =>
      obtain ⟨db, pc, hstep, rfl⟩ := step_acquire h
      exact wrecked_acquire hstep hs
  | release now =>
      obtain ⟨db, pc, hstep, rfl⟩ := step_release h
      exact wrecked_release hstep hs

theorem wrecked_of_not_clear {s t : State} {e : Event} (h : T.step s e = some t)
    (hclear : ¬ Clear s e t) : T.Wrecked t.db t.acquire t.release := by
  simp only [Clear, not_forall, not_not] at hclear
  obtain ⟨now, rfl, hhset, hbusy⟩ := hclear
  obtain ⟨db, pc, hstep, rfl⟩ := step_acquire h
  rw [hhset] at hstep
  cases hstep
  exact ⟨Nat.le_refl 4, .inl hbusy⟩

/-- Once both calls are done, in whichever order their commands came. -/
theorem owned_iff_directory_written_clear (T : Takeover) {es : List Event} {t : State}
    (hrun : T.system.run T.system.init es = some t) (hacquire : t.acquire = .done)
    (hrelease : t.release = .done) :
    T.Owned t.db ↔ T.system.EveryStep Clear T.system.init es := by
  constructor
  · intro howned
    by_contra hclear
    have hwrecked : T.Wrecked t.db t.acquire t.release :=
      T.system.run_invariant_of_not_everyStep (fun _ _ _ => wrecked_of_not_clear)
        (fun _ _ _ => wrecked_step) hrun hclear
    rcases hwrecked.removed with hbusy | ⟨_, htunnel⟩
    · rw [hrelease] at hbusy
      exact hbusy
    · rw [howned.tunnel] at htunnel
      cases htunnel
  · intro hclear
    have hintact : T.Intact t.db t.acquire t.release :=
      T.system.run_invariant_of_everyStep (fun _ _ _ => intact_step) hrun hclear
        (intact_of_le (Nat.zero_le 2))
    rw [hacquire] at hintact
    exact ⟨hintact.owner (by decide), hintact.connected (by decide), hintact.notRecent (by decide),
      hintact.tunnel (by decide)⟩

private def fromAToB : Takeover where
  previous := "a"
  args := ⟨7, "b", "claims"⟩
  db := acquireLease ⟨7, "a", "claims"⟩ 0 .empty
  owned := by decide +kernel
  different := by decide

private def released : List Event :=
  [.release 1, .release 2, .release 3, .release 4, .release 5]

private def acquired : List Event :=
  [.acquire 6, .acquire 7, .acquire 8, .acquire 9, .acquire 10, .acquire 11, .acquire 12]

theorem owned_when_release_comes_first :
    ∃ t, fromAToB.system.run fromAToB.system.init (released ++ acquired) = some t ∧
      (fromAToB.Owned t.db ↔
        fromAToB.system.EveryStep Clear fromAToB.system.init (released ++ acquired)) := by
  have hend : (fromAToB.system.run fromAToB.system.init (released ++ acquired)).any
      (fun t => t.acquire = .done ∧ t.release = .done) = true := by decide +kernel
  obtain ⟨t, hrun, hdone⟩ := (Option.any_eq_true _ _).mp hend
  simp only [decide_eq_true_eq] at hdone
  exact ⟨t, hrun, owned_iff_directory_written_clear fromAToB hrun hdone.1 hdone.2⟩

/-- The release deletes the owner key before the takeover and the rest after it. -/
theorem late_release_undoes_takeover :
    ∃ t, fromAToB.system.run fromAToB.system.init
        (.release 1 :: acquired ++ [.release 13, .release 14, .release 15, .release 16]) = some t ∧
      t.acquire = .done ∧ t.release = .done ∧ t.db.ownerOf 7 = some "b" ∧ 7 ∉ t.db.connected ∧
      7 ∈ t.db.recent ∧ t.db.tunnelOf 7 = none ∧ ¬ fromAToB.Owned t.db := by
  have hend : (fromAToB.system.run fromAToB.system.init
      (.release 1 :: acquired ++ [.release 13, .release 14, .release 15, .release 16])).any
      (fun t => t.acquire = .done ∧ t.release = .done ∧ t.db.ownerOf 7 = some "b" ∧
        7 ∉ t.db.connected ∧ 7 ∈ t.db.recent ∧ t.db.tunnelOf 7 = none) = true := by decide +kernel
  obtain ⟨t, hrun, hdone⟩ := (Option.any_eq_true _ _).mp hend
  simp only [decide_eq_true_eq] at hdone
  obtain ⟨hacquire, hrelease, howner, hconnected, hrecent, htunnel⟩ := hdone
  refine ⟨t, hrun, hacquire, hrelease, howner, hconnected, hrecent, htunnel, ?_⟩
  intro howned
  exact hconnected howned.connected

end Takeover

end Overacp
