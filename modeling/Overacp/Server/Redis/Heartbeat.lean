import Overacp.Server.Redis.Connected

/-!
# The heartbeat of a lease

A lease lives for thirty seconds and is renewed every ten, so that one renewal may be missed. The task
that renews it reads a failed command as an answer of zero, which is also the answer when the key is
gone or belongs to another instance. This module runs the task over any pattern of failures.
-/

namespace Overacp

namespace Heartbeat

def heartbeatIntervalSecs : Nat := 10

/-- How a renewal goes: it is answered, it is run and the answer is lost, or it is not run. -/
inductive Renewal where
  | answered
  | lost
  | refused
  deriving DecidableEq, Repr

/-- What a tick of the interval meets: the renewal, and whether the refresh after it succeeds. -/
structure Tick where
  renewal : Renewal
  refreshed : Bool
  deriving DecidableEq, Repr

/-- The keys, the time of the last tick, and whether the task is still running. -/
structure State where
  db : LeaseDb
  now : Nat
  beating : Bool

variable (agentId : Uuid) (instanceId : String)

/-- A key is gone when its time has come. -/
def live {α : Type} (key : Redis.Key α) (now : Nat) : Redis.Key α := if Redis.isDue key now then none else key

/-- The keys of the agent at a later time, while nobody touches them. -/
def elapse (db : LeaseDb) (now : Nat) : LeaseDb :=
  ((db.setOwner agentId (live (db.owner agentId) now)).setTunnel agentId (live (db.tunnel agentId) now)).setClaims
    agentId (live (db.claims agentId) now)

/-- `HEARTBEAT_SCRIPT`: its answer and what it leaves. -/
def heartbeatScript (db : LeaseDb) (now : Nat) : Nat × LeaseDb :=
  if db.ownerOf agentId = some instanceId
  then (1, db.setOwner agentId (Redis.expire (db.owner agentId) leaseTtlSecs now)) else (0, db)

/-- The pipeline that refreshes the tunnel directory and the claims. -/
def refresh (db : LeaseDb) (now : Nat) : LeaseDb :=
  (db.setTunnel agentId (Redis.expire (db.tunnel agentId) (leaseTtlSecs * 2) now)).setClaims agentId
    (Redis.expire (db.claims agentId) (leaseTtlSecs * 2) now)

/-- `.unwrap_or(0)`. -/
def renewed (renewal : Renewal) (answer : Nat) : Nat :=
  match renewal with
  | .answered => answer
  | .lost | .refused => 0

/-- One tick of the interval, ten seconds after the one before. -/
def step (s : State) (tick : Tick) : State :=
  let now := s.now + 1000 * heartbeatIntervalSecs
  let db := elapse agentId s.db now
  if s.beating then
    let run := heartbeatScript agentId instanceId db now
    let db := if tick.renewal = .refused then db else run.2
    if renewed tick.renewal run.1 = 0 then ⟨db, now, false⟩
    else ⟨if tick.refreshed then refresh agentId db now else db, now, true⟩
  else ⟨db, now, false⟩

def system (start : State) : Transition.System State Tick :=
  ⟨start, fun s tick => some (step agentId instanceId s tick)⟩

/-- A lease at the time its owner key was set. -/
def acquired (db : LeaseDb) (now : Nat) : State :=
  ⟨db.setOwner agentId (Redis.setEx instanceId leaseTtlSecs now), now, true⟩

/-- Up to the next tick the owner key is there and names the instance, and at the tick the task stops
only if the key is missing or names another. -/
def Sound (s : State) (_ : Tick) (t : State) : Prop :=
  (∀ now, s.now ≤ now → now ≤ t.now →
    (s.db.ownerOf agentId = some instanceId ∧ Redis.isDue (s.db.owner agentId) now = false)) ∧
  (s.beating = true → t.beating = false → (elapse agentId s.db t.now).ownerOf agentId ≠ some instanceId)

/-! ### A lease that has just been renewed -/

/-- The task is running, and the owner key has its thirty seconds from the last tick. -/
structure Fresh (s : State) : Prop where
  beating : s.beating = true
  owner : s.db.owner agentId = some ⟨instanceId, some (s.now + 1000 * leaseTtlSecs)⟩

variable {agentId : Uuid} {instanceId : String} {s : State}

theorem owner_setOwner (db : LeaseDb) (key : Redis.Key String) : (db.setOwner agentId key).owner agentId = key :=
  Function.update_self ..

theorem fresh_acquired (db : LeaseDb) (now : Nat) : Fresh agentId instanceId (acquired agentId instanceId db now) :=
  ⟨rfl, owner_setOwner db _⟩

theorem owner_elapse (db : LeaseDb) (now : Nat) :
    (elapse agentId db now).owner agentId = live (db.owner agentId) now := owner_setOwner db _

/-- Between two ticks the time of a fresh key does not come. -/
theorem Fresh.notDue (h : Fresh agentId instanceId s) {now : Nat}
    (hnow : now ≤ s.now + 1000 * heartbeatIntervalSecs) : Redis.isDue (s.db.owner agentId) now = false := by
  rw [h.owner]
  simp only [Redis.isDue, Option.any_some, decide_eq_false_iff_not, leaseTtlSecs]
  unfold heartbeatIntervalSecs at hnow
  omega

theorem Fresh.owner_elapse (h : Fresh agentId instanceId s) :
    (elapse agentId s.db (s.now + 1000 * heartbeatIntervalSecs)).owner agentId = s.db.owner agentId := by
  rw [Heartbeat.owner_elapse, live, h.notDue (Nat.le_refl _)]
  exact if_neg Bool.false_ne_true

theorem Fresh.ownerOf_elapse (h : Fresh agentId instanceId s) :
    (elapse agentId s.db (s.now + 1000 * heartbeatIntervalSecs)).ownerOf agentId = some instanceId := by
  rw [LeaseDb.ownerOf, h.owner_elapse, h.owner]
  rfl

theorem Fresh.script (h : Fresh agentId instanceId s) :
    ∃ db, heartbeatScript agentId instanceId (elapse agentId s.db (s.now + 1000 * heartbeatIntervalSecs))
        (s.now + 1000 * heartbeatIntervalSecs) = (1, db) ∧
      db.owner agentId = some ⟨instanceId, some (s.now + 1000 * heartbeatIntervalSecs + 1000 * leaseTtlSecs)⟩ := by
  refine ⟨_, if_pos h.ownerOf_elapse, ?_⟩
  rw [owner_setOwner, h.owner_elapse, h.owner]
  rfl

/-- With every command answered a tick is the heartbeat of the cluster. -/
theorem step_heartbeat {tasks : List LeaseTask} {n : Nat} (hget : tasks[n]? = some (.held agentId instanceId true))
    (hbeating : s.beating = true) :
    Cluster.step ⟨elapse agentId s.db (s.now + 1000 * heartbeatIntervalSecs), tasks⟩
        (.heartbeat n (s.now + 1000 * heartbeatIntervalSecs)) =
      some ⟨(step agentId instanceId s ⟨.answered, true⟩).db,
        tasks.set n (.held agentId instanceId (step agentId instanceId s ⟨.answered, true⟩).beating)⟩ := by
  unfold step Cluster.step
  simp only [hget, Option.bind_some, Cluster.heartbeat, hbeating, if_true, reduceCtorEq, if_false, heartbeatScript]
  by_cases howner : (elapse agentId s.db (s.now + 1000 * heartbeatIntervalSecs)).ownerOf agentId = some instanceId
  · simp only [howner, if_true, renewed, Nat.one_ne_zero, if_false]
    obtain ⟨hn, hself⟩ := List.getElem?_eq_some_iff.mp hget
    rw [← hself, List.set_getElem_self]
    rfl
  · simp only [howner, if_false, renewed, if_true]

/-- A tick whose renewal is answered renews. -/
theorem Fresh.step_answered (h : Fresh agentId instanceId s) {tick : Tick} (hanswered : tick.renewal = .answered) :
    Fresh agentId instanceId (step agentId instanceId s tick) ∧
      Sound agentId instanceId s tick (step agentId instanceId s tick) := by
  obtain ⟨db, hscript, howner⟩ := h.script
  have hstep : step agentId instanceId s tick = ⟨if tick.refreshed
      then refresh agentId db (s.now + 1000 * heartbeatIntervalSecs) else db,
      s.now + 1000 * heartbeatIntervalSecs, true⟩ := by
    unfold step
    simp only [h.beating, hscript, hanswered, renewed, if_true, reduceCtorEq, if_false, Nat.one_ne_zero]
  rw [hstep]
  refine ⟨⟨rfl, ?_⟩, ?_, fun _ hstopped => Bool.noConfusion hstopped⟩
  · show LeaseDb.owner (if tick.refreshed then _ else db) agentId = _
    cases tick.refreshed with
    | true => exact howner
    | false => exact howner
  · intro now _ hnow
    refine ⟨?_, h.notDue hnow⟩
    rw [LeaseDb.ownerOf, h.owner]
    rfl

/-- A tick whose renewal is not answered stops the task, although the key is there. -/
theorem Fresh.not_sound_of_failed (h : Fresh agentId instanceId s) {tick : Tick}
    (hfailed : tick.renewal ≠ .answered) : ¬ Sound agentId instanceId s tick (step agentId instanceId s tick) := by
  have hzero : ∀ answer, renewed tick.renewal answer = 0 := by
    intro answer
    cases hrenewal : tick.renewal with
    | answered => exact absurd hrenewal hfailed
    | lost => rfl
    | refused => rfl
  have hnow : (step agentId instanceId s tick).now = s.now + 1000 * heartbeatIntervalSecs := by
    unfold step
    simp only [h.beating, hzero, if_true]
  have hstopped : (step agentId instanceId s tick).beating = false := by
    unfold step
    simp only [h.beating, hzero, if_true]
  intro hsound
  have hgone := hsound.2 h.beating hstopped
  rw [hnow] at hgone
  exact hgone h.ownerOf_elapse

theorem Fresh.everyStep_sound_iff (h : Fresh agentId instanceId s) (start : State) (ticks : List Tick) :
    (system agentId instanceId start).EveryStep (Sound agentId instanceId) s ticks ↔
      ∀ tick ∈ ticks, tick.renewal = .answered := by
  induction ticks generalizing s with
  | nil => exact iff_of_true trivial nofun
  | cons tick ticks ih =>
      have hstep : (system agentId instanceId start).step s tick = some (step agentId instanceId s tick) := rfl
      rw [Transition.System.everyStep_cons_iff hstep, List.forall_mem_cons]
      by_cases hanswered : tick.renewal = .answered
      · obtain ⟨hfresh, hsound⟩ := h.step_answered hanswered
        rw [ih hfresh, and_iff_right hsound, and_iff_right hanswered]
      · exact iff_of_false (fun hevery => h.not_sound_of_failed hanswered hevery.1) fun hall => hanswered hall.1

/-- Over every sequence of ticks after an acquire: the key stays and the task goes on as it should if
and only if no renewal fails. -/
theorem sound_iff_answered (agentId : Uuid) (instanceId : String) (db : LeaseDb) (now : Nat) (ticks : List Tick) :
    (system agentId instanceId (acquired agentId instanceId db now)).EveryStep (Sound agentId instanceId)
        (acquired agentId instanceId db now) ticks ↔
      ∀ tick ∈ ticks, tick.renewal = .answered :=
  (fresh_acquired db now).everyStep_sound_iff _ ticks

/-- Of two ticks in a row one is answered. -/
def Scattered (ticks : List Tick) : Prop :=
  ticks.IsChain fun tick next => tick.renewal = .answered ∨ next.renewal = .answered

/-- One renewal is not run and all others succeed: the task is over, and then the key. -/
theorem one_failure_ends_lease :
    (¬ ∀ agentId instanceId db now ticks, Scattered ticks →
      (system agentId instanceId (acquired agentId instanceId db now)).EveryStep (Sound agentId instanceId)
        (acquired agentId instanceId db now) ticks) ∧
    ((system 7 "a" (acquired 7 "a" .empty 0)).run (acquired 7 "a" .empty 0)
      [⟨.refused, true⟩, ⟨.answered, true⟩, ⟨.answered, true⟩]).any
        (fun s => s.beating = false ∧ s.db.owner 7 = none) = true := by
  refine ⟨?_, by decide +kernel⟩
  intro h
  have hscattered : Scattered [⟨.refused, true⟩, ⟨.answered, true⟩, ⟨.answered, true⟩] :=
    .cons_cons (.inr rfl) (.cons_cons (.inl rfl) (.singleton _))
  have hanswered := ((fresh_acquired .empty 0).everyStep_sound_iff _ _).mp (h 7 "a" .empty 0 _ hscattered)
  have hrefused := hanswered ⟨.refused, true⟩ List.mem_cons_self
  cases hrefused

end Heartbeat

end Overacp
