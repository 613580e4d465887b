import Overacp.Lib.Transition
import Overacp.Server.Redis.Listing

/-!
# Who counts as connected

The owner key of an agent expires and the set of connected agents does not. Both are written by
`acquire_lease` and by `release_lease`, command by command, and any instance may crash between two commands.
This module says which steps keep the two in agreement.
-/

namespace Overacp

/-- A call of `acquire_lease`, a lease that is held, with or without its heartbeat, or a call of `release_lease`. -/
inductive LeaseTask where
  | acquiring (args : AcquireArgs) (pc : AcquirePc)
  | held (agentId : Uuid) (instanceId : String) (beating : Bool)
  | releasing (agentId : Uuid) (instanceId : String) (pc : ReleasePc)
  deriving DecidableEq

namespace LeaseTask

def agentId : LeaseTask → Uuid
  | .acquiring args _ => args.agentId
  | .held agentId _ _ | .releasing agentId _ _ => agentId

def instanceId : LeaseTask → String
  | .acquiring args _ => args.instanceId
  | .held _ instanceId _ | .releasing _ instanceId _ => instanceId

/-- An acquire or a release is in progress. -/
def underWay : LeaseTask → Bool
  | .acquiring _ _ => true
  | .held _ _ _ => false
  | .releasing _ _ pc => pc ≠ .done

/-- What a task has yet to do: set the owner key and list the agent, list the agent, or unlist it. -/
inductive Stage where
  | upcoming
  | adding
  | removing
  | settled
  deriving DecidableEq, Repr

def stage : LeaseTask → Stage
  | .acquiring _ .get | .acquiring _ .publish | .acquiring _ .set => .upcoming
  | .acquiring _ .hset | .acquiring _ .expire | .acquiring _ .sadd => .adding
  | .acquiring _ _ | .held _ _ _ => .settled
  | .releasing _ _ .srem => .removing
  | .releasing _ _ _ => .settled

/-- The next command lists the agent. -/
def isSadd : LeaseTask → Bool
  | .acquiring _ pc => pc = .sadd
  | _ => false

/-- A lease is held once its `acquire_lease` is done. -/
def acquired (args : AcquireArgs) (pc : AcquirePc) : LeaseTask :=
  if pc = .done then .held args.agentId args.instanceId true else .acquiring args pc

end LeaseTask

/-- All instances on one Redis. -/
structure Cluster where
  db : LeaseDb
  tasks : List LeaseTask

namespace Cluster

inductive Event where
  /-- A tunnel is opened on an instance. -/
  | acquire (args : AcquireArgs)
  /-- The next command of an acquire or a release. -/
  | command (task now : Nat)
  /-- A lease is dropped, and its release is spawned. -/
  | drop (task : Nat)
  | heartbeat (task now : Nat)
  | expireOwner (agentId : Uuid) (now : Nat)
  | expireTunnel (agentId : Uuid) (now : Nat)
  | expireClaims (agentId : Uuid) (now : Nat)
  /-- All tasks of an instance are gone. -/
  | crash (instanceId : String)
  deriving DecidableEq

def command (s : Cluster) (n now : Nat) : LeaseTask → Option Cluster
  | .acquiring args pc => (acquireStep args now s.db pc).map fun next =>
      ⟨next.1, s.tasks.set n (.acquired args next.2)⟩
  | .releasing agentId instanceId pc => (releaseStep agentId instanceId now s.db pc).map fun next =>
      ⟨next.1, s.tasks.set n (.releasing agentId instanceId next.2)⟩
  | .held _ _ _ => none

/-- The owner key, the tunnel directory and the claims get a new expiry. -/
def renew (db : LeaseDb) (agentId : Uuid) (now : Nat) : LeaseDb :=
  let owned := db.setOwner agentId (Redis.expire (db.owner agentId) leaseTtlSecs now)
  let directed := owned.setTunnel agentId (Redis.expire (db.tunnel agentId) (leaseTtlSecs * 2) now)
  directed.setClaims agentId (Redis.expire (db.claims agentId) (leaseTtlSecs * 2) now)

/-- A heartbeat that does not find the key or finds another instance's is the last one. -/
def heartbeat (s : Cluster) (n now : Nat) : LeaseTask → Option Cluster
  | .held agentId instanceId true =>
      if s.db.ownerOf agentId = some instanceId then
        some { s with db := renew s.db agentId now }
      else some { s with tasks := s.tasks.set n (.held agentId instanceId false) }
  | _ => none

def step (s : Cluster) : Event → Option Cluster
  | .acquire args => some { s with tasks := s.tasks ++ [.acquiring args .get] }
  | .command n now => s.tasks[n]?.bind fun task => s.command n now task
  | .drop n => s.tasks[n]?.bind fun
      | .held agentId instanceId _ => some { s with tasks := s.tasks.set n (.releasing agentId instanceId .casDel) }
      | _ => none
  | .heartbeat n now => s.tasks[n]?.bind fun task => s.heartbeat n now task
  | .expireOwner agentId now =>
      if Redis.isDue (s.db.owner agentId) now then some { s with db := s.db.setOwner agentId none } else none
  | .expireTunnel agentId now =>
      if Redis.isDue (s.db.tunnel agentId) now then some { s with db := s.db.setTunnel agentId none } else none
  | .expireClaims agentId now =>
      if Redis.isDue (s.db.claims agentId) now then some { s with db := s.db.setClaims agentId none } else none
  | .crash instanceId => some { s with tasks := s.tasks.filter fun task => task.instanceId ≠ instanceId }

def system : Transition.System Cluster Event := ⟨⟨.empty, []⟩, step⟩

/-- No acquire and no release is in progress. -/
def Quiescent (s : Cluster) : Prop := ∀ task ∈ s.tasks, task.underWay = false

instance (s : Cluster) : Decidable s.Quiescent := inferInstanceAs (Decidable (∀ task ∈ s.tasks, task.underWay = false))

/-- The three readers agree on whether the agent is connected. -/
structure Agree (parseUuid : String → Option Uuid) (parseRfc3339 : String → Option Int) (db : LeaseDb)
    (agentId : Uuid) (nowMs : Int) : Prop where
  described : db.isConnected agentId = true ↔
    ∃ d ∈ db.describeAgent parseUuid parseRfc3339 agentId nowMs, d.connected = true
  listed : db.isConnected agentId = true ↔
    ∃ d ∈ db.listAgents parseUuid parseRfc3339 nowMs, d.agentId = agentId ∧ d.connected = true

theorem agree_iff {parseUuid : String → Option Uuid} {parseRfc3339 : String → Option Int} {db : LeaseDb}
    {agentId : Uuid} {nowMs : Int} :
    Agree parseUuid parseRfc3339 db agentId nowMs ↔ (db.isConnected agentId = true ↔ agentId ∈ db.connected) := by
  constructor
  · intro h
    exact h.described.trans (LeaseDb.describeAgent_connected_iff agentId nowMs)
  · intro h
    exact ⟨h.trans (LeaseDb.describeAgent_connected_iff agentId nowMs).symm,
      h.trans (LeaseDb.listAgents_connected_iff agentId nowMs).symm⟩

/-! ### Where the tasks under way will lead -/

/-- Some task of the agent is at the stage. -/
def At (tasks : List LeaseTask) (agentId : Uuid) (stage : LeaseTask.Stage) : Prop :=
  ∃ task ∈ tasks, task.agentId = agentId ∧ task.stage = stage

/-- Some other task than the `n`-th. -/
def AtOther (tasks : List LeaseTask) (n : Nat) (agentId : Uuid) (stage : LeaseTask.Stage) : Prop :=
  ∃ m task, m ≠ n ∧ tasks[m]? = some task ∧ task.agentId = agentId ∧ task.stage = stage

/-- What owner key and set have to be, given what is still to be done to them. An acquire that has yet to set
the key makes up for everything. Without one, the key has to be there if the agent is going to be listed, and
to be gone if it is going to be unlisted; if both are still to come, nothing is decided. -/
def Settles (upcoming adding removing owned listed : Prop) : Prop :=
  ¬ upcoming → (¬ adding → ¬ removing → (owned ↔ listed)) ∧ (adding → ¬ removing → owned) ∧
    (¬ adding → removing → ¬ owned)

def Settling (db : LeaseDb) (tasks : List LeaseTask) (agentId : Uuid) : Prop :=
  Settles (At tasks agentId .upcoming) (At tasks agentId .adding) (At tasks agentId .removing)
    (db.isConnected agentId = true) (agentId ∈ db.connected)

/-- An owner key expires only while an acquire has yet to set it, or while the agent is both to be listed and to
be unlisted. An agent is not listed for good by an acquire while a release is yet to unlist it, unless its key is
gone, and is not unlisted for good while an acquire is yet to list it, unless its key is there. A crash leaves
such tasks behind as key and set need. -/
def Allowed (s : Cluster) : Event → Prop
  | .expireOwner agentId _ => At s.tasks agentId .upcoming ∨ At s.tasks agentId .adding ∧ At s.tasks agentId .removing
  | .command n _ => ∀ task, s.tasks[n]? = some task → ¬ AtOther s.tasks n task.agentId .upcoming →
      (task.isSadd = true → ¬ AtOther s.tasks n task.agentId .adding → AtOther s.tasks n task.agentId .removing →
        s.db.isConnected task.agentId ≠ true) ∧
      (task.stage = .removing → AtOther s.tasks n task.agentId .adding →
        ¬ AtOther s.tasks n task.agentId .removing → s.db.isConnected task.agentId = true)
  | .crash instanceId => ∀ agentId, Settling s.db (s.tasks.filter fun task => task.instanceId ≠ instanceId) agentId
  | _ => True

section Settles

variable {upcoming adding removing owned listed : Prop}

theorem settles_set : Settles upcoming True removing True listed :=
  fun _ => ⟨fun h => absurd trivial h, fun _ _ => trivial, fun h => absurd trivial h⟩

theorem settles_sadd (h : Settles upcoming True removing owned listed) :
    Settles upcoming adding removing owned True ↔ (¬ upcoming → ¬ adding → removing → ¬ owned) := by
  constructor
  · intro hsettles hset hadd
    exact (hsettles hset).2.2 hadd
  · intro hgone hset
    have howned : ¬ removing → owned := (h hset).2.1 trivial
    exact ⟨fun _ hstays => iff_of_true (howned hstays) trivial, fun _ hstays => howned hstays, hgone hset⟩

theorem settles_casDel : Settles upcoming adding True False listed :=
  fun _ => ⟨fun _ h => absurd trivial h, fun _ h => absurd trivial h, fun _ _ => id⟩

theorem settles_srem (h : Settles upcoming adding True owned listed) :
    Settles upcoming adding removing owned False ↔ (¬ upcoming → adding → ¬ removing → owned) := by
  constructor
  · intro hsettles hset
    exact (hsettles hset).2.1
  · intro hkept hset
    have hgone : ¬ adding → ¬ owned := fun hstays => (h hset).2.2 hstays trivial
    exact ⟨fun hstays _ => iff_of_false (hgone hstays) id, hkept hset, fun hstays _ => hgone hstays⟩

theorem settles_expire (h : Settles upcoming adding removing True listed) :
    Settles upcoming adding removing False listed ↔ upcoming ∨ adding ∧ removing := by
  constructor
  · intro hsettles
    by_cases hset : upcoming
    · exact .inl hset
    · obtain ⟨hagree, hadding, -⟩ := hsettles hset
      obtain ⟨hagreed, -, hremoved⟩ := h hset
      by_cases hadd : adding
      · exact .inr ⟨hadd, not_not.mp fun hremove => hadding hadd hremove⟩
      · by_cases hremove : removing
        · exact absurd trivial (hremoved hadd hremove)
        · exact ((hagree hadd hremove).mpr ((hagreed hadd hremove).mp trivial)).elim
  · rintro (hset | ⟨hadd, hremove⟩) hnot
    · exact absurd hset hnot
    · exact ⟨fun h => absurd hadd h, fun _ h => absurd hremove h, fun h => absurd hadd h⟩

end Settles

/-! ### Tasks of an agent -/

variable {tasks : List LeaseTask} {task task' : LeaseTask} {n : Nat} {agentId : Uuid} {db db' : LeaseDb}

theorem at_iff {stage : LeaseTask.Stage} (hget : tasks[n]? = some task) :
    At tasks agentId stage ↔ (task.agentId = agentId ∧ task.stage = stage) ∨ AtOther tasks n agentId stage := by
  constructor
  · rintro ⟨other, hother, hat⟩
    obtain ⟨m, hm⟩ := List.getElem?_of_mem hother
    by_cases hmn : m = n
    · subst hmn
      rw [hget] at hm
      cases hm
      exact .inl hat
    · exact .inr ⟨m, other, hmn, hm, hat⟩
  · intro h
    rcases h with hat | ⟨m, other, -, hm, hat⟩
    · exact ⟨task, List.mem_of_getElem? hget, hat⟩
    · exact ⟨other, List.mem_of_getElem? hm, hat⟩

theorem atOther_set {stage : LeaseTask.Stage} :
    AtOther (tasks.set n task') n agentId stage ↔ AtOther tasks n agentId stage := by
  constructor
  · rintro ⟨m, other, hmn, hm, hat⟩
    exact ⟨m, other, hmn, (List.getElem?_set_ne (Ne.symm hmn)).symm.trans hm, hat⟩
  · rintro ⟨m, other, hmn, hm, hat⟩
    exact ⟨m, other, hmn, (List.getElem?_set_ne (Ne.symm hmn)).trans hm, hat⟩

theorem at_set_iff {stage : LeaseTask.Stage} (hget : tasks[n]? = some task) :
    At (tasks.set n task') agentId stage ↔
      (task'.agentId = agentId ∧ task'.stage = stage) ∨ AtOther tasks n agentId stage := by
  have hself : (tasks.set n task')[n]? = some task' :=
    List.getElem?_set_self (List.getElem?_eq_some_iff.mp hget).1
  rw [at_iff hself, atOther_set]

theorem settling_iff (hget : tasks[n]? = some task) :
    Settling db tasks task.agentId ↔
      Settles (task.stage = .upcoming ∨ AtOther tasks n task.agentId .upcoming)
        (task.stage = .adding ∨ AtOther tasks n task.agentId .adding)
        (task.stage = .removing ∨ AtOther tasks n task.agentId .removing)
        (db.isConnected task.agentId = true) (task.agentId ∈ db.connected) := by
  simp only [Settling, at_iff hget, true_and]

theorem settling_set_iff (hget : tasks[n]? = some task) (hagent : task'.agentId = task.agentId) :
    Settling db (tasks.set n task') task.agentId ↔
      Settles (task'.stage = .upcoming ∨ AtOther tasks n task.agentId .upcoming)
        (task'.stage = .adding ∨ AtOther tasks n task.agentId .adding)
        (task'.stage = .removing ∨ AtOther tasks n task.agentId .removing)
        (db.isConnected task.agentId = true) (task.agentId ∈ db.connected) := by
  simp only [Settling, at_set_iff hget, hagent, true_and]

/-- A task of one agent matters to no other. -/
theorem settling_set_ne (hget : tasks[n]? = some task) (hagent : task'.agentId = task.agentId)
    (hne : agentId ≠ task.agentId) (howner : db'.isConnected agentId = db.isConnected agentId)
    (hlisted : agentId ∈ db'.connected ↔ agentId ∈ db.connected) :
    Settling db' (tasks.set n task') agentId ↔ Settling db tasks agentId := by
  simp only [Settling, at_set_iff hget, at_iff hget, hagent, howner, hlisted, Ne.symm hne, false_and, false_or]

/-! ### What a command does -/

/-- What a command does to the owner key and to the set, and which stage it takes its task to. -/
inductive Effect (db : LeaseDb) (task : LeaseTask) (db' : LeaseDb) (task' : LeaseTask) : Prop where
  | quiet (hstage : task'.stage = task.stage) (howner : db'.isConnected task.agentId = db.isConnected task.agentId)
      (hlisted : task.agentId ∈ db'.connected ↔ task.agentId ∈ db.connected) (hsadd : task.isSadd = false)
      (hsrem : task.stage ≠ .removing)
  | set (hstage : task.stage = .upcoming) (hstage' : task'.stage = .adding)
      (howner : db'.isConnected task.agentId = true) (hsadd : task.isSadd = false)
  | sadd (hstage : task.stage = .adding) (hstage' : task'.stage = .settled) (hsadd : task.isSadd = true)
      (howner : db'.isConnected task.agentId = db.isConnected task.agentId) (hlisted : task.agentId ∈ db'.connected)
  | casDel (hstage : task.stage = .settled) (hstage' : task'.stage = .removing)
      (howner : db'.isConnected task.agentId = false) (hsadd : task.isSadd = false)
  | srem (hstage : task.stage = .removing) (hstage' : task'.stage = .settled) (hsadd : task.isSadd = false)
      (howner : db'.isConnected task.agentId = db.isConnected task.agentId) (hlisted : task.agentId ∉ db'.connected)

/-- A command of a task works on the keys of its agent. -/
structure Commanded (db : LeaseDb) (task : LeaseTask) (db' : LeaseDb) (task' : LeaseTask) : Prop where
  agentId : task'.agentId = task.agentId
  owner : ∀ other, other ≠ task.agentId → db'.isConnected other = db.isConnected other
  connected : ∀ other, other ≠ task.agentId → (other ∈ db'.connected ↔ other ∈ db.connected)
  effect : Effect db task db' task'

theorem isConnected_setOwner_self (db : LeaseDb) (agentId : Uuid) (key : Redis.Key String) :
    (db.setOwner agentId key).isConnected agentId = key.isSome :=
  congrArg Option.isSome (Function.update_self ..)

theorem isConnected_setOwner_ne (db : LeaseDb) {agentId other : Uuid} (hne : other ≠ agentId)
    (key : Redis.Key String) : (db.setOwner agentId key).isConnected other = db.isConnected other :=
  congrArg Option.isSome (Function.update_of_ne hne ..)

theorem commanded_acquire {args : AcquireArgs} {pc pc' : AcquirePc} {now : Nat}
    (h : acquireStep args now db pc = some (db', pc')) :
    Commanded db (.acquiring args pc) db' (.acquired args pc') := by
  cases pc with
  | get =>
      simp only [acquireStep] at h
      cases howner : db.ownerOf args.agentId with
      | none =>
          rw [howner] at h
          cases h
          exact ⟨rfl, fun _ _ => rfl, fun _ _ => Iff.rfl, .quiet rfl rfl Iff.rfl rfl fun hstage => (by cases hstage)⟩
      | some prev =>
          rw [howner] at h
          dsimp only at h
          by_cases hprev : prev ≠ args.instanceId
          · rw [if_pos hprev] at h
            cases h
            exact ⟨rfl, fun _ _ => rfl, fun _ _ => Iff.rfl, .quiet rfl rfl Iff.rfl rfl fun hstage => (by cases hstage)⟩
          · rw [if_neg hprev] at h
            cases h
            exact ⟨rfl, fun _ _ => rfl, fun _ _ => Iff.rfl, .quiet rfl rfl Iff.rfl rfl fun hstage => (by cases hstage)⟩
  | set =>
      cases h
      exact ⟨rfl, fun other hother => isConnected_setOwner_ne db hother _, fun _ _ => Iff.rfl,
        .set rfl rfl (isConnected_setOwner_self ..) rfl⟩
  | sadd =>
      cases h
      refine ⟨rfl, fun _ _ => rfl, fun other hother => ?_, .sadd rfl rfl rfl rfl (Finset.mem_insert_self ..)⟩
      rw [Finset.mem_insert]
      exact or_iff_right hother
  | publish | hset | expire | zrem | setClaims =>
      cases h
      exact ⟨rfl, fun _ _ => rfl, fun _ _ => Iff.rfl, .quiet rfl rfl Iff.rfl rfl fun hstage => (by cases hstage)⟩
  | done => cases h

theorem commanded_release {instanceId : String} {pc pc' : ReleasePc} {now : Nat}
    (h : releaseStep agentId instanceId now db pc = some (db', pc')) :
    Commanded db (.releasing agentId instanceId pc) db' (.releasing agentId instanceId pc') := by
  cases pc with
  | casDel =>
      simp only [releaseStep] at h
      by_cases howner : db.ownerOf agentId = some instanceId
      · rw [if_pos howner] at h
        cases h
        exact ⟨rfl, fun other hother => isConnected_setOwner_ne db hother _, fun _ _ => Iff.rfl,
          .casDel rfl rfl (isConnected_setOwner_self ..) rfl⟩
      · rw [if_neg howner] at h
        cases h
        exact ⟨rfl, fun _ _ => rfl, fun _ _ => Iff.rfl, .quiet rfl rfl Iff.rfl rfl fun hstage => (by cases hstage)⟩
  | srem =>
      cases h
      refine ⟨rfl, fun _ _ => rfl, fun other hother => ?_, .srem rfl rfl rfl rfl (Finset.notMem_erase agentId _)⟩
      rw [Finset.mem_erase]
      exact and_iff_right hother
  | zadd | zremrangebyrank | del =>
      cases h
      exact ⟨rfl, fun _ _ => rfl, fun _ _ => Iff.rfl, .quiet rfl rfl Iff.rfl rfl fun hstage => (by cases hstage)⟩
  | done => cases h

theorem commanded_of_command {s s' : Cluster} {now : Nat} (h : s.command n now task = some s') :
    ∃ task', s'.tasks = s.tasks.set n task' ∧ Commanded s.db task s'.db task' := by
  cases task with
  | acquiring args pc =>
      obtain ⟨⟨db, pc'⟩, hstep, rfl⟩ := Option.map_eq_some_iff.mp h
      exact ⟨_, rfl, commanded_acquire hstep⟩
  | releasing agentId instanceId pc =>
      obtain ⟨⟨db, pc'⟩, hstep, rfl⟩ := Option.map_eq_some_iff.mp h
      exact ⟨_, rfl, commanded_release hstep⟩
  | held => cases h

/-- A command keeps its agent settling if and only if it crosses no command of another task. -/
theorem settling_commanded (hget : tasks[n]? = some task) (hcommand : Commanded db task db' task')
    (h : Settling db tasks task.agentId) :
    Settling db' (tasks.set n task') task.agentId ↔
      (¬ AtOther tasks n task.agentId .upcoming →
        (task.isSadd = true → ¬ AtOther tasks n task.agentId .adding → AtOther tasks n task.agentId .removing →
          db.isConnected task.agentId ≠ true) ∧
        (task.stage = .removing → AtOther tasks n task.agentId .adding →
          ¬ AtOther tasks n task.agentId .removing → db.isConnected task.agentId = true)) := by
  rw [settling_iff hget] at h
  rw [settling_set_iff hget hcommand.agentId]
  cases hcommand.effect with
  | quiet hstage howner hlisted hsadd hsrem =>
      rw [hstage, howner, hlisted]
      exact iff_of_true h fun _ => ⟨fun hadd => (by rw [hsadd] at hadd; cases hadd), fun hrem => absurd hrem hsrem⟩
  | set hstage hstage' howner hsadd =>
      simp only [hstage, hstage', hsadd, howner, reduceCtorEq, true_or, false_or, false_implies, and_true,
        implies_true, iff_true]
      exact settles_set
  | sadd hstage hstage' hsadd howner hlisted =>
      simp only [hstage, reduceCtorEq, true_or, false_or] at h
      simp only [hstage, hstage', hsadd, howner, hlisted, reduceCtorEq, false_or, true_implies, false_implies, and_true]
      exact settles_sadd h
  | casDel hstage hstage' howner hsadd =>
      simp only [hstage, hstage', hsadd, howner, reduceCtorEq, true_or, false_or, false_implies, and_true,
        implies_true, iff_true]
      exact settles_casDel
  | srem hstage hstage' hsadd howner hlisted =>
      simp only [hstage, reduceCtorEq, true_or, false_or] at h
      simp only [hstage, hstage', hsadd, howner, hlisted, reduceCtorEq, false_or, true_implies, false_implies, true_and]
      exact settles_srem h

/-! ### Runs -/

variable {s s' : Cluster} {e : Event}

/-- The same tasks, the same owner keys and the same set. -/
theorem settling_congr (hstages : ∀ stage, At tasks agentId stage ↔ At s.tasks agentId stage)
    (howner : db.isConnected agentId = s.db.isConnected agentId)
    (hlisted : agentId ∈ db.connected ↔ agentId ∈ s.db.connected) :
    Settling db tasks agentId ↔ Settling s.db s.tasks agentId := by
  simp only [Settling, hstages, howner, hlisted]

theorem at_append_singleton {stage : LeaseTask.Stage} :
    At (tasks ++ [task]) agentId stage ↔ At tasks agentId stage ∨ task.agentId = agentId ∧ task.stage = stage := by
  simp only [At, List.mem_append, List.mem_singleton, or_and_right, exists_or, exists_eq_left]

/-- An acquire that begins makes up for whatever its agent's key and set are. -/
theorem settling_acquire (args : AcquireArgs) (h : Settling db tasks agentId) :
    Settling db (tasks ++ [.acquiring args .get]) agentId := by
  by_cases hagent : args.agentId = agentId
  · intro hnone
    exact absurd (at_append_singleton.mpr (Or.inr (And.intro (show LeaseTask.agentId (.acquiring args .get) = agentId
      from hagent) rfl))) hnone
  · simp only [Settling, at_append_singleton, LeaseTask.agentId, hagent, false_and, or_false]
    exact h

/-- A task that changes within its stage, and its keys do not. -/
theorem settling_set_same (hget : tasks[n]? = some task) (hagent : task'.agentId = task.agentId)
    (hstage : task'.stage = task.stage) : Settling db (tasks.set n task') agentId ↔ Settling db tasks agentId := by
  simp only [Settling, at_set_iff hget, at_iff hget, hagent, hstage]

theorem isConnected_renew (db : LeaseDb) (agentId other : Uuid) (now : Nat) :
    (renew db agentId now).isConnected other = db.isConnected other := by
  show (db.setOwner agentId (Redis.expire (db.owner agentId) leaseTtlSecs now)).isConnected other = _
  by_cases hother : other = agentId
  · rw [hother, isConnected_setOwner_self]
    exact Option.isSome_map ..
  · exact isConnected_setOwner_ne db hother _

theorem settling_heartbeat {now : Nat} (hget : s.tasks[n]? = some task) (hstep : s.heartbeat n now task = some s')
    (agentId : Uuid) : Settling s'.db s'.tasks agentId ↔ Settling s.db s.tasks agentId := by
  unfold heartbeat at hstep
  split at hstep
  · split at hstep
    · cases hstep
      exact settling_congr (fun _ => Iff.rfl) (isConnected_renew ..) Iff.rfl
    · cases hstep
      exact settling_set_same hget rfl rfl
  · cases hstep

theorem settling_expireOwner {now : Nat} (hdue : Redis.isDue (s.db.owner agentId) now = true)
    (h : Settling s.db s.tasks agentId) :
    Settling (s.db.setOwner agentId none) s.tasks agentId ↔
      At s.tasks agentId .upcoming ∨ At s.tasks agentId .adding ∧ At s.tasks agentId .removing := by
  have howned : s.db.isConnected agentId = true := by
    rw [LeaseDb.isConnected]
    cases hkey : s.db.owner agentId with
    | none =>
        rw [hkey] at hdue
        cases hdue
    | some stored => rfl
  simp only [Settling, howned] at h
  simp only [Settling, isConnected_setOwner_self, Option.isSome_none, Bool.false_eq_true]
  exact settles_expire h

/-- What the tasks under way will lead to stays right exactly under the steps that are allowed. -/
theorem settling_step (hstep : s.step e = some s') (h : ∀ agentId, Settling s.db s.tasks agentId) :
    (∀ agentId, Settling s'.db s'.tasks agentId) ↔ s.Allowed e := by
  cases e with
  | acquire args =>
      cases hstep
      exact iff_of_true (fun agentId => settling_acquire args (h agentId)) trivial
  | command n now =>
      obtain ⟨task, hget, hcommand⟩ := Option.bind_eq_some_iff.mp hstep
      obtain ⟨task', htasks, heffect⟩ := commanded_of_command hcommand
      rw [htasks]
      have hiff := settling_commanded hget heffect (h task.agentId)
      constructor
      · intro hall other hother
        rw [hget] at hother
        cases hother
        exact hiff.mp (hall task.agentId)
      · intro hallowed agentId
        by_cases hagent : agentId = task.agentId
        · rw [hagent]
          exact hiff.mpr (hallowed task hget)
        · exact (settling_set_ne hget heffect.agentId hagent (heffect.owner agentId hagent)
            (heffect.connected agentId hagent)).mpr (h agentId)
  | drop n =>
      obtain ⟨task, hget, hdrop⟩ := Option.bind_eq_some_iff.mp hstep
      refine iff_of_true (fun agentId => ?_) trivial
      split at hdrop
      · rename_i owner instanceId beating
        cases hdrop
        exact (@settling_set_same s.tasks _ (.releasing owner instanceId .casDel) n agentId s.db hget rfl rfl).mpr
          (h agentId)
      · cases hdrop
  | heartbeat n now =>
      obtain ⟨task, hget, hbeat⟩ := Option.bind_eq_some_iff.mp hstep
      exact iff_of_true (fun agentId => (settling_heartbeat hget hbeat agentId).mpr (h agentId)) trivial
  | expireOwner agentId now =>
      simp only [step] at hstep
      split at hstep
      · rename_i hdue
        cases hstep
        have hiff := settling_expireOwner hdue (h agentId)
        refine ⟨fun hall => hiff.mp (hall agentId), fun hallowed other => ?_⟩
        by_cases hother : other = agentId
        · rw [hother]
          exact hiff.mpr hallowed
        · exact (settling_congr (fun _ => Iff.rfl) (isConnected_setOwner_ne s.db hother _) Iff.rfl).mpr (h other)
      · cases hstep
  | expireTunnel agentId now =>
      simp only [step] at hstep
      split at hstep
      · cases hstep
        exact iff_of_true h trivial
      · cases hstep
  | expireClaims agentId now =>
      simp only [step] at hstep
      split at hstep
      · cases hstep
        exact iff_of_true h trivial
      · cases hstep
  | crash instanceId =>
      cases hstep
      exact Iff.rfl

theorem settling_init (agentId : Uuid) : Settling system.init.db system.init.tasks agentId := by
  have hnone (stage : LeaseTask.Stage) : ¬ At [] agentId stage := by
    rintro ⟨task, htask, -⟩
    cases htask
  intro _
  exact ⟨fun _ _ => iff_of_false Bool.false_ne_true (Finset.notMem_empty agentId), fun h => absurd h (hnone _),
    fun _ h => absurd h (hnone _)⟩

/-- In a state without acquires and releases in progress nothing is left to be done to key and set. -/
theorem not_at_of_quiescent (h : s.Quiescent) {stage : LeaseTask.Stage} (hstage : stage ≠ .settled) :
    ¬ At s.tasks agentId stage := by
  rintro ⟨task, htask, -, rfl⟩
  have hidle := h task htask
  cases task with
  | acquiring args pc => cases hidle
  | held => exact hstage rfl
  | releasing agentId instanceId pc =>
      cases pc with
      | done => exact hstage rfl
      | _ => cases hidle

theorem agree_iff_settling (hquiet : s.Quiescent) {parseUuid : String → Option Uuid}
    {parseRfc3339 : String → Option Int} {nowMs : Int} :
    Agree parseUuid parseRfc3339 s.db agentId nowMs ↔ Settling s.db s.tasks agentId := by
  have hnone {stage : LeaseTask.Stage} (hstage : stage ≠ .settled) := @not_at_of_quiescent agentId s hquiet stage hstage
  rw [agree_iff]
  constructor
  · intro hagree _
    exact ⟨fun _ _ => hagree, fun hadding => absurd hadding (hnone (by decide)),
      fun _ hremoving => absurd hremoving (hnone (by decide))⟩
  · intro hsettling
    exact (hsettling (hnone (by decide))).1 (hnone (by decide)) (hnone (by decide))

theorem settling_run {es : List Event} (hallowed : system.EveryStep (fun s e _ => s.Allowed e) system.init es)
    (hrun : system.run system.init es = some s) (agentId : Uuid) : Settling s.db s.tasks agentId :=
  system.run_invariant_of_everyStep (I := fun s => ∀ agentId, Settling s.db s.tasks agentId)
    (fun _ _ _ hstep hallowed h => (settling_step hstep h).mpr hallowed) hrun hallowed settling_init agentId

/-- A step that ends with nothing in progress breaks the agreement exactly if it is not allowed. -/
theorem readers_agree_step {es : List Event}
    (hallowed : system.EveryStep (fun s e _ => s.Allowed e) system.init es)
    (hrun : system.run system.init es = some s) (hstep : s.step e = some s') (hquiet : s'.Quiescent)
    (parseUuid : String → Option Uuid) (parseRfc3339 : String → Option Int) (nowMs : Int) :
    (∀ agentId, Agree parseUuid parseRfc3339 s'.db agentId nowMs) ↔ s.Allowed e := by
  rw [← settling_step hstep (settling_run hallowed hrun)]
  exact forall_congr' fun agentId => agree_iff_settling hquiet

/-- In a run whose steps are all allowed, the three readers agree on every agent in every state in which no
acquire and no release is in progress. -/
theorem readers_agree (parseUuid : String → Option Uuid) (parseRfc3339 : String → Option Int) {es : List Event}
    (hallowed : system.EveryStep (fun s e _ => s.Allowed e) system.init es) {s : Cluster}
    (hrun : system.run system.init es = some s) (hquiet : s.Quiescent) (agentId : Uuid) (nowMs : Int) :
    Agree parseUuid parseRfc3339 s.db agentId nowMs :=
  (agree_iff_settling hquiet).mpr (settling_run hallowed hrun agentId)

/-- A single task crosses nothing. -/
theorem everyStep_allowed_single {es : List Event} (hes : ∀ e ∈ es, ∃ now, e = .command 0 now)
    (htasks : s.tasks.length = 1) : system.EveryStep (fun s e _ => s.Allowed e) s es := by
  induction es generalizing s with
  | nil => trivial
  | cons e es ih =>
      obtain ⟨now, rfl⟩ := hes e List.mem_cons_self
      intro s' hstep
      have hnone {agentId : Uuid} {stage : LeaseTask.Stage} : ¬ AtOther s.tasks 0 agentId stage := by
        rintro ⟨m, task, hm, hget, -⟩
        have hlt := (List.getElem?_eq_some_iff.mp hget).1
        omega
      refine ⟨fun task _ _ => ⟨fun _ _ hremoving => absurd hremoving hnone, fun _ hadding => absurd hadding hnone⟩,
        ih (fun e he => hes e (List.mem_cons_of_mem _ he)) ?_⟩
      obtain ⟨task, hget, hcommand⟩ := Option.bind_eq_some_iff.mp hstep
      obtain ⟨task', hset, -⟩ := commanded_of_command hcommand
      rw [hset, List.length_set]
      exact htasks

/-- An agent connects to an instance. -/
private def connectToA : List Event := .acquire ⟨7, "a", ""⟩ :: List.replicate 7 (.command 0 0)

theorem readers_agree_connected :
    ∃ s, system.run system.init connectToA = some s ∧ s.db.isConnected 7 = true ∧
      Agree (fun _ => none) (fun _ => none) s.db 7 1000 := by
  have hallowed : system.EveryStep (fun s e _ => s.Allowed e) system.init connectToA := by
    refine Transition.System.everyStep_of_step rfl trivial (everyStep_allowed_single ?_ rfl)
    intro e he
    exact ⟨0, List.eq_of_mem_replicate he⟩
  exact ⟨_, rfl, by decide, readers_agree _ _ hallowed rfl (by decide) 7 1000⟩

/-- The instance crashes, and the owner key expires half a minute later: the agent is not connected, and it is
described and listed as connected. -/
theorem crashed_owner_stays_listed :
    ¬ ∀ (es : List Event) (s : Cluster), system.run system.init es = some s → s.Quiescent →
      ∀ (parseUuid : String → Option Uuid) (parseRfc3339 : String → Option Int) (agentId : Uuid) (nowMs : Int),
        Agree parseUuid parseRfc3339 s.db agentId nowMs := by
  intro h
  have hagree := h (connectToA ++ [.crash "a", .expireOwner 7 30000]) _ rfl (by decide) (fun _ => none)
    (fun _ => none) 7 30000
  have hlisted := (agree_iff.mp hagree).mpr (by decide)
  exact absurd hlisted (by decide)

end Cluster

end Overacp
