import Mathlib.Data.BitVec
import Mathlib.Data.Finset.Basic
import Overacp.Lib.Redis
import Overacp.Server.Registry.Agent

/-!
# Ownership leases

`acquire_lease` and `release_lease` against one Redis, command by command. Each command is one step on
the keys; between two of them other clients may run theirs.
-/

namespace Overacp

/-! ### Keys -/

/-- The hash of the tunnel directory; `connected_at` is kept as the time it is the text of. -/
structure TunnelDirectory where
  instanceId : String
  connectedAt : Nat
  deriving DecidableEq, Repr

/-- The keys of the leases, and what was published on the control channels. -/
structure LeaseDb where
  owner : Uuid → Redis.Key String
  tunnel : Uuid → Redis.Key TunnelDirectory
  connected : Finset Uuid
  recent : Redis.ZSet Uuid
  claims : Uuid → Redis.Key String
  control : List (Uuid × String)

namespace LeaseDb

def empty : LeaseDb := ⟨fun _ => none, fun _ => none, ∅, ∅, fun _ => none, []⟩

def setOwner (db : LeaseDb) (agentId : Uuid) (key : Redis.Key String) : LeaseDb :=
  { db with owner := Function.update db.owner agentId key }

def setTunnel (db : LeaseDb) (agentId : Uuid) (key : Redis.Key TunnelDirectory) : LeaseDb :=
  { db with tunnel := Function.update db.tunnel agentId key }

def setClaims (db : LeaseDb) (agentId : Uuid) (key : Redis.Key String) : LeaseDb :=
  { db with claims := Function.update db.claims agentId key }

/-- The value of the owner key. -/
def ownerOf (db : LeaseDb) (agentId : Uuid) : Option String := Redis.get (db.owner agentId)

/-- The instance the tunnel directory names. -/
def tunnelOf (db : LeaseDb) (agentId : Uuid) : Option String :=
  (Redis.get (db.tunnel agentId)).map TunnelDirectory.instanceId

@[simp] theorem ownerOf_setOwner (db : LeaseDb) (agentId : Uuid) (key : Redis.Key String) :
    (db.setOwner agentId key).ownerOf agentId = Redis.get key := by
  simp [ownerOf, setOwner]

@[simp] theorem tunnelOf_setOwner (db : LeaseDb) (agentId : Uuid) (key : Redis.Key String) :
    (db.setOwner agentId key).tunnelOf agentId = db.tunnelOf agentId := rfl

@[simp] theorem ownerOf_setTunnel (db : LeaseDb) (agentId : Uuid) (key : Redis.Key TunnelDirectory) :
    (db.setTunnel agentId key).ownerOf agentId = db.ownerOf agentId := rfl

@[simp] theorem tunnelOf_setTunnel (db : LeaseDb) (agentId : Uuid) (key : Redis.Key TunnelDirectory) :
    (db.setTunnel agentId key).tunnelOf agentId = (Redis.get key).map TunnelDirectory.instanceId := by
  simp [tunnelOf, setTunnel]

end LeaseDb

/-! ### Acquire -/

def leaseTtlSecs : Nat := 30

/-- The arguments of `acquire_lease`. -/
structure AcquireArgs where
  agentId : Uuid
  instanceId : String
  claimsJson : String
  deriving DecidableEq, Repr

/-- The command `acquire_lease` issues next. -/
inductive AcquirePc where
  | get
  | publish
  | set
  | hset
  | expire
  | sadd
  | zrem
  | setClaims
  | done
  deriving DecidableEq, Repr

/-- One command at the time `now`; none are left once it is done. -/
def acquireStep (args : AcquireArgs) (now : Nat) (db : LeaseDb) : AcquirePc → Option (LeaseDb × AcquirePc)
  | .get =>
      match db.ownerOf args.agentId with
      | some prev => some (db, if prev ≠ args.instanceId then .publish else .set)
      | none => some (db, .set)
  | .publish => some ({ db with control := db.control ++ [(args.agentId, "takeover")] }, .set)
  | .set => some (db.setOwner args.agentId (Redis.setEx args.instanceId leaseTtlSecs now), .hset)
  | .hset =>
      some (db.setTunnel args.agentId (Redis.put (db.tunnel args.agentId) ⟨args.instanceId, now⟩), .expire)
  | .expire =>
      some (db.setTunnel args.agentId (Redis.expire (db.tunnel args.agentId) (leaseTtlSecs * 2) now), .sadd)
  | .sadd => some ({ db with connected := insert args.agentId db.connected }, .zrem)
  | .zrem => some ({ db with recent := db.recent.zrem args.agentId }, .setClaims)
  | .setClaims => some (db.setClaims args.agentId (Redis.setEx args.claimsJson (leaseTtlSecs * 2) now), .done)
  | .done => none

/-- As many commands as there are left, with nobody else's between them. -/
def acquireSteps (args : AcquireArgs) (now : Nat) : Nat → LeaseDb × AcquirePc → LeaseDb
  | 0, s => s.1
  | fuel + 1, s =>
      match acquireStep args now s.1 s.2 with
      | some s' => acquireSteps args now fuel s'
      | none => s.1

/-- The whole of `acquire_lease`: eight commands at most. -/
def acquireLease (args : AcquireArgs) (now : Nat) (db : LeaseDb) : LeaseDb :=
  acquireSteps args now 8 (db, .get)

/-- Six commands from the `SET` to the end. -/
theorem ownerOf_acquireSteps_set (args : AcquireArgs) (now fuel : Nat) (db : LeaseDb) :
    (acquireSteps args now (fuel + 6) (db, .set)).ownerOf args.agentId = some args.instanceId := by
  cases fuel with
  | zero => exact LeaseDb.ownerOf_setOwner db args.agentId _
  | succ fuel => exact LeaseDb.ownerOf_setOwner db args.agentId _

theorem ownerOf_acquireLease (args : AcquireArgs) (now : Nat) (db : LeaseDb) :
    (acquireLease args now db).ownerOf args.agentId = some args.instanceId := by
  show (match acquireStep args now db .get with
    | some s => acquireSteps args now 7 s
    | none => db).ownerOf args.agentId = some args.instanceId
  simp only [acquireStep]
  cases db.ownerOf args.agentId with
  | none => exact ownerOf_acquireSteps_set args now 1 db
  | some prev =>
      by_cases hprev : prev ≠ args.instanceId
      · simp only [if_pos hprev]
        exact ownerOf_acquireSteps_set args now 0 _
      · simp only [if_neg hprev]
        exact ownerOf_acquireSteps_set args now 1 db

/-! ### Release -/

/-- The command `release_lease` issues next. -/
inductive ReleasePc where
  | casDel
  | srem
  | zadd
  | zremrangebyrank
  | del
  | done
  deriving DecidableEq, Repr

/-- One command at the time `now`. Only a successful compare-and-delete is followed by the others. -/
def releaseStep (agentId : Uuid) (instanceId : String) (now : Nat) (db : LeaseDb) :
    ReleasePc → Option (LeaseDb × ReleasePc)
  | .casDel =>
      if db.ownerOf agentId = some instanceId then some (db.setOwner agentId none, .srem)
      else some (db, .done)
  | .srem => some ({ db with connected := db.connected.erase agentId }, .zadd)
  | .zadd => some ({ db with recent := db.recent.zadd now agentId }, .zremrangebyrank)
  | .zremrangebyrank =>
      some ({ db with recent := db.recent.zremrangebyrank 0 (-(recentCapacity + 1)) }, .del)
  | .del => some (db.setTunnel agentId none, .done)
  | .done => none

end Overacp
