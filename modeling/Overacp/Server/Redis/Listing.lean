import Mathlib.Data.Multiset.Filter
import Overacp.Lib.Json.Text
import Overacp.Server.Redis.Lease

/-!
# What the Redis registry reports

`is_connected` looks for the owner key. The descriptions look into the set of connected agents, the sorted set
of those that left and the claims that an agent connected with.
-/

namespace Overacp

/-- What is kept of an agent's claims. -/
structure ClaimsSnapshot where
  agentId : Uuid
  user : Option Uuid
  connectedAt : String
  deriving DecidableEq, Repr

namespace ClaimsSnapshot

/-- The record, in the order of its fields. -/
def toJson (snapshot : ClaimsSnapshot) : Json :=
  .object [("agent_id", .string snapshot.agentId.render),
    ("user", snapshot.user.elim .null fun user => .string user.render),
    ("connected_at", .string snapshot.connectedAt)]

def text (snapshot : ClaimsSnapshot) : String := String.ofList snapshot.toJson.print

/-- The record read from its text, with a reader of ids. -/
def ofText (parseUuid : String → Option Uuid) (text : String) : Option ClaimsSnapshot :=
  match (Json.parse text.toList).bind
    (Json.fields [⟨"agent_id", false⟩, ⟨"user", false⟩, ⟨"connected_at", false⟩]) with
  | some [some agentId, user, some (.string connectedAt)] =>
      (agentId.asStr.bind parseUuid).bind fun agentId =>
        (Json.optional (fun value => value.asStr.bind parseUuid) user).map fun user =>
          ⟨agentId, user, connectedAt⟩
  | _ => none

end ClaimsSnapshot

namespace LeaseDb

/-- `EXISTS` on the owner key. -/
def isConnected (db : LeaseDb) (agentId : Uuid) : Bool := (db.owner agentId).isSome

variable (parseUuid : String → Option Uuid) (parseRfc3339 : String → Option Int)

/-- The description of a connected agent, with what can be read from its claims, if they are still there. -/
def hydrateDescription (db : LeaseDb) (agentId : Uuid) (connected : Bool) (now : Int) : AgentDescription :=
  match (Redis.get (db.claims agentId)).bind (ClaimsSnapshot.ofText parseUuid) with
  | some snapshot =>
      { agentId := agentId
        connected := connected
        uptimeSecs := some (now - (parseRfc3339 snapshot.connectedAt).getD 0).toNat
        idleSecs := some 0
        user := snapshot.user }
  | none => ⟨agentId, connected, none, none, none⟩

/-- The description of an agent that left at the time its score says. -/
def describeRecent (agentId : Uuid) (score nowMs : Int) : AgentDescription :=
  ⟨agentId, false, none, some ((nowMs - score) / 1000).toNat, none⟩

/-- Connected agents, and those that left and are not connected. The members of a set come in no order. -/
def listAgents (db : LeaseDb) (nowMs : Int) : Multiset AgentDescription :=
  (db.connected.val.map fun agentId => db.hydrateDescription parseUuid parseRfc3339 agentId true (nowMs / 1000)) +
    ((db.recent.entries.filter fun e => e.1 ∉ db.connected).map fun e => describeRecent e.1 e.2 nowMs :
      List AgentDescription)

def describeAgent (db : LeaseDb) (agentId : Uuid) (nowMs : Int) : Option AgentDescription :=
  if agentId ∈ db.connected then some (db.hydrateDescription parseUuid parseRfc3339 agentId true (nowMs / 1000))
  else (db.recent.lookup agentId).map fun score => describeRecent agentId score nowMs

variable {parseUuid parseRfc3339} {db : LeaseDb}

@[simp] theorem agentId_hydrateDescription (agentId : Uuid) (connected : Bool) (now : Int) :
    (db.hydrateDescription parseUuid parseRfc3339 agentId connected now).agentId = agentId := by
  unfold hydrateDescription
  split <;> rfl

@[simp] theorem connected_hydrateDescription (agentId : Uuid) (connected : Bool) (now : Int) :
    (db.hydrateDescription parseUuid parseRfc3339 agentId connected now).connected = connected := by
  unfold hydrateDescription
  split <;> rfl

/-- The agent is described as connected if it is in the set, whatever became of its claims. -/
theorem describeAgent_connected_iff (agentId : Uuid) (nowMs : Int) :
    (∃ d ∈ db.describeAgent parseUuid parseRfc3339 agentId nowMs, d.connected = true) ↔ agentId ∈ db.connected := by
  unfold describeAgent
  by_cases hmem : agentId ∈ db.connected
  · rw [if_pos hmem]
    exact iff_of_true ⟨_, rfl, connected_hydrateDescription ..⟩ hmem
  · rw [if_neg hmem]
    refine iff_of_false ?_ hmem
    rintro ⟨d, hd, hconnected⟩
    obtain ⟨score, -, rfl⟩ := Option.map_eq_some_iff.mp hd
    cases hconnected

theorem listAgents_connected_iff (agentId : Uuid) (nowMs : Int) :
    (∃ d ∈ db.listAgents parseUuid parseRfc3339 nowMs, d.agentId = agentId ∧ d.connected = true) ↔
      agentId ∈ db.connected := by
  constructor
  · rintro ⟨d, hd, hagent, hconnected⟩
    rcases Multiset.mem_add.mp hd with hlisted | hrecent
    · obtain ⟨other, hother, rfl⟩ := Multiset.mem_map.mp hlisted
      rw [agentId_hydrateDescription] at hagent
      rw [← hagent]
      exact hother
    · obtain ⟨e, -, rfl⟩ := List.mem_map.mp (Multiset.mem_coe.mp hrecent)
      cases hconnected
  · intro hmem
    exact ⟨_, Multiset.mem_add.mpr (.inl (Multiset.mem_map_of_mem _ hmem)), agentId_hydrateDescription ..,
      connected_hydrateDescription ..⟩

end LeaseDb

end Overacp
