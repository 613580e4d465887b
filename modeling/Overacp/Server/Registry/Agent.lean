import Mathlib.Data.List.AList
import Overacp.Lib.Channel

/-!
# The in-memory agent registry

One entry for each connected agent and a bounded log of the agents that left. The registry is a
routing table: `deliver` looks the agent up and sends into the channel its entry carries. Entries sit
behind shared pointers, so two acquires of one agent install two entries, told apart by the address
the allocator gave them.
-/

namespace Overacp

abbrev Uuid := BitVec 128

/-- The hyphenated lowercase form. -/
def Uuid.render (id : Uuid) : String :=
  let hex := (List.range 32).map fun i => Nat.digitChar ((id.toNat >>> (4 * (31 - i))) % 16)
  let group from_ to_ := String.ofList ((hex.take to_).drop from_)
  String.intercalate "-" [group 0 8, group 8 12, group 12 16, group 16 20, group 20 32]

/-- A reading of the monotonic clock, in nanoseconds. -/
abbrev Instant := Nat

abbrev DashMap (κ ν : Type) := AList fun _ : κ => ν

structure Claims where
  sub : Uuid
  role : String
  user : Option Uuid
  exp : Int
  iss : String
  deriving DecidableEq, Repr

/-- How many recently-disconnected agents the registry remembers. -/
def recentCapacity : Nat := 64

/-- A shared pointer: the value and the address it lives at. -/
structure Arc (α : Type) where
  addr : Nat
  val : α
  deriving DecidableEq, Repr

inductive DeliveryOutcome (φ : Type) where
  | live
  | noTunnel (frame : φ)
  deriving DecidableEq, Repr

structure AgentEntry where
  tx : Sender
  claims : Claims
  connectedAt : Instant
  lastActivity : Instant
  deriving DecidableEq, Repr

namespace AgentEntry

/-- `AgentEntry::new` at the given reading of the clock. -/
def new (tx : Sender) (claims : Claims) (now : Instant) : AgentEntry := ⟨tx, claims, now, now⟩

def touch (entry : AgentEntry) (now : Instant) : AgentEntry := { entry with lastActivity := now }

end AgentEntry

structure RecentEntry where
  agentId : Uuid
  user : Option Uuid
  disconnectedAt : Instant
  deriving DecidableEq, Repr

/-- Whole seconds between two readings, zero when the second is the earlier one. -/
def saturatingSecs (now earlier : Instant) : Nat := (now - earlier) / 1000000000

structure AgentDescription where
  agentId : Uuid
  connected : Bool
  uptimeSecs : Option Nat
  idleSecs : Option Nat
  user : Option Uuid
  deriving DecidableEq, Repr

namespace AgentDescription

def fromConnected (agentId : Uuid) (entry : AgentEntry) (now : Instant) : AgentDescription where
  agentId := agentId
  connected := true
  uptimeSecs := some (saturatingSecs now entry.connectedAt)
  idleSecs := some (saturatingSecs now entry.lastActivity)
  user := entry.claims.user

def fromRecent (entry : RecentEntry) (now : Instant) : AgentDescription where
  agentId := entry.agentId
  connected := false
  uptimeSecs := none
  idleSecs := some (saturatingSecs now entry.disconnectedAt)
  user := entry.user

end AgentDescription

/-- The `connected` table and the `recent` log, oldest entry first. -/
structure InMemoryAgentRegistry where
  connected : DashMap Uuid (Arc AgentEntry)
  recent : List RecentEntry

namespace InMemoryAgentRegistry

def new : InMemoryAgentRegistry := ⟨∅, []⟩

def pushRecent (registry : InMemoryAgentRegistry) (entry : RecentEntry) : InMemoryAgentRegistry :=
  let others := registry.recent.filter fun r => r.agentId ≠ entry.agentId
  let kept := if others.length = recentCapacity then others.drop 1 else others
  { registry with recent := kept ++ [entry] }

def purgeRecent (registry : InMemoryAgentRegistry) (agentId : Uuid) : InMemoryAgentRegistry :=
  { registry with recent := registry.recent.filter fun r => r.agentId ≠ agentId }

/-- Insert into `connected` first, then purge from `recent`; the replaced entry is returned. -/
def register (registry : InMemoryAgentRegistry) (agentId : Uuid) (entry : Arc AgentEntry) :
    Option (Arc AgentEntry) × InMemoryAgentRegistry :=
  let previous := registry.connected.lookup agentId
  let inserted := { registry with connected := registry.connected.insert agentId entry }
  (previous, inserted.purgeRecent agentId)

def get (registry : InMemoryAgentRegistry) (agentId : Uuid) : Option (Arc AgentEntry) :=
  registry.connected.lookup agentId

def isConnected (registry : InMemoryAgentRegistry) (agentId : Uuid) : Bool :=
  (registry.connected.lookup agentId).isSome

def unregister (registry : InMemoryAgentRegistry) (agentId : Uuid) (now : Instant) :
    InMemoryAgentRegistry :=
  match registry.connected.lookup agentId with
  | none => registry
  | some entry =>
      let removed := { registry with connected := registry.connected.erase agentId }
      removed.pushRecent ⟨agentId, entry.val.claims.user, now⟩

/-- Connected agents in the order `entries` iterates them, then the recent ones not connected. -/
def list (registry : InMemoryAgentRegistry) (now : Instant) : List AgentDescription :=
  (registry.connected.entries.map fun e => .fromConnected e.1 e.2.val now) ++
    (registry.recent.filter fun r => !registry.isConnected r.agentId).map fun r => .fromRecent r now

def describe (registry : InMemoryAgentRegistry) (agentId : Uuid) (now : Instant) :
    Option AgentDescription :=
  match registry.get agentId with
  | some entry => some (.fromConnected agentId entry.val now)
  | none => (registry.recent.find? fun r => r.agentId = agentId).map fun r => .fromRecent r now

/-- The outcome of one send: live, or the frame back when the receiver is gone. -/
def sendOutcome {φ : Type} (channels : Channels φ) (tx : Sender) (frame : φ) :
    DeliveryOutcome φ × Channels φ :=
  match channels.send tx frame with
  | .ok channels' => (.live, channels')
  | .error frame' => (.noTunnel frame', channels)

def deliver {φ : Type} (registry : InMemoryAgentRegistry) (channels : Channels φ) (agentId : Uuid)
    (frame : φ) : DeliveryOutcome φ × Channels φ :=
  match registry.get agentId with
  | some entry => sendOutcome channels entry.val.tx frame
  | none => (.noTunnel frame, channels)

def touch (registry : InMemoryAgentRegistry) (agentId : Uuid) (now : Instant) :
    InMemoryAgentRegistry :=
  match registry.get agentId with
  | some entry =>
      { registry with
        connected := registry.connected.insert agentId { entry with val := entry.val.touch now } }
  | none => registry

/-! ### What each operation does to the table -/

variable (registry : InMemoryAgentRegistry) (agentId other : Uuid)

@[simp] theorem connected_pushRecent (entry : RecentEntry) :
    (registry.pushRecent entry).connected = registry.connected := rfl

@[simp] theorem connected_purgeRecent : (registry.purgeRecent agentId).connected = registry.connected := rfl

theorem connected_register (entry : Arc AgentEntry) :
    (registry.register agentId entry).2.connected = registry.connected.insert agentId entry := rfl

theorem connected_unregister (now : Instant) :
    (registry.unregister agentId now).connected = registry.connected.erase agentId := by
  unfold unregister
  cases hlookup : registry.connected.lookup agentId with
  | none =>
      have habsent : agentId ∉ registry.connected := AList.lookup_eq_none.mp hlookup
      apply AList.ext
      exact (List.kerase_of_notMem_keys habsent).symm
  | some entry => rfl

@[simp] theorem get_register_self (entry : Arc AgentEntry) :
    (registry.register agentId entry).2.get agentId = some entry := by
  rw [get, connected_register, AList.lookup_insert]

theorem get_register_ne {registry : InMemoryAgentRegistry} {agentId other : Uuid}
    (entry : Arc AgentEntry) (hne : other ≠ agentId) :
    (registry.register agentId entry).2.get other = registry.get other := by
  rw [get, connected_register, AList.lookup_insert_ne hne, get]

@[simp] theorem get_unregister_self (now : Instant) :
    (registry.unregister agentId now).get agentId = none := by
  rw [get, connected_unregister, AList.lookup_erase]

theorem get_unregister_ne {registry : InMemoryAgentRegistry} {agentId other : Uuid} (now : Instant)
    (hne : other ≠ agentId) : (registry.unregister agentId now).get other = registry.get other := by
  rw [get, connected_unregister, AList.lookup_erase_ne hne, get]

theorem deliver_of_get {φ : Type} {registry : InMemoryAgentRegistry} {agentId : Uuid}
    {entry : Arc AgentEntry} (hget : registry.get agentId = some entry) (channels : Channels φ)
    (frame : φ) :
    registry.deliver channels agentId frame = sendOutcome channels entry.val.tx frame := by
  rw [deliver, hget]

/-- A live delivery is the last frame in the channel of the agent's entry. -/
theorem deliver_live {φ : Type} {registry : InMemoryAgentRegistry} {channels channels' : Channels φ}
    {agentId : Uuid} {frame : φ} (hdeliver : registry.deliver channels agentId frame = (.live, channels')) :
    ∃ entry, registry.get agentId = some entry ∧
      (channels' entry.val.tx).queue = (channels entry.val.tx).queue ++ [frame] := by
  cases hget : registry.get agentId with
  | none =>
      rw [deliver, hget] at hdeliver
      cases hdeliver
  | some entry =>
      rw [deliver_of_get hget, sendOutcome] at hdeliver
      split at hdeliver
      · rename_i sent hsend
        cases hdeliver
        obtain ⟨-, rfl⟩ := Channels.send_eq_ok.mp hsend
        exact ⟨entry, rfl, by rw [Function.update_self]⟩
      · cases hdeliver

/-- A delivery that finds no tunnel gives the frame back and sends nothing. -/
theorem deliver_noTunnel {φ : Type} {registry : InMemoryAgentRegistry} {channels channels' : Channels φ}
    {agentId : Uuid} {frame frame' : φ}
    (hdeliver : registry.deliver channels agentId frame = (.noTunnel frame', channels')) :
    frame' = frame ∧ channels' = channels := by
  cases hget : registry.get agentId with
  | none =>
      rw [deliver, hget] at hdeliver
      cases hdeliver
      exact ⟨rfl, rfl⟩
  | some entry =>
      rw [deliver_of_get hget, sendOutcome] at hdeliver
      split at hdeliver
      · cases hdeliver
      · rename_i frame₀ hsend
        cases hdeliver
        exact ⟨(Channels.send_eq_error.mp hsend).2.symm, rfl⟩

end InMemoryAgentRegistry

end Overacp
