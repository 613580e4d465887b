import Overacp.Server.Registry.Agent

/-!
# The in-memory message queue

A bounded buffer for each agent, filled while the agent's tunnel is down and emptied by the next
tunnel. A push refused for capacity still leaves the agent's slot in the map, as `or_insert` does.
-/

namespace Overacp

/-- `DEFAULT_PER_AGENT_CAPACITY`. -/
def defaultPerAgentCapacity : Nat := 64

inductive QueueError where
  | full (agentId : Uuid) (capacity : Nat)
  deriving DecidableEq, Repr

structure InMemoryMessageQueue (φ : Type) where
  inner : DashMap Uuid (List φ)
  perAgentCapacity : Nat

namespace InMemoryMessageQueue

variable {φ : Type}

def new (perAgentCapacity : Nat) : InMemoryMessageQueue φ := ⟨∅, perAgentCapacity⟩

/-- The buffer of an agent, empty when it has no slot. -/
def buffer (queue : InMemoryMessageQueue φ) (agentId : Uuid) : List φ :=
  (queue.inner.lookup agentId).getD []

def push (queue : InMemoryMessageQueue φ) (agentId : Uuid) (frame : φ) :
    Except QueueError Unit × InMemoryMessageQueue φ :=
  let slot := queue.buffer agentId
  if slot.length ≥ queue.perAgentCapacity then
    (.error (.full agentId queue.perAgentCapacity),
      { queue with inner := queue.inner.insert agentId slot })
  else (.ok (), { queue with inner := queue.inner.insert agentId (slot ++ [frame]) })

def drain (queue : InMemoryMessageQueue φ) (agentId : Uuid) : List φ × InMemoryMessageQueue φ :=
  (queue.buffer agentId, { queue with inner := queue.inner.erase agentId })

def len (queue : InMemoryMessageQueue φ) (agentId : Uuid) : Nat := (queue.buffer agentId).length

def isEmpty (queue : InMemoryMessageQueue φ) (agentId : Uuid) : Bool := queue.len agentId = 0

/-! ### Buffers before and after -/

variable (queue : InMemoryMessageQueue φ) (agentId : Uuid)

@[simp] theorem buffer_drain_self : (queue.drain agentId).2.buffer agentId = [] := by
  rw [buffer, drain, AList.lookup_erase]
  rfl

theorem buffer_drain_ne {queue : InMemoryMessageQueue φ} {agentId other : Uuid}
    (hne : other ≠ agentId) : (queue.drain agentId).2.buffer other = queue.buffer other := by
  rw [buffer, drain, AList.lookup_erase_ne hne, buffer]

@[simp] theorem perAgentCapacity_drain :
    (queue.drain agentId).2.perAgentCapacity = queue.perAgentCapacity := rfl

theorem buffer_push_self (frame : φ) :
    (queue.push agentId frame).2.buffer agentId =
      if queue.len agentId ≥ queue.perAgentCapacity then queue.buffer agentId
      else queue.buffer agentId ++ [frame] := by
  rw [push, len]
  split
  · simp only [buffer, AList.lookup_insert, Option.getD_some]
  · simp only [buffer, AList.lookup_insert, Option.getD_some]

theorem buffer_of_push_ok {queue queue' : InMemoryMessageQueue φ} {agentId : Uuid} {frame : φ}
    (hpush : queue.push agentId frame = (.ok (), queue')) :
    queue'.buffer agentId = queue.buffer agentId ++ [frame] := by
  have hbuffer := buffer_push_self queue agentId frame
  rw [hpush] at hbuffer
  rw [push] at hpush
  split at hpush
  · cases hpush
  · rename_i hroom
    rwa [len, if_neg hroom] at hbuffer

theorem buffer_push_ne {queue : InMemoryMessageQueue φ} {agentId other : Uuid} (frame : φ)
    (hne : other ≠ agentId) : (queue.push agentId frame).2.buffer other = queue.buffer other := by
  rw [push]
  split
  · simp only [buffer, AList.lookup_insert_ne hne]
  · simp only [buffer, AList.lookup_insert_ne hne]

/-- A push that is refused leaves every buffer as it was. -/
theorem buffer_of_push_error {queue queue' : InMemoryMessageQueue φ} {agentId : Uuid} {frame : φ}
    {e : QueueError} (hpush : queue.push agentId frame = (.error e, queue')) (other : Uuid) :
    queue'.buffer other = queue.buffer other := by
  by_cases hagent : other = agentId
  · subst hagent
    have hbuffer := buffer_push_self queue other frame
    rw [hpush] at hbuffer
    rw [push] at hpush
    split at hpush
    · rename_i hfull
      rwa [len, if_pos hfull] at hbuffer
    · cases hpush
  · have hbuffer := @buffer_push_ne _ queue agentId other frame hagent
    rwa [hpush] at hbuffer

@[simp] theorem perAgentCapacity_push (frame : φ) :
    (queue.push agentId frame).2.perAgentCapacity = queue.perAgentCapacity := by
  rw [push]
  split <;> rfl

end InMemoryMessageQueue

end Overacp
