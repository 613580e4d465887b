import Overacp.Lib.BoundedFifo
import Overacp.Lib.LuaNumber
import Overacp.Lib.RedisEntries
import Overacp.Lib.Utf8
import Overacp.Server.Registry.Queue
import Overacp.Server.Registry.UuidText

/-!
# The message queue in Redis

A stream for each agent, filled by a script that looks at its length first, and read and deleted by another.
The queue in memory and this one give the same answers, those of a map of bounded queues.
-/

namespace Overacp

def bufferKey (agentId : Uuid) : String := "overacp:buffer:" ++ agentId.render

theorem bufferKey_injective : Function.Injective bufferKey := by
  intro agentId other h
  exact Uuid.render_injective (String.append_right_inj _ |>.mp h)

/-- The buffers, by their keys. -/
abbrev Buffers := String → Option Redis.Stream

namespace Buffers

/-- The fields of an entry. -/
def frameFields (frame : List Char) : List (String × List UInt8) := [("frame", Utf8.encode frame)]

/-- `PUSH_SCRIPT`. -/
def pushScript (db : Buffers) (key : String) (capacity : Nat) (frame : List Char) (now : Nat) : Nat × Buffers :=
  let len := Redis.xlen (db key)
  if Lua.tonumber len ≥ Lua.tonumber capacity then (0, db)
  else (1, Function.update db key (some ((Redis.streamAt (db key)).xadd now (frameFields frame))))

/-- `DRAIN_SCRIPT`; it fails on a null reply, which has no length. -/
def drainScript (db : Buffers) (key : String) (capacity : Nat) : Option (List Redis.Entry) × Buffers :=
  match Redis.xrange (db key) capacity with
  | none => (none, db)
  | some [] => (some [], db)
  | some (entry :: entries) => (some (entry :: entries), Function.update db key none)

end Buffers

structure RedisMessageQueue where
  perAgentCapacity : Nat

namespace RedisMessageQueue

/-- What `push` makes of the reply; a command that failed is reported as a full queue. -/
def pushed (queue : RedisMessageQueue) (agentId : Uuid) : Option Nat → Except QueueError Unit
  | none | some 0 => .error (.full agentId queue.perAgentCapacity)
  | some _ => .ok ()

/-- The entries of a reply, if all that is in them is text. -/
def decodeReply (entries : List Redis.Entry) : Option (List (List (String × List Char))) :=
  entries.mapM fun entry => entry.fields.mapM fun field => (Utf8.decode field.2).map fun text => (field.1, text)

/-- What `drain` makes of the reply. -/
def drained (reply : Option (List Redis.Entry)) : List (List Char) :=
  match reply.bind decodeReply with
  | some entries => entries.filterMap fun fields => (fields.find? fun field => field.1 = "frame").map Prod.snd
  | none => []

def push (queue : RedisMessageQueue) (db : Buffers) (agentId : Uuid) (frame : List Char) (now : Nat) :
    Except QueueError Unit × Buffers :=
  let reply := db.pushScript (bufferKey agentId) queue.perAgentCapacity frame now
  (queue.pushed agentId (some reply.1), reply.2)

def drain (queue : RedisMessageQueue) (db : Buffers) (agentId : Uuid) : List (List Char) × Buffers :=
  let reply := db.drainScript (bufferKey agentId) queue.perAgentCapacity
  (drained reply.1, reply.2)

/-- `XLEN`, or zero if the command failed. -/
def len (db : Buffers) (agentId : Uuid) : Nat := Redis.xlen (db (bufferKey agentId))

def isEmpty (db : Buffers) (agentId : Uuid) : Bool := len db agentId = 0

end RedisMessageQueue

/-! ### The calls -/

abbrev QueueCall := Fifo.Call Uuid (List Char)

abbrev QueueAnswer := Fifo.Answer QueueError (List Char)

def InMemoryMessageQueue.step (queue : InMemoryMessageQueue (List Char)) :
    QueueCall → QueueAnswer × InMemoryMessageQueue (List Char)
  | .push agentId frame => (.pushed (queue.push agentId frame).1, (queue.push agentId frame).2)
  | .drain agentId => (.drained (queue.drain agentId).1, (queue.drain agentId).2)
  | .len agentId => (.len (queue.len agentId), queue)
  | .isEmpty agentId => (.isEmpty (queue.isEmpty agentId), queue)

/-- A call at a reading of the clock of the server. -/
def RedisMessageQueue.step (queue : RedisMessageQueue) (db : Buffers) : Nat × QueueCall → QueueAnswer × Buffers
  | (now, .push agentId frame) => (.pushed (queue.push db agentId frame now).1, (queue.push db agentId frame now).2)
  | (_, .drain agentId) => (.drained (queue.drain db agentId).1, (queue.drain db agentId).2)
  | (_, .len agentId) => (.len (len db agentId), db)
  | (_, .isEmpty agentId) => (.isEmpty (isEmpty db agentId), db)

/-- No queue of the map is over the capacity. -/
def Bounded (capacity : Nat) (queues : Uuid → List (List Char)) : Prop :=
  ∀ agentId, (queues agentId).length ≤ capacity

variable {capacity : Nat} {queues : Uuid → List (List Char)}

theorem bounded_step (h : Bounded capacity queues) (call : QueueCall) :
    Bounded capacity (Fifo.step capacity (QueueError.full · capacity) queues call).2 :=
  Fifo.length_step_le _ h call

/-! ### The queue in memory -/

namespace InMemoryMessageQueue

/-- The buffers of the queue are those of the map. -/
structure Holds (capacity : Nat) (queue : InMemoryMessageQueue (List Char)) (queues : Uuid → List (List Char)) :
    Prop where
  perAgentCapacity : queue.perAgentCapacity = capacity
  buffer : ∀ agentId, queue.buffer agentId = queues agentId

variable {queue : InMemoryMessageQueue (List Char)}

theorem holds_push (h : Holds capacity queue queues) (hbounded : Bounded capacity queues) (agentId : Uuid)
    (frame : List Char) :
    (queue.step (.push agentId frame)).1 =
        (Fifo.step capacity (QueueError.full · capacity) queues (.push agentId frame)).1 ∧
      Holds capacity (queue.step (.push agentId frame)).2
        (Fifo.step capacity (QueueError.full · capacity) queues (.push agentId frame)).2 := by
  have hle := hbounded agentId
  have hself := buffer_push_self queue agentId frame
  have hcapacity := (perAgentCapacity_push queue agentId frame).trans h.perAgentCapacity
  have hkeep : ∀ other, other ≠ agentId → (queue.push agentId frame).2.buffer other = queues other :=
    fun other hne => (buffer_push_ne frame hne).trans (h.buffer other)
  rw [len, h.buffer, h.perAgentCapacity] at hself
  by_cases hfull : (queues agentId).length = capacity
  · have hge : (queues agentId).length ≥ capacity := Nat.le_of_eq hfull.symm
    rw [if_pos hge] at hself
    rw [Fifo.step_push_full _ frame hfull]
    refine ⟨?_, hcapacity, fun other => ?_⟩
    · rw [step, push, h.buffer, h.perAgentCapacity, if_pos hge]
    · by_cases hother : other = agentId
      · rw [hother]
        exact hself
      · exact hkeep other hother
  · have hlt : ¬ (queues agentId).length ≥ capacity := by omega
    rw [if_neg hlt] at hself
    rw [Fifo.step_push_room _ frame hfull]
    refine ⟨?_, hcapacity, fun other => ?_⟩
    · rw [step, push, h.buffer, h.perAgentCapacity, if_neg hlt]
    · show (queue.push agentId frame).2.buffer other = Function.update queues agentId _ other
      by_cases hother : other = agentId
      · rw [hother, Function.update_self]
        exact hself
      · rw [Function.update_of_ne hother]
        exact hkeep other hother

theorem holds_drain (h : Holds capacity queue queues) (agentId : Uuid) :
    Holds capacity (queue.drain agentId).2 (Function.update queues agentId []) := by
  refine ⟨h.perAgentCapacity, fun other => ?_⟩
  by_cases hother : other = agentId
  · rw [hother, Function.update_self, buffer_drain_self]
  · rw [Function.update_of_ne hother, buffer_drain_ne hother]
    exact h.buffer other

theorem holds_step (h : Holds capacity queue queues) (hbounded : Bounded capacity queues) (call : QueueCall) :
    (queue.step call).1 = (Fifo.step capacity (QueueError.full · capacity) queues call).1 ∧
      Holds capacity (queue.step call).2 (Fifo.step capacity (QueueError.full · capacity) queues call).2 := by
  cases call with
  | push agentId frame => exact holds_push h hbounded agentId frame
  | drain agentId => exact ⟨congrArg Fifo.Answer.drained (h.buffer agentId), holds_drain h agentId⟩
  | len agentId => exact ⟨congrArg Fifo.Answer.len (congrArg List.length (h.buffer agentId)), h⟩
  | isEmpty agentId =>
      refine ⟨congrArg Fifo.Answer.isEmpty ?_, h⟩
      rw [isEmpty, len, h.buffer]
      cases queues agentId <;> rfl

theorem holds_new (capacity : Nat) : Holds capacity (new capacity) fun _ => [] := ⟨rfl, fun _ => rfl⟩

end InMemoryMessageQueue

/-! ### The queue in Redis -/

namespace Buffers

/-- The stream of each agent holds the frames of the map, one in each entry. -/
def Holds (db : Buffers) (queues : Uuid → List (List Char)) : Prop :=
  ∀ agentId, (Redis.entriesAt (db (bufferKey agentId))).map Redis.Entry.fields = (queues agentId).map frameFields

variable {db : Buffers}

theorem Holds.xlen (h : db.Holds queues) (agentId : Uuid) :
    Redis.xlen (db (bufferKey agentId)) = (queues agentId).length := by
  have hlength := congrArg List.length (h agentId)
  rwa [List.length_map, List.length_map] at hlength

/-- A change to the stream of one agent. -/
theorem Holds.update (h : db.Holds queues) {agentId : Uuid} {key : Option Redis.Stream} {frames : List (List Char)}
    (hkey : (Redis.entriesAt key).map Redis.Entry.fields = frames.map frameFields) :
    Holds (Function.update db (bufferKey agentId) key) (Function.update queues agentId frames) := by
  intro other
  by_cases hother : other = agentId
  · rw [hother, Function.update_self, Function.update_self]
    exact hkey
  · rw [Function.update_of_ne hother, Function.update_of_ne (bufferKey_injective.ne hother)]
    exact h other

end Buffers

namespace RedisMessageQueue

open Buffers

variable {db : Buffers}

/-- The frames are what `drain` finds in their entries. -/
theorem drained_some {entries : List Redis.Entry} {frames : List (List Char)}
    (h : entries.map Redis.Entry.fields = frames.map frameFields) : drained (some entries) = frames := by
  have hdecode : decodeReply entries = some (frames.map fun frame => [("frame", frame)]) := by
    induction entries generalizing frames with
    | nil =>
        cases frames with
        | nil => rfl
        | cons frame frames => cases h
    | cons entry entries ih =>
        cases frames with
        | nil => cases h
        | cons frame frames =>
            obtain ⟨hentry, hrest⟩ := List.cons.inj h
            have hfields : (entry.fields.mapM fun field =>
                (Utf8.decode field.2).map fun text => (field.1, text)) = some [("frame", frame)] := by
              rw [hentry, frameFields]
              simp only [List.mapM_cons, List.mapM_nil, Utf8.decode_encode]
              rfl
            rw [decodeReply, List.mapM_cons, hfields]
            have hlater := ih hrest
            rw [decodeReply] at hlater
            rw [hlater]
            rfl
  rw [drained, Option.bind_some, hdecode]
  dsimp only
  rw [List.filterMap_map]
  exact List.filterMap_some ..

theorem holds_push (hcapacity : capacity < 2 ^ 53) (h : db.Holds queues) (hbounded : Bounded capacity queues)
    (now : Nat) (agentId : Uuid) (frame : List Char) :
    (step ⟨capacity⟩ db (now, .push agentId frame)).1 =
        (Fifo.step capacity (QueueError.full · capacity) queues (.push agentId frame)).1 ∧
      Holds (step ⟨capacity⟩ db (now, .push agentId frame)).2
        (Fifo.step capacity (QueueError.full · capacity) queues (.push agentId frame)).2 := by
  have hle := hbounded agentId
  have hlen : Lua.tonumber (Redis.xlen (db (bufferKey agentId))) = (queues agentId).length := by
    rw [h.xlen, Lua.tonumber_of_lt (by omega)]
  by_cases hfull : (queues agentId).length = capacity
  · have hscript : db.pushScript (bufferKey agentId) capacity frame now = (0, db) := by
      rw [pushScript, hlen, Lua.tonumber_of_lt hcapacity, if_pos (Nat.le_of_eq hfull.symm)]
    rw [Fifo.step_push_full _ frame hfull, step, push, hscript]
    exact ⟨rfl, h⟩
  · have hscript : db.pushScript (bufferKey agentId) capacity frame now = (1, Function.update db (bufferKey agentId)
        (some ((Redis.streamAt (db (bufferKey agentId))).xadd now (frameFields frame)))) := by
      rw [pushScript, hlen, Lua.tonumber_of_lt hcapacity, if_neg (by omega)]
    rw [Fifo.step_push_room _ frame hfull, step, push, hscript]
    refine ⟨rfl, h.update ?_⟩
    rw [Redis.entriesAt_xadd, List.map_append, h agentId, List.map_append]
    rfl

/-- A drain reads as many entries as a buffer may hold, so it deletes none that it has not read. -/
theorem holds_drain (h : db.Holds queues) (hbounded : Bounded capacity queues) (agentId : Uuid) :
    (drain ⟨capacity⟩ db agentId).1 = queues agentId ∧
      Holds (drain ⟨capacity⟩ db agentId).2 (Function.update queues agentId []) := by
  have hkept : queues agentId = [] → db.Holds (Function.update queues agentId []) := by
    intro hempty
    rw [← hempty, Function.update_eq_self]
    exact h
  have hentries := h agentId
  rcases Redis.xrange_of_le (h.xlen agentId ▸ hbounded agentId) with hread | ⟨hnull, hnone⟩
  · cases hcases : Redis.entriesAt (db (bufferKey agentId)) with
    | nil =>
        rw [hcases] at hread hentries
        have hempty : queues agentId = [] := List.map_eq_nil_iff.mp hentries.symm
        rw [drain, drainScript, hread]
        exact ⟨hempty.symm, hkept hempty⟩
    | cons entry entries =>
        rw [hcases] at hread hentries
        rw [drain, drainScript, hread]
        exact ⟨drained_some hentries, h.update rfl⟩
  · rw [hnone] at hentries
    have hempty : queues agentId = [] := List.map_eq_nil_iff.mp hentries.symm
    rw [drain, drainScript, hnull]
    exact ⟨hempty.symm, hkept hempty⟩

theorem holds_step (hcapacity : capacity < 2 ^ 53) (h : db.Holds queues) (hbounded : Bounded capacity queues)
    (call : Nat × QueueCall) :
    (step ⟨capacity⟩ db call).1 = (Fifo.step capacity (QueueError.full · capacity) queues call.2).1 ∧
      Holds (step ⟨capacity⟩ db call).2 (Fifo.step capacity (QueueError.full · capacity) queues call.2).2 := by
  obtain ⟨now, call⟩ := call
  cases call with
  | push agentId frame => exact holds_push hcapacity h hbounded now agentId frame
  | drain agentId =>
      obtain ⟨hdrained, hholds⟩ := holds_drain h hbounded agentId
      exact ⟨congrArg Fifo.Answer.drained hdrained, hholds⟩
  | len agentId => exact ⟨congrArg Fifo.Answer.len (h.xlen agentId), h⟩
  | isEmpty agentId =>
      refine ⟨congrArg Fifo.Answer.isEmpty ?_, h⟩
      rw [isEmpty, len, h.xlen]
      cases queues agentId <;> rfl

end RedisMessageQueue

/-- The queue in memory, the one in Redis and a map of bounded queues give the same answers, and the answers
are lawful: a push is refused exactly when the buffer is full and then changes nothing, a drain is answered with
what was accepted since the last one and empties the buffer of its agent only, and no buffer outgrows the
capacity. -/
theorem message_queues_agree {capacity : Nat} (hcapacity : capacity < 2 ^ 53) (calls : List (Nat × QueueCall)) :
    let expected : List QueueAnswer :=
      Fifo.answers (Fifo.step capacity (QueueError.full · capacity)) (fun _ => []) (calls.map Prod.snd)
    Fifo.answers InMemoryMessageQueue.step (.new capacity) (calls.map Prod.snd) = expected ∧
      Fifo.answers (RedisMessageQueue.step ⟨capacity⟩) (fun _ => none) calls = expected ∧
      Fifo.Lawful capacity (QueueError.full · capacity) ((calls.map Prod.snd).zip expected) := by
  refine ⟨?_, ?_, Fifo.lawful_answers capacity _ _⟩
  · have hrun := @Fifo.answers_eq _ _ _ _ _ InMemoryMessageQueue.step
      (Fifo.step capacity (QueueError.full · capacity)) id
      (fun queue queues => InMemoryMessageQueue.Holds capacity queue queues ∧ Bounded capacity queues)
      (fun queue queues call h => by
        obtain ⟨hanswer, hholds⟩ := InMemoryMessageQueue.holds_step h.1 h.2 call
        exact ⟨hanswer, hholds, bounded_step h.2 call⟩)
      _ _ ⟨InMemoryMessageQueue.holds_new capacity, fun _ => Nat.zero_le _⟩ (calls.map Prod.snd)
    rwa [List.map_id] at hrun
  · exact @Fifo.answers_eq _ _ _ _ _ (RedisMessageQueue.step ⟨capacity⟩)
      (Fifo.step capacity (QueueError.full · capacity)) Prod.snd
      (fun db queues => Buffers.Holds db queues ∧ Bounded capacity queues)
      (fun db queues call h => by
        obtain ⟨hanswer, hholds⟩ := RedisMessageQueue.holds_step hcapacity h.1 h.2 call
        exact ⟨hanswer, hholds, bounded_step h.2 call.2⟩)
      _ _ ⟨fun _ => rfl, fun _ => Nat.zero_le _⟩ calls

/-- A full buffer and a drain, in Redis. -/
theorem message_queues_agree_full :
    1 < 2 ^ 53 ∧ Fifo.answers (RedisMessageQueue.step ⟨1⟩) (fun _ => none)
      [(0, .push 7 "a".toList), (0, .push 7 "b".toList), (0, .drain 7), (0, .len 7)] =
        [.pushed (.ok ()), .pushed (.error (.full 7 1)), .drained ["a".toList], .len 0] :=
  ⟨by decide, (message_queues_agree (by decide)
    [(0, .push 7 "a".toList), (0, .push 7 "b".toList), (0, .drain 7), (0, .len 7)]).2.1⟩

end Overacp
