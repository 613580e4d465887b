import Overacp.Lib.RedisStream
import Overacp.Lib.Transition
import Overacp.Lib.Utf8
import Overacp.Server.Registry.Agent

/-!
# The inbox consumer

The task `spawn_consumer` starts, as a machine that issues one command at a time against the inbox of
its agent. What it sends to its local channel is kept with it.
-/

namespace Overacp

open Redis

/-! ### The inbox -/

/-- The inbox stream of one agent, and the stream of dead letters. -/
structure Inbox where
  stream : GroupStream
  dlq : List (List (String × String))

namespace Inbox

/-- What `DELIVER_SCRIPT` writes. -/
def frameFields (frame : String) : List (String × List UInt8) := [("frame", Utf8.encode frame.toList)]

/-- `DELIVER_SCRIPT`: the frame is appended if the owner key exists. -/
def deliver (inbox : Inbox) (ownerExists : Bool) (now : Nat) (frame : String) : Option Inbox :=
  if ownerExists then some { inbox with stream := inbox.stream.xadd now (frameFields frame) } else none

end Inbox

/-- The `frame` field of an entry, if it is text; of a field that is written twice the last one. -/
def frameOf (entry : Entry) : Option String :=
  ((entry.fields.reverse.lookup "frame").bind Utf8.decode).map String.ofList

theorem frameOf_frameFields (id : StreamId) (frame : String) :
    frameOf ⟨id, Inbox.frameFields frame⟩ = some frame := by
  simp [frameOf, Inbox.frameFields]

/-! ### The consumer -/

/-- How many polls there are between two sweeps. -/
def autoclaimInterval : Nat := 1500

def autoclaimMinIdleMs : Nat := 300000

def autoclaimCount : Nat := 10

def maxDeliveries : Nat := 3

def maxReclaimAgeMs : Nat := 4 * 3600 * 1000

/-- The id the consumer reads from, `0` or `>`. -/
inductive ReadId where
  | zero
  | new
  deriving DecidableEq, Repr

/-- What the consumer does next. -/
inductive ConsumerPc where
  | read
  | reply (entry : Entry)
  | ack (id : StreamId)
  | claim
  | judge (entries : List Entry)
  | bury (entry : Entry) (deliveryCount : Nat) (entries : List Entry)
  | buryAck (entry : Entry) (entries : List Entry)
  | stopped
  deriving DecidableEq

structure Consumer where
  consumerId : String
  pollCount : Nat
  readId : ReadId
  pc : ConsumerPc
  sent : List (StreamId × String)
  deriving DecidableEq

namespace Consumer

def spawn (consumerId : String) : Consumer := ⟨consumerId, 0, .zero, .read, []⟩

/-- The end of a poll: every so often a sweep follows. -/
def afterPoll (pollCount : Nat) : ConsumerPc :=
  if pollCount % autoclaimInterval = 0 then .claim else .read

theorem afterPoll_cases (pollCount : Nat) :
    afterPoll pollCount = .claim ∨ afterPoll pollCount = .read := by
  unfold afterPoll
  split
  · exact .inl rfl
  · exact .inr rfl

def streamIdText (id : StreamId) : String := s!"{id.ms}-{id.seq}"

/-- The fields of the dead letter of an entry. -/
def deadLetter (agentId : Uuid) (entry : Entry) (deliveryCount : Nat) : List (String × String) :=
  entry.fields.map (fun field => (field.1, String.ofList (Utf8.decodeLossy field.2))) ++
    [("dlq_original_id", streamIdText entry.id), ("dlq_delivery_count", toString deliveryCount),
      ("dlq_agent_id", agentId.render)]

/-- An entry that cannot be found any more counts as delivered once. -/
def deliveryCountOf (stream : GroupStream) (id : StreamId) : Nat := (stream.deliveries id).getD 1

def shouldDlq (entry : Entry) (deliveryCount now : Nat) : Bool :=
  maxDeliveries ≤ deliveryCount || maxReclaimAgeMs < now - entry.id.ms

/-- What a step meets: the time, whether the receiver of the local channel is alive, and whether the
command succeeds. One that fails has no effect. -/
structure Tick where
  now : Nat
  isOpen : Bool
  ok : Bool
  deriving DecidableEq, Repr

/-- `XREADGROUP`. -/
def readGroup (c : Consumer) (stream : GroupStream) (now : Nat) : Option (Entry × GroupStream) :=
  match c.readId with
  | .zero => stream.readPending c.consumerId now
  | .new => stream.readNew c.consumerId now

/-- One command, with what the task does before it awaits the next. -/
def step (agentId : Uuid) (tick : Tick) (inbox : Inbox) (c : Consumer) : Option (Inbox × Consumer) :=
  match c.pc with
  | .read =>
      let pollCount := c.pollCount + 1
      if tick.ok then
        match c.readGroup inbox.stream tick.now with
        | some (entry, stream) =>
            some ({ inbox with stream := stream }, { c with pollCount := pollCount, pc := .reply entry })
        | none =>
            some (inbox, { c with pollCount := pollCount, readId := .new, pc := afterPoll pollCount })
      else some (inbox, { c with pollCount := pollCount, pc := afterPoll pollCount })
  | .reply entry =>
      match frameOf entry with
      | some frame =>
          if tick.isOpen then
            some (inbox, { c with pc := .ack entry.id, sent := c.sent ++ [(entry.id, frame)] })
          else some (inbox, { c with pc := .stopped })
      | none => some (inbox, { c with pc := afterPoll c.pollCount })
  | .ack id =>
      let stream := if tick.ok then inbox.stream.ack id else inbox.stream
      some ({ inbox with stream := stream }, { c with pc := afterPoll c.pollCount })
  | .claim =>
      if tick.ok then
        let claimed := inbox.stream.autoclaim c.consumerId autoclaimMinIdleMs autoclaimCount tick.now
        some ({ inbox with stream := claimed.2 }, { c with pc := .judge claimed.1 })
      else some (inbox, { c with pc := .read })
  | .judge [] => some (inbox, { c with pc := .read })
  | .judge (entry :: entries) =>
      let deliveryCount := if tick.ok then deliveryCountOf inbox.stream entry.id else 1
      if shouldDlq entry deliveryCount tick.now then
        some (inbox, { c with pc := .bury entry deliveryCount entries })
      else some (inbox, { c with pc := .judge entries })
  | .bury entry deliveryCount entries =>
      let dlq := if tick.ok then inbox.dlq ++ [deadLetter agentId entry deliveryCount] else inbox.dlq
      some ({ inbox with dlq := dlq }, { c with pc := .buryAck entry entries })
  | .buryAck entry entries =>
      let stream := if tick.ok then inbox.stream.ack entry.id else inbox.stream
      some ({ inbox with stream := stream }, { c with pc := .judge entries })
  | .stopped => none

/-- What one step can be. -/
inductive Moves (agentId : Uuid) (tick : Tick) (inbox : Inbox) (c : Consumer) : Inbox → Consumer → Prop where
  | found {entry : Entry} {stream : GroupStream} (hpc : c.pc = .read) (hok : tick.ok = true)
      (hread : c.readGroup inbox.stream tick.now = some (entry, stream)) :
      Moves agentId tick inbox c { inbox with stream := stream }
        { c with pollCount := c.pollCount + 1, pc := .reply entry }
  | empty (hpc : c.pc = .read) (hok : tick.ok = true) (hread : c.readGroup inbox.stream tick.now = none) :
      Moves agentId tick inbox c inbox
        { c with pollCount := c.pollCount + 1, readId := .new, pc := afterPoll (c.pollCount + 1) }
  | readFailed (hpc : c.pc = .read) (hok : tick.ok = false) :
      Moves agentId tick inbox c inbox
        { c with pollCount := c.pollCount + 1, pc := afterPoll (c.pollCount + 1) }
  | sent {entry : Entry} {frame : String} (hpc : c.pc = .reply entry) (hframe : frameOf entry = some frame)
      (hopen : tick.isOpen = true) :
      Moves agentId tick inbox c inbox { c with pc := .ack entry.id, sent := c.sent ++ [(entry.id, frame)] }
  | closed {entry : Entry} {frame : String} (hpc : c.pc = .reply entry)
      (hframe : frameOf entry = some frame) (hopen : tick.isOpen = false) :
      Moves agentId tick inbox c inbox { c with pc := .stopped }
  | noText {entry : Entry} (hpc : c.pc = .reply entry) (hframe : frameOf entry = none) :
      Moves agentId tick inbox c inbox { c with pc := afterPoll c.pollCount }
  | acked {id : StreamId} (hpc : c.pc = .ack id) (hok : tick.ok = true) :
      Moves agentId tick inbox c { inbox with stream := inbox.stream.ack id }
        { c with pc := afterPoll c.pollCount }
  | ackFailed {id : StreamId} (hpc : c.pc = .ack id) (hok : tick.ok = false) :
      Moves agentId tick inbox c inbox { c with pc := afterPoll c.pollCount }
  | claimed (hpc : c.pc = .claim) (hok : tick.ok = true) :
      Moves agentId tick inbox c
        { inbox with
          stream := (inbox.stream.autoclaim c.consumerId autoclaimMinIdleMs autoclaimCount tick.now).2 }
        { c with
          pc := .judge (inbox.stream.autoclaim c.consumerId autoclaimMinIdleMs autoclaimCount tick.now).1 }
  | claimFailed (hpc : c.pc = .claim) (hok : tick.ok = false) :
      Moves agentId tick inbox c inbox { c with pc := .read }
  | judged (hpc : c.pc = .judge []) : Moves agentId tick inbox c inbox { c with pc := .read }
  | condemned {entry : Entry} {entries : List Entry} {deliveryCount : Nat}
      (hpc : c.pc = .judge (entry :: entries))
      (hcount : deliveryCount = if tick.ok then deliveryCountOf inbox.stream entry.id else 1)
      (hdlq : shouldDlq entry deliveryCount tick.now = true) :
      Moves agentId tick inbox c inbox { c with pc := .bury entry deliveryCount entries }
  | kept {entry : Entry} {entries : List Entry} {deliveryCount : Nat}
      (hpc : c.pc = .judge (entry :: entries))
      (hcount : deliveryCount = if tick.ok then deliveryCountOf inbox.stream entry.id else 1)
      (hdlq : shouldDlq entry deliveryCount tick.now = false) :
      Moves agentId tick inbox c inbox { c with pc := .judge entries }
  | buried {entry : Entry} {entries : List Entry} {deliveryCount : Nat}
      (hpc : c.pc = .bury entry deliveryCount entries) (hok : tick.ok = true) :
      Moves agentId tick inbox c { inbox with dlq := inbox.dlq ++ [deadLetter agentId entry deliveryCount] }
        { c with pc := .buryAck entry entries }
  | buryFailed {entry : Entry} {entries : List Entry} {deliveryCount : Nat}
      (hpc : c.pc = .bury entry deliveryCount entries) (hok : tick.ok = false) :
      Moves agentId tick inbox c inbox { c with pc := .buryAck entry entries }
  | buryAcked {entry : Entry} {entries : List Entry} (hpc : c.pc = .buryAck entry entries)
      (hok : tick.ok = true) :
      Moves agentId tick inbox c { inbox with stream := inbox.stream.ack entry.id }
        { c with pc := .judge entries }
  | buryAckFailed {entry : Entry} {entries : List Entry} (hpc : c.pc = .buryAck entry entries)
      (hok : tick.ok = false) :
      Moves agentId tick inbox c inbox { c with pc := .judge entries }

theorem step_cases {agentId : Uuid} {tick : Tick} {inbox inbox' : Inbox} {c c' : Consumer}
    (h : c.step agentId tick inbox = some (inbox', c')) : Moves agentId tick inbox c inbox' c' := by
  unfold step at h
  cases hpc : c.pc with
  | read =>
      simp only [hpc] at h
      cases hok : tick.ok with
      | true =>
          simp only [hok, if_true] at h
          cases hread : c.readGroup inbox.stream tick.now with
          | some r =>
              rw [hread] at h
              cases h
              exact .found hpc hok hread
          | none =>
              rw [hread] at h
              cases h
              exact .empty hpc hok hread
      | false =>
          simp only [hok, Bool.false_eq_true, if_false] at h
          cases h
          exact .readFailed hpc hok
  | reply entry =>
      simp only [hpc] at h
      cases hframe : frameOf entry with
      | some frame =>
          simp only [hframe] at h
          cases hopen : tick.isOpen with
          | true =>
              simp only [hopen, if_true] at h
              cases h
              exact .sent hpc hframe hopen
          | false =>
              simp only [hopen, Bool.false_eq_true, if_false] at h
              cases h
              exact .closed hpc hframe hopen
      | none =>
          simp only [hframe] at h
          cases h
          exact .noText hpc hframe
  | ack id =>
      simp only [hpc] at h
      cases hok : tick.ok with
      | true =>
          simp only [hok, if_true] at h
          cases h
          exact .acked hpc hok
      | false =>
          simp only [hok, Bool.false_eq_true, if_false] at h
          cases h
          exact .ackFailed hpc hok
  | claim =>
      simp only [hpc] at h
      cases hok : tick.ok with
      | true =>
          simp only [hok, if_true] at h
          cases h
          exact .claimed hpc hok
      | false =>
          simp only [hok, Bool.false_eq_true, if_false] at h
          cases h
          exact .claimFailed hpc hok
  | judge entries =>
      cases entries with
      | nil =>
          simp only [hpc] at h
          cases h
          exact .judged hpc
      | cons entry entries =>
          simp only [hpc] at h
          generalize hcount : (if tick.ok = true then deliveryCountOf inbox.stream entry.id else 1) =
            deliveryCount at h
          cases hdlq : shouldDlq entry deliveryCount tick.now with
          | true =>
              simp only [hdlq, if_true] at h
              cases h
              exact .condemned hpc hcount.symm hdlq
          | false =>
              simp only [hdlq, Bool.false_eq_true, if_false] at h
              cases h
              exact .kept hpc hcount.symm hdlq
  | bury entry deliveryCount entries =>
      simp only [hpc] at h
      cases hok : tick.ok with
      | true =>
          simp only [hok, if_true] at h
          cases h
          exact .buried hpc hok
      | false =>
          simp only [hok, Bool.false_eq_true, if_false] at h
          cases h
          exact .buryFailed hpc hok
  | buryAck entry entries =>
      simp only [hpc] at h
      cases hok : tick.ok with
      | true =>
          simp only [hok, if_true] at h
          cases h
          exact .buryAcked hpc hok
      | false =>
          simp only [hok, Bool.false_eq_true, if_false] at h
          cases h
          exact .buryAckFailed hpc hok
  | stopped =>
      simp only [hpc] at h
      cases h

theorem readGroup_found {c : Consumer} {stream stream' : GroupStream} {now : Nat} {entry : Entry}
    (h : c.readGroup stream now = some (entry, stream')) :
    entry.id ∈ stream.ids ∧ ∃ eff, stream' = stream.apply eff ∧ ∀ now fields, eff ≠ .xadd now fields := by
  unfold readGroup at h
  cases hreadId : c.readId with
  | zero =>
      simp only [hreadId] at h
      obtain ⟨p, hp, -, rfl, rfl⟩ := GroupStream.mem_readPending h
      refine ⟨List.mem_append_left _ (List.mem_map_of_mem hp), ?_⟩
      exact ⟨.redeliver [p.id] c.consumerId now, rfl, nofun⟩
  | new =>
      simp only [hreadId] at h
      obtain ⟨hentry, rfl⟩ := GroupStream.mem_readNew h
      refine ⟨List.mem_append_right _ (List.mem_map_of_mem hentry), ?_⟩
      exact ⟨.deliverFresh c.consumerId now, rfl, nofun⟩

/-- A consumer issues commands of the group only, and appends nothing. -/
theorem step_apply {agentId : Uuid} {tick : Tick} {inbox inbox' : Inbox} {c c' : Consumer}
    (h : c.step agentId tick inbox = some (inbox', c')) :
    inbox'.stream = inbox.stream ∨
      ∃ eff, inbox'.stream = inbox.stream.apply eff ∧ ∀ now fields, eff ≠ .xadd now fields := by
  cases step_cases h with
  | found hpc hok hread => exact .inr (readGroup_found hread).2
  | acked | buryAcked => exact .inr ⟨.ack _, rfl, nofun⟩
  | claimed => exact .inr ⟨.redeliver _ _ _, rfl, nofun⟩
  | empty | readFailed | sent | closed | noText | ackFailed | claimFailed | judged | condemned | kept
  | buried | buryFailed | buryAckFailed => exact .inl rfl

end Consumer

/-! ### Frames are text -/

/-- The entry has a frame the consumer can forward. -/
def IsText (entry : Entry) : Prop := (frameOf entry).isSome = true

/-- `DELIVER_SCRIPT` appends text only. -/
theorem text_deliver {inbox inbox' : Inbox} {ownerExists : Bool} {now : Nat} {frame : String}
    (h : inbox.stream.Forall IsText) (hdeliver : inbox.deliver ownerExists now frame = some inbox') :
    inbox'.stream.Forall IsText := by
  unfold Inbox.deliver at hdeliver
  split at hdeliver
  · cases hdeliver
    refine GroupStream.forall_xadd h ?_
    rw [IsText, frameOf_frameFields]
    rfl
  · cases hdeliver

theorem text_step {agentId : Uuid} {tick : Consumer.Tick} {inbox inbox' : Inbox} {c c' : Consumer}
    (h : inbox.stream.Forall IsText) (hstep : c.step agentId tick inbox = some (inbox', c')) :
    inbox'.stream.Forall IsText := by
  rcases Consumer.step_apply hstep with hsame | ⟨eff, happly, heff⟩
  · rw [hsame]
    exact h
  · rw [happly]
    exact GroupStream.forall_apply h heff

end Overacp
