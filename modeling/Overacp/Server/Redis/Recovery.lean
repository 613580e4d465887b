import Overacp.Server.Redis.Inbox

/-!
# Recovery of orphaned entries

A sweep claims entries that other consumers have left pending, and counts on the next polls to forward
them. A poll from `0` returns what is pending for the consumer; a poll from `>` does not. This module
follows a claimed entry through every later run of the consumer, among any commands of other clients.
-/

namespace Overacp

open Redis

namespace Recovery

/-- A consumer and its inbox. -/
structure State where
  inbox : Inbox
  consumer : Consumer

/-- A step of the consumer, or a command of another client. -/
inductive Event where
  | own (tick : Consumer.Tick)
  | other (eff : GroupStream.Effect)
  deriving DecidableEq

def step (agentId : Uuid) (s : State) : Event → Option State
  | .own tick => (s.consumer.step agentId tick s.inbox).map fun next => ⟨next.1, next.2⟩
  | .other eff => some { s with inbox := { s.inbox with stream := s.inbox.stream.apply eff } }

def system (agentId : Uuid) (start : State) : Transition.System State Event := ⟨start, step agentId⟩

/-- The entry is among what was sent after the first `n`. -/
def ForwardedSince (n : Nat) (id : StreamId) (sent : List (StreamId × String)) : Prop :=
  id ∈ (sent.drop n).map Prod.fst

/-- The entry a sweep is about to acknowledge, having dead-lettered it. -/
def buried : ConsumerPc → Option StreamId
  | .buryAck entry _ => some entry.id
  | _ => none

/-- Commands succeed, the receiver is alive, and nobody takes the entry from the consumer: no other
client acknowledges or claims it, and no sweep dead-letters it. -/
def Undisturbed (id : StreamId) (s : State) : Event → State → Prop
  | .own tick, _ => tick.ok = true ∧ tick.isOpen = true ∧ buried s.consumer.pc ≠ some id
  | .other (.ack other), _ => other ≠ id
  | .other (.redeliver claimed consumer _), _ => id ∈ claimed → consumer = s.consumer.consumerId
  | .other (.xadd ..), _ | .other (.deliverFresh ..), _ => True

instance decidableUndisturbed (id : StreamId) (s : State) :
    ∀ (e : Event) (t : State), Decidable (Undisturbed id s e t)
  | .own _, _ => inferInstanceAs (Decidable (_ ∧ _ ∧ _))
  | .other (.ack _), _ => inferInstanceAs (Decidable (_ ≠ _))
  | .other (.redeliver ..), _ => inferInstanceAs (Decidable (_ ∈ _ → _ = _))
  | .other (.xadd ..), _ | .other (.deliverFresh ..), _ => .isTrue trivial

/-- The entry a poll is dealing with. -/
def busy : ConsumerPc → Option StreamId
  | .reply entry => some entry.id
  | .ack id => some id
  | _ => none

/-- The entry is pending for the consumer, and everything pending up to it is text. -/
structure Kept (id : StreamId) (consumerId : String) (stream : GroupStream) : Prop where
  pending : ∃ p ∈ stream.pending, p.id = id ∧ p.consumer = consumerId
  text : ∀ p ∈ stream.pending, p.id ≤ id → (frameOf p.entry).isSome = true

/-- The entry waits its turn: everything pending before it has its poll. -/
structure Waiting (id : StreamId) (n budget : Nat) (s : State) : Prop where
  sentLength : n ≤ s.consumer.sent.length
  readId : s.consumer.readId = .zero
  kept : Kept id s.consumer.consumerId s.inbox.stream
  replyText : ∀ entry, s.consumer.pc = .reply entry → (frameOf entry).isSome = true
  notAcked : s.consumer.pc ≠ .ack id
  progress : s.inbox.stream.backlog id (busy s.consumer.pc) + s.consumer.pollCount ≤ budget

/-- The entry is behind the cursor of a consumer that reads from `>`. -/
structure Passed (id : StreamId) (n : Nat) (s : State) : Prop where
  readId : s.consumer.readId = .new
  known : id ≤ s.inbox.stream.lastId
  delivered : ∀ entry ∈ s.inbox.stream.fresh, entry.id ≠ id
  notReply : ∀ entry, s.consumer.pc = .reply entry → entry.id ≠ id
  notSent : ¬ ForwardedSince n id s.consumer.sent

variable {agentId : Uuid} {id : StreamId} {budget n : Nat} {s t : State}

theorem step_own {tick : Consumer.Tick} (h : step agentId s (.own tick) = some t) :
    s.consumer.step agentId tick s.inbox = some (t.inbox, t.consumer) := by
  obtain ⟨⟨inbox, consumer⟩, hstep, rfl⟩ := Option.map_eq_some_iff.mp h
  exact hstep

theorem forwardedSince_append {sent more : List (StreamId × String)} (h : ForwardedSince n id sent) :
    ForwardedSince n id (sent ++ more) := by
  rw [ForwardedSince, List.drop_append, List.map_append]
  exact List.mem_append_left _ h

theorem forwardedSince_concat {sent : List (StreamId × String)} {new : StreamId} {frame : String}
    (h : ForwardedSince n id (sent ++ [(new, frame)])) : ForwardedSince n id sent ∨ new = id := by
  rw [ForwardedSince, List.drop_append, List.map_append] at h
  rcases List.mem_append.mp h with hold | hnew
  · exact .inl hold
  · obtain ⟨x, hx, hid⟩ := List.mem_map.mp hnew
    rw [List.mem_singleton.mp (List.mem_of_mem_drop hx)] at hid
    exact .inr hid

theorem forwardedSince_self {sent : List (StreamId × String)} {frame : String} (hn : n ≤ sent.length) :
    ForwardedSince n id (sent ++ [(id, frame)]) := by
  rw [ForwardedSince, List.drop_append_of_le_length hn, List.map_append]
  exact List.mem_append_right _ List.mem_cons_self

/-- After a poll nothing is being dealt with. -/
theorem afterPoll_idle (pollCount : Nat) :
    busy (Consumer.afterPoll pollCount) = none ∧
      (∀ entry, Consumer.afterPoll pollCount ≠ .reply entry) ∧
      ∀ id, Consumer.afterPoll pollCount ≠ .ack id := by
  rcases Consumer.afterPoll_cases pollCount with hclaim | hread
  · rw [hclaim]
    exact ⟨rfl, nofun, nofun⟩
  · rw [hread]
    exact ⟨rfl, nofun, nofun⟩

/-! ### A consumer that reads from `>` -/

theorem passed_other {eff : GroupStream.Effect} (hs : Passed id n s)
    (h : step agentId s (.other eff) = some t) : Passed id n t := by
  cases h
  refine ⟨hs.readId, le_trans hs.known (GroupStream.lastId_le_apply _ _), ?_, hs.notReply, hs.notSent⟩
  intro entry hentry
  rcases GroupStream.fresh_apply hentry with hold | hlater
  · exact hs.delivered entry hold
  · exact ne_of_gt (lt_of_le_of_lt hs.known hlater)

theorem passed_own {tick : Consumer.Tick} (hs : Passed id n s)
    (h : step agentId s (.own tick) = some t) : Passed id n t := by
  obtain ⟨inbox, consumer⟩ := s
  obtain ⟨inbox', consumer'⟩ := t
  obtain ⟨readId, known, delivered, notReply, notSent⟩ := hs
  cases Consumer.step_cases (step_own h) with
  | found hpc hok hread =>
      rw [Consumer.readGroup, readId] at hread
      obtain ⟨hentry, rfl⟩ := GroupStream.mem_readNew hread
      refine ⟨readId, known, ?_, ?_, notSent⟩
      · intro other hother
        exact delivered other (List.mem_of_mem_drop hother)
      · intro other hother
        cases hother
        exact delivered _ hentry
  | empty hpc hok hread =>
      exact ⟨rfl, known, delivered, fun _ h => absurd h ((afterPoll_idle _).2.1 _), notSent⟩
  | readFailed | noText | ackFailed | acked =>
      exact ⟨readId, known, delivered, fun _ h => absurd h ((afterPoll_idle _).2.1 _), notSent⟩
  | @sent entry frame hpc hframe hopen =>
      refine ⟨readId, known, delivered, nofun, ?_⟩
      intro hsent
      rcases forwardedSince_concat hsent with hold | hnew
      · exact notSent hold
      · exact notReply entry hpc hnew
  | closed | claimFailed | judged | condemned | kept | buryFailed | buryAckFailed | claimed | buried |
    buryAcked => exact ⟨readId, known, delivered, nofun, notSent⟩

theorem passed_step {e : Event} (h : step agentId s e = some t) (hs : Passed id n s) : Passed id n t := by
  cases e with
  | own tick => exact passed_own hs h
  | other eff => exact passed_other hs h

/-! ### A consumer that reads from `0` -/

theorem kept_apply {stream : GroupStream} {eff : GroupStream.Effect} {consumerId : String}
    (h : Kept id consumerId stream) (hack : eff ≠ .ack id)
    (hclaim : ∀ claimed consumer now, eff = .redeliver claimed consumer now → id ∈ claimed →
      consumer = consumerId) : Kept id consumerId (stream.apply eff) := by
  obtain ⟨⟨p, hp, rfl, hconsumer⟩, text⟩ := h
  refine ⟨GroupStream.pending_kept hp hconsumer hack hclaim, ?_⟩
  intro q hq hle
  rcases GroupStream.pending_apply hq with ⟨q', hq', hsame⟩ | hfresh
  · rw [← hsame]
    refine text q' hq' ?_
    show q'.entry.id ≤ p.id
    rw [hsame]
    exact hle
  · exact absurd (GroupStream.pending_lt_fresh hp hfresh) (not_lt_of_ge hle)

theorem kept_redeliver {stream : GroupStream} {claimed : List StreamId} {consumerId : String} {now : Nat}
    (h : Kept id consumerId stream) : Kept id consumerId (stream.redeliver claimed consumerId now) := by
  refine @kept_apply _ _ (.redeliver claimed consumerId now) _ h nofun ?_
  intro _ _ _ heff _
  cases heff
  rfl

theorem kept_ack {stream : GroupStream} {other : StreamId} {consumerId : String}
    (h : Kept id consumerId stream) (hne : other ≠ id) : Kept id consumerId (stream.ack other) := by
  refine @kept_apply _ _ (.ack other) _ h ?_ nofun
  intro heff
  cases heff
  exact hne rfl

theorem waiting_other {eff : GroupStream.Effect} (hs : Waiting id n budget s)
    (hclear : Undisturbed id s (.other eff) t) (h : step agentId s (.other eff) = some t) :
    Waiting id n budget t := by
  cases h
  have hkept : Kept id s.consumer.consumerId (s.inbox.stream.apply eff) := by
    apply kept_apply hs.kept
    · intro heff
      subst heff
      exact hclear rfl
    · intro claimed consumer now heff hmem
      subst heff
      exact hclear hmem
  refine ⟨hs.sentLength, hs.readId, hkept, hs.replyText, hs.notAcked, ?_⟩
  obtain ⟨p, hp, rfl, -⟩ := hs.kept.pending
  exact le_trans (Nat.add_le_add_right (GroupStream.backlog_apply_le hp eff _) _) hs.progress

/-- A poll from `0` takes up an entry that is at or before the waiting one. -/
theorem readGroup_of_kept {stream : GroupStream} {c : Consumer} (hreadId : c.readId = .zero)
    (hkept : Kept id c.consumerId stream) (now : Nat) :
    ∃ q ∈ stream.pending, q.id ≤ id ∧
      c.readGroup stream now = some (q.entry, stream.redeliver [q.id] c.consumerId now) := by
  obtain ⟨p, hp, rfl, hconsumer⟩ := hkept.pending
  obtain ⟨q, hq, -, hle, hread⟩ := GroupStream.readPending_le hp now
  rw [hconsumer] at hread
  refine ⟨q, hq, hle, ?_⟩
  rw [Consumer.readGroup, hreadId]
  exact hread

/-- A step between two points at which no entry is being dealt with. -/
theorem waiting_idle {inbox inbox' : Inbox} {c : Consumer} {pc : ConsumerPc}
    (hs : Waiting id n budget ⟨inbox, c⟩) (hbusy : busy c.pc = none)
    (hidle : busy pc = none ∧ (∀ entry, pc ≠ .reply entry) ∧ ∀ id, pc ≠ .ack id)
    (hkept : Kept id c.consumerId inbox'.stream)
    (hbacklog : inbox'.stream.backlog id none ≤ inbox.stream.backlog id none) :
    Waiting id n budget ⟨inbox', { c with pc := pc }⟩ := by
  obtain ⟨sentLength, readId, -, -, -, progress⟩ := hs
  obtain ⟨hbusy', hreply, hack⟩ := hidle
  refine ⟨sentLength, readId, hkept, fun _ h => absurd h (hreply _), hack id, ?_⟩
  have hprogress : inbox.stream.backlog id (busy c.pc) + c.pollCount ≤ budget := progress
  show inbox'.stream.backlog id (busy pc) + c.pollCount ≤ budget
  rw [hbusy] at hprogress
  rw [hbusy']
  omega

theorem waiting_own {tick : Consumer.Tick} (hs : Waiting id n budget s)
    (hclear : Undisturbed id s (.own tick) t) (h : step agentId s (.own tick) = some t) :
    ForwardedSince n id t.consumer.sent ∨ Waiting id n budget t := by
  obtain ⟨inbox, consumer⟩ := s
  obtain ⟨inbox', consumer'⟩ := t
  have hwaiting := hs
  obtain ⟨sentLength, readId, kept, replyText, notAcked, progress⟩ := hwaiting
  obtain ⟨hok, hopen, hbury⟩ := hclear
  cases Consumer.step_cases (step_own h) with
  | @found entry stream hpc _ hread =>
      right
      obtain ⟨q, hq, hle, hread'⟩ := readGroup_of_kept readId kept tick.now
      obtain ⟨rfl, rfl⟩ := Prod.mk.inj (Option.some.inj (hread.symm.trans hread'))
      refine ⟨sentLength, readId, kept_redeliver kept, ?_, nofun, ?_⟩
      · intro entry hentry
        cases hentry
        exact kept.text q hq hle
      · have hbusy : inbox.stream.backlog id (some q.id) + 1 ≤ inbox.stream.backlog id none :=
          GroupStream.backlog_busy hq hle
        rw [show busy consumer.pc = none from by rw [hpc]; rfl] at progress
        have hprogress : inbox.stream.backlog id none + consumer.pollCount ≤ budget := progress
        show (inbox.stream.redeliver [q.id] _ tick.now).backlog id (some q.id) +
          (consumer.pollCount + 1) ≤ budget
        rw [GroupStream.backlog_redeliver]
        omega
  | empty hpc _ hread =>
      obtain ⟨q, hq, hle, hread'⟩ := readGroup_of_kept readId kept tick.now
      rw [hread] at hread'
      cases hread'
  | @sent entry frame hpc hframe _ =>
      by_cases hsame : entry.id = id
      · left
        rw [hsame]
        exact forwardedSince_self sentLength
      · right
        refine ⟨?_, readId, kept, nofun, ?_, ?_⟩
        · exact Nat.le_trans sentLength (by simp)
        · intro heq
          exact hsame (ConsumerPc.ack.inj heq)
        · rw [show busy consumer.pc = some entry.id from by rw [hpc]; rfl] at progress
          exact progress
  | noText hpc hframe =>
      have htext := replyText _ hpc
      rw [hframe] at htext
      cases htext
  | @acked other hpc _ =>
      right
      have hne : other ≠ id := by
        intro heq
        exact notAcked (by rw [hpc, heq])
      obtain ⟨hidle, hreply, hack⟩ := afterPoll_idle consumer.pollCount
      refine ⟨sentLength, readId, kept_ack kept hne, fun _ h => absurd h (hreply _), hack id, ?_⟩
      rw [show busy consumer.pc = some other from by rw [hpc]; rfl] at progress
      show (inbox.stream.ack other).backlog id (busy (Consumer.afterPoll consumer.pollCount)) +
        consumer.pollCount ≤ budget
      rw [hidle, GroupStream.backlog_ack]
      exact progress
  | claimed hpc _ =>
      have hbacklog := GroupStream.backlog_redeliver inbox.stream
        ((inbox.stream.claimable autoclaimMinIdleMs autoclaimCount tick.now).map Pending.id)
        consumer.consumerId tick.now id none
      exact .inr (waiting_idle hs (by rw [hpc]; rfl) ⟨rfl, nofun, nofun⟩ (kept_redeliver kept)
        (le_of_eq hbacklog))
  | judged hpc | condemned hpc | kept hpc | buried hpc =>
      exact .inr (waiting_idle hs (by rw [hpc]; rfl) ⟨rfl, nofun, nofun⟩ kept (le_refl _))
  | @buryAcked entry entries hpc _ =>
      have hne : entry.id ≠ id := by
        intro heq
        exact hbury (by rw [hpc, buried, heq])
      exact .inr (waiting_idle hs (by rw [hpc]; rfl) ⟨rfl, nofun, nofun⟩ (kept_ack kept hne)
        (GroupStream.backlog_ack_le _ _ _ _))
  | readFailed _ hfailed | ackFailed _ hfailed | claimFailed _ hfailed
  | buryFailed _ hfailed | buryAckFailed _ hfailed =>
      rw [hok] at hfailed
      cases hfailed
  | closed _ _ hclosed =>
      rw [hopen] at hclosed
      cases hclosed

theorem forwardedSince_step {e : Event} (h : step agentId s e = some t)
    (hs : ForwardedSince n id s.consumer.sent) : ForwardedSince n id t.consumer.sent := by
  cases e with
  | other eff =>
      cases h
      exact hs
  | own tick =>
      obtain ⟨inbox, consumer⟩ := s
      obtain ⟨inbox', consumer'⟩ := t
      cases Consumer.step_cases (step_own h) with
      | sent => exact forwardedSince_append hs
      | found | empty | readFailed | closed | noText | acked | ackFailed | claimed | claimFailed | judged
      | condemned | kept | buried | buryFailed | buryAcked | buryAckFailed => exact hs

theorem waiting_step {e : Event} (h : step agentId s e = some t) (hclear : Undisturbed id s e t)
    (hs : ForwardedSince n id s.consumer.sent ∨ Waiting id n budget s) :
    ForwardedSince n id t.consumer.sent ∨ Waiting id n budget t := by
  rcases hs with hsent | hwaiting
  · exact .inl (forwardedSince_step h hsent)
  · cases e with
    | own tick => exact waiting_own hwaiting hclear h
    | other eff => exact .inr (waiting_other hwaiting hclear h)

/-! ### From a claim to the poll that forwards -/

/-- The state a sweep starts in, the state it has claimed in, and one of the entries it claimed. -/
structure Claimed (agentId : Uuid) (s t : State) (entry : Entry) : Prop where
  before : s.consumer.pc = .claim
  step : ∃ tick, step agentId s (.own tick) = some t
  entry : ∃ entries, t.consumer.pc = .judge entries ∧ entry ∈ entries

theorem claimed_redeliver {entry : Entry} (h : Claimed agentId s t entry) :
    ∃ claimed now, t.inbox.stream = s.inbox.stream.redeliver claimed s.consumer.consumerId now ∧
      entry.id ∈ claimed ∧ (∃ p ∈ s.inbox.stream.pending, p.entry = entry) ∧
      t.consumer.consumerId = s.consumer.consumerId ∧ t.consumer.readId = s.consumer.readId ∧
      t.consumer.pollCount = s.consumer.pollCount ∧ t.consumer.sent = s.consumer.sent := by
  obtain ⟨hbefore, ⟨tick, hstep⟩, entries, hentries, hmem⟩ := h
  obtain ⟨inbox, consumer⟩ := s
  obtain ⟨inbox', consumer'⟩ := t
  have hbefore' : consumer.pc = .claim := hbefore
  cases Consumer.step_cases (step_own hstep) with
  | claimed _ hok =>
      obtain rfl := ConsumerPc.judge.inj hentries
      obtain ⟨p, hp, rfl⟩ := List.mem_map.mp hmem
      refine ⟨_, tick.now, rfl, List.mem_map_of_mem hp, ⟨p, ?_, rfl⟩, rfl, rfl, rfl, rfl⟩
      exact List.mem_of_mem_take (List.mem_filter.mp (List.mem_of_mem_take hp)).1
  | claimFailed => cases hentries
  | found hpc | empty hpc | readFailed hpc | sent hpc | closed hpc | noText hpc | acked hpc
  | ackFailed hpc | judged hpc | condemned hpc | kept hpc | buried hpc | buryFailed hpc
  | buryAcked hpc | buryAckFailed hpc =>
      have hpc' := hbefore'.symm.trans hpc
      cases hpc'

/-- How many entries are pending or undelivered. -/
def outstanding (s : State) : Nat := s.inbox.stream.pending.length + s.inbox.stream.fresh.length

theorem passed_of_claimed {entry : Entry} (h : Claimed agentId s t entry)
    (hnew : s.consumer.readId = .new) : Passed entry.id s.consumer.sent.length t := by
  obtain ⟨claimed, now, hstream, -, ⟨p, hp, rfl⟩, -, hreadId, -, hsent⟩ := claimed_redeliver h
  obtain ⟨entries, hentries, -⟩ := h.entry
  refine ⟨hreadId.trans hnew, ?_, ?_, ?_, ?_⟩
  · rw [hstream]
    show p.id ≤ s.inbox.stream.lastId
    exact GroupStream.pending_le_lastId hp
  · intro entry hentry
    rw [hstream] at hentry
    exact ne_of_gt (GroupStream.pending_lt_fresh hp hentry)
  · intro entry hreply
    rw [hentries] at hreply
    cases hreply
  · rw [hsent, ForwardedSince, List.drop_length]
    exact List.not_mem_nil

theorem waiting_of_claimed {entry : Entry} (h : Claimed agentId s t entry)
    (htext : ∀ p ∈ s.inbox.stream.pending, (frameOf p.entry).isSome = true)
    (hzero : s.consumer.readId = .zero) :
    Waiting entry.id s.consumer.sent.length (s.consumer.pollCount + outstanding s) t := by
  obtain ⟨claimed, now, hstream, hmem, ⟨p, hp, rfl⟩, hconsumer, hreadId, hcount, hsent⟩ :=
    claimed_redeliver h
  obtain ⟨entries, hentries, -⟩ := h.entry
  refine ⟨Nat.le_of_eq (congrArg List.length hsent.symm), hreadId.trans hzero, ⟨?_, ?_⟩, ?_, ?_, ?_⟩
  · rw [hstream]
    refine ⟨_, List.mem_map_of_mem hp, ?_, ?_⟩
    · rw [if_pos (show p.id ∈ claimed from hmem)]
      rfl
    · rw [if_pos (show p.id ∈ claimed from hmem), hconsumer]
      rfl
  · intro q hq _
    rw [hstream] at hq
    obtain ⟨q', hq', rfl⟩ := List.mem_map.mp hq
    have htext' := htext q' hq'
    split
    · exact htext'
    · exact htext'
  · intro entry hreply
    rw [hentries] at hreply
    cases hreply
  · rw [hentries]
    exact nofun
  · rw [hentries, hstream, hcount, GroupStream.backlog_redeliver]
    have hlength := GroupStream.backlog_le_length s.inbox.stream p.entry.id (busy (.judge entries))
    unfold outstanding
    omega

/-- A consumer that reads from `>` at the time of its sweep never forwards what it claims. -/
theorem not_forwarded_of_new {entry : Entry} {es : List Event} (h : Claimed agentId s t entry)
    (hnew : s.consumer.readId = .new) {u : State} (hrun : (system agentId t).run t es = some u) :
    ¬ ForwardedSince s.consumer.sent.length entry.id u.consumer.sent :=
  ((system agentId t).run_invariant (fun _ _ _ hstep hs => passed_step hstep hs) hrun
    (passed_of_claimed h hnew)).notSent

/-- Over every continuation that leaves the entry to the consumer, once it has polled as often as
there were entries outstanding at the time of the claim. -/
theorem claimed_forwarded_iff_reads_zero {agentId : Uuid} {s t u : State} {entry : Entry}
    {es : List Event} (h : Claimed agentId s t entry)
    (htext : ∀ p ∈ s.inbox.stream.pending, (frameOf p.entry).isSome = true)
    (hrun : (system agentId t).run t es = some u)
    (hclear : (system agentId t).EveryStep (Undisturbed entry.id) t es)
    (hpolls : s.consumer.pollCount + outstanding s ≤ u.consumer.pollCount)
    (hdone : ∀ other, u.consumer.pc ≠ .reply other) :
    ForwardedSince s.consumer.sent.length entry.id u.consumer.sent ↔ s.consumer.readId = .zero := by
  constructor
  · intro hsent
    cases hreadId : s.consumer.readId with
    | zero => rfl
    | new => exact absurd hsent (not_forwarded_of_new h hreadId hrun)
  · intro hzero
    have hend : ForwardedSince s.consumer.sent.length entry.id u.consumer.sent ∨
        Waiting entry.id s.consumer.sent.length (s.consumer.pollCount + outstanding s) u :=
      (system agentId t).run_invariant_of_everyStep
        (fun _ _ _ hstep hclear hs => waiting_step hstep hclear hs) hrun hclear
        (.inr (waiting_of_claimed h htext hzero))
    rcases hend with hsent | hwaiting
    · exact hsent
    · -- the entry itself would still be in the backlog, and no poll is left for it
      obtain ⟨p, hp, hid, -⟩ := hwaiting.kept.pending
      have hbusy : busy u.consumer.pc ≠ some p.id := by
        rw [hid]
        cases hpc : u.consumer.pc with
        | reply other => exact absurd hpc (hdone other)
        | ack other =>
            intro heq
            exact hwaiting.notAcked (by rw [hpc, Option.some.inj heq])
        | read | claim | judge | bury | buryAck | stopped => exact nofun
      have hpos := GroupStream.backlog_pos hp hbusy
      rw [hid] at hpos
      have hprogress := hwaiting.progress
      omega

/-- One frame, delivered at five to another consumer that never came back to it. -/
private def orphaned : Inbox :=
  ⟨(GroupStream.empty.xadd 1 (Inbox.frameFields "hi")).deliverFresh "b-7" 5, []⟩

private def orphan : Entry := ⟨.mk 1 0, Inbox.frameFields "hi"⟩

/-- Five minutes later. -/
private def ownStep : Event := .own ⟨300005, true, true⟩

/-- A sweep that falls into the first, pending phase of a consumer. -/
private def sweeping : State := ⟨orphaned, ⟨"a-7", autoclaimInterval, .zero, .claim, []⟩⟩

theorem orphan_claimed_while_reading_zero :
    ∃ t u, Claimed 7 sweeping t orphan ∧ (system 7 t).run t (List.replicate 4 ownStep) = some u ∧
      (ForwardedSince 0 orphan.id u.consumer.sent ↔ sweeping.consumer.readId = .zero) := by
  have hrun : (step 7 sweeping ownStep).any (fun t => t.consumer.pc = .judge [orphan] ∧
      (system 7 t).EveryStep (Undisturbed orphan.id) t (List.replicate 4 ownStep) ∧
      ((system 7 t).run t (List.replicate 4 ownStep)).any (fun u =>
        sweeping.consumer.pollCount + outstanding sweeping ≤ u.consumer.pollCount ∧
          u.consumer.pc = .ack orphan.id)) = true := by decide +kernel
  obtain ⟨t, hstep, ht⟩ := (Option.any_eq_true _ _).mp hrun
  obtain ⟨hpc, hclear, hend⟩ := of_decide_eq_true ht
  obtain ⟨u, hrun, hu⟩ := (Option.any_eq_true _ _).mp hend
  obtain ⟨hpolls, hack⟩ := of_decide_eq_true hu
  have hclaimed : Claimed 7 sweeping t orphan :=
    ⟨rfl, ⟨_, hstep⟩, [orphan], hpc, List.mem_singleton_self _⟩
  have htext : ∀ p ∈ sweeping.inbox.stream.pending, (frameOf p.entry).isSome = true := by decide +kernel
  refine ⟨t, u, hclaimed, hrun, claimed_forwarded_iff_reads_zero hclaimed htext hrun hclear hpolls ?_⟩
  intro other hreply
  rw [hack] at hreply
  cases hreply

/-! ### From the start of a consumer -/

/-- Nothing is pending for the consumer and nothing is undelivered. -/
def Quiet (inbox : Inbox) (consumerId : String) : Prop :=
  inbox.stream.fresh = [] ∧ ∀ p ∈ inbox.stream.pending, p.consumer ≠ consumerId

/-- A poll that finds nothing. -/
theorem step_quiet {inbox : Inbox} {c : Consumer} {tick : Consumer.Tick} (hquiet : Quiet inbox c.consumerId)
    (hpc : c.pc = .read) (hok : tick.ok = true) :
    step agentId ⟨inbox, c⟩ (.own tick) =
      some ⟨inbox, { c with
        pollCount := c.pollCount + 1, readId := .new, pc := Consumer.afterPoll (c.pollCount + 1) }⟩ := by
  have hnone : c.readGroup inbox.stream tick.now = none := by
    unfold Consumer.readGroup
    split
    · rw [GroupStream.readPending, Option.map_eq_none_iff, List.find?_eq_none]
      intro p hp
      simpa using hquiet.2 p hp
    · rw [GroupStream.readNew, hquiet.1]
      rfl
  simp only [step, Consumer.step, hpc, hok, if_true, hnone]
  rfl

/-- Polls that find nothing and do not reach the next sweep. -/
theorem run_quiet {inbox : Inbox} {consumerId : String} (hquiet : Quiet inbox consumerId)
    {ticks : List Consumer.Tick} (hok : ∀ tick ∈ ticks, tick.ok = true) {polls : Nat}
    (hpolls : polls + ticks.length < autoclaimInterval) (start : State) :
    (system agentId start).run ⟨inbox, ⟨consumerId, polls, .new, .read, []⟩⟩ (ticks.map .own) =
      some ⟨inbox, ⟨consumerId, polls + ticks.length, .new, .read, []⟩⟩ := by
  induction ticks generalizing polls with
  | nil => rfl
  | cons tick ticks ih =>
      have hlt : polls + 1 < autoclaimInterval := by
        simp only [List.length_cons] at hpolls
        omega
      have hread : Consumer.afterPoll (polls + 1) = .read := by
        rw [Consumer.afterPoll, Nat.mod_eq_of_lt hlt, if_neg (Nat.succ_ne_zero polls)]
      have hstep : step agentId ⟨inbox, ⟨consumerId, polls, .new, .read, []⟩⟩ (.own tick) =
          some ⟨inbox, ⟨consumerId, polls + 1, .new, .read, []⟩⟩ := by
        have hempty := @step_quiet agentId inbox ⟨consumerId, polls, .new, .read, []⟩ tick hquiet rfl
          (hok tick List.mem_cons_self)
        simp only [hread] at hempty
        exact hempty
      have hrest : polls + 1 + ticks.length < autoclaimInterval := by
        simp only [List.length_cons] at hpolls
        omega
      rw [List.map_cons, Transition.System.run_cons]
      show (step agentId _ (.own tick)).bind _ = _
      rw [hstep, Option.bind_some, ih (fun other hother => hok other (List.mem_cons_of_mem _ hother)) hrest]
      simp only [List.length_cons, Nat.add_assoc, Nat.add_comm 1]

/-- The polls from the start of a consumer to its first sweep. -/
theorem run_to_sweep {inbox : Inbox} {consumerId : String} (hquiet : Quiet inbox consumerId)
    {first last : Consumer.Tick} {ticks : List Consumer.Tick} (hfirst : first.ok = true)
    (hlast : last.ok = true) (hok : ∀ tick ∈ ticks, tick.ok = true)
    (hlength : ticks.length + 2 = autoclaimInterval) :
    (system agentId ⟨inbox, .spawn consumerId⟩).run ⟨inbox, .spawn consumerId⟩
        (.own first :: (ticks.map .own ++ [.own last])) =
      some ⟨inbox, ⟨consumerId, autoclaimInterval, .new, .claim, []⟩⟩ := by
  have hbegin : step agentId ⟨inbox, .spawn consumerId⟩ (.own first) =
      some ⟨inbox, ⟨consumerId, 1, .new, .read, []⟩⟩ := by
    rw [step_quiet hquiet rfl hfirst]
    rfl
  have hend : step agentId ⟨inbox, ⟨consumerId, 1 + ticks.length, .new, .read, []⟩⟩ (.own last) =
      some ⟨inbox, ⟨consumerId, autoclaimInterval, .new, .claim, []⟩⟩ := by
    rw [@step_quiet agentId inbox ⟨consumerId, 1 + ticks.length, .new, .read, []⟩ last hquiet rfl hlast]
    simp only [show 1 + ticks.length + 1 = autoclaimInterval by omega]
    rfl
  rw [Transition.System.run_cons]
  show (step agentId _ (.own first)).bind _ = _
  rw [hbegin, Option.bind_some, Transition.System.run_append, run_quiet hquiet hok (by omega),
    Option.bind_some, Transition.System.run_cons]
  show (step agentId _ (.own last)).bind _ = _
  rw [hend]
  rfl

private def spawned : State := ⟨orphaned, .spawn "a-7"⟩

private def atSweep : State := ⟨orphaned, ⟨"a-7", autoclaimInterval, .new, .claim, []⟩⟩

/-- The polls of the first five minutes, but for the first and the last: one every 200 ms. -/
private def quietPolls : List Consumer.Tick := (List.range' 1 1498).map fun i => ⟨200 * i, true, true⟩

theorem run_spawned : ∃ es, (system 7 spawned).run spawned es = some atSweep := by
  have hquiet : Quiet orphaned "a-7" := ⟨by decide +kernel, by decide +kernel⟩
  refine ⟨_, @run_to_sweep 7 orphaned "a-7" hquiet ⟨0, true, true⟩ ⟨299800, true, true⟩ quietPolls rfl rfl
    ?_ ?_⟩
  · intro tick htick
    obtain ⟨i, -, rfl⟩ := List.mem_map.mp htick
    rfl
  · rw [quietPolls, List.length_map, List.length_range']
    rfl

/-- A consumer starts, polls an inbox in which one entry is pending for another, claims it in its first
sweep, and polls on: the entry is not forwarded by the next poll, nor by any later one. -/
theorem claimed_orphan_is_never_forwarded :
    ∃ es s t, (system 7 spawned).run spawned es = some s ∧ Claimed 7 s t orphan ∧ outstanding s = 1 ∧
      (∃ u, (system 7 t).run t (List.replicate 3 ownStep) = some u ∧
        u.consumer.pollCount = s.consumer.pollCount + 1 ∧ u.consumer.sent = [] ∧ u.inbox.dlq = []) ∧
      ∀ more u, (system 7 t).run t more = some u →
        ¬ ForwardedSince s.consumer.sent.length orphan.id u.consumer.sent := by
  have hrun : (step 7 atSweep ownStep).any (fun t => t.consumer.pc = .judge [orphan] ∧
      ((system 7 t).run t (List.replicate 3 ownStep)).any (fun u =>
        u.consumer.pollCount = atSweep.consumer.pollCount + 1 ∧ u.consumer.sent = [] ∧
          u.inbox.dlq = [])) = true := by
    decide +kernel
  obtain ⟨t, hstep, ht⟩ := (Option.any_eq_true _ _).mp hrun
  obtain ⟨hpc, hend⟩ := of_decide_eq_true ht
  obtain ⟨u, hu, hpolled⟩ := (Option.any_eq_true _ _).mp hend
  have hclaimed : Claimed 7 atSweep t orphan :=
    ⟨rfl, ⟨_, hstep⟩, [orphan], hpc, List.mem_singleton_self _⟩
  obtain ⟨es, hes⟩ := run_spawned
  refine ⟨es, atSweep, t, hes, hclaimed, by decide +kernel, ⟨u, hu, of_decide_eq_true hpolled⟩, ?_⟩
  intro more v hv
  exact not_forwarded_of_new hclaimed rfl hv

end Recovery

end Overacp
