import Mathlib.Data.List.Forall2
import Overacp.Server.Redis.Recovery

/-!
# Draining an inbox

A consumer starts with what is pending for it, and at the first reply without entries goes over to what
has never been delivered. Each acknowledgement shortens the list it is reading. This module follows a
consumer that nobody disturbs from its start, while frames go on being delivered.
-/

namespace Overacp

open Redis

namespace Drain

open Recovery (State Event)

/-- An entry as `DELIVER_SCRIPT` writes it. -/
def Written (entry : Entry) : Prop := ∃ frame, entry.fields = Inbox.frameFields frame

/-- The consumer's commands succeed and its receiver is alive; other clients deliver frames. -/
def Calm : Event → Prop
  | .own tick => tick.ok = true ∧ tick.isOpen = true
  | .other (.xadd _ fields) => ∃ frame, fields = Inbox.frameFields frame
  | .other _ => False

/-- No sweep is carried out. -/
def NoSweep (s : State) : Event → State → Prop
  | .own _, _ => s.consumer.pc ≠ .claim
  | .other _, _ => True

instance (s : State) : ∀ (e : Event) (t : State), Decidable (NoSweep s e t)
  | .own _, _ => inferInstanceAs (Decidable (_ ≠ _))
  | .other _, _ => .isTrue trivial

/-- The stream as it would be if the consumer had not touched it. -/
def untouched (stream : GroupStream) : List Event → GroupStream
  | [] => stream
  | .own _ :: es => untouched stream es
  | .other eff :: es => untouched (stream.apply eff) es

def ownSteps (es : List Event) : Nat := es.countP fun
  | .own _ => true
  | .other _ => false

/-- The frames of the entries, in this order. -/
def Forwards (entries : List Entry) (sent : List (StreamId × String)) : Prop :=
  List.Forall₂ (fun entry line => entry.id = line.1 ∧ frameOf entry = some line.2) entries sent

/-- How far the consumer has got with a stream. -/
structure Forwarded (stream : GroupStream) (s : State) (done rest : List Entry) : Prop where
  split : stream.entries = done ++ rest
  sent : Forwards done s.consumer.sent
  ordered : (s.consumer.sent.map Prod.fst).Pairwise (· < ·)
  acked : ∀ entry ∈ done, s.consumer.pc ≠ .ack entry.id → entry.id ∉ s.inbox.stream.ids

/-- All of the stream was sent and acknowledged. -/
structure Drained (stream : GroupStream) (s : State) (done : List Entry) : Prop where
  sent : stream.entries <+: done
  acked : ∀ entry ∈ stream.entries, entry.id ∉ s.inbox.stream.ids

/-! ### The turns of a calm run -/

/-- What a step of the consumer can be while it is not disturbed. -/
inductive Turn (tick : Consumer.Tick) (s : State) : State → Prop where
  | found {entry : Entry} {stream : GroupStream} (hpc : s.consumer.pc = .read)
      (hread : s.consumer.readGroup s.inbox.stream tick.now = some (entry, stream)) :
      Turn tick s ⟨{ s.inbox with stream := stream },
        { s.consumer with pollCount := s.consumer.pollCount + 1, pc := .reply entry }⟩
  | empty (hpc : s.consumer.pc = .read) (hread : s.consumer.readGroup s.inbox.stream tick.now = none) :
      Turn tick s ⟨s.inbox, { s.consumer with
        pollCount := s.consumer.pollCount + 1, readId := .new,
        pc := Consumer.afterPoll (s.consumer.pollCount + 1) }⟩
  | sent {entry : Entry} {frame : String} (hpc : s.consumer.pc = .reply entry) (hframe : frameOf entry = some frame) :
      Turn tick s ⟨s.inbox, { s.consumer with
        pc := .ack entry.id, sent := s.consumer.sent ++ [(entry.id, frame)] }⟩
  | acked {id : StreamId} (hpc : s.consumer.pc = .ack id) :
      Turn tick s ⟨{ s.inbox with stream := s.inbox.stream.ack id },
        { s.consumer with pc := Consumer.afterPoll s.consumer.pollCount }⟩

/-- What is pending, what of it has not been sent, and what has, by what the consumer does next. -/
def Stage (pending unsent : List Pending) (done : List Entry) : ConsumerPc → Prop
  | .read | .claim => pending = unsent
  | .reply entry => pending = unsent ∧ ∃ p ps, unsent = p :: ps ∧ p.entry = entry
  | .ack id => ∃ p before, pending = p :: unsent ∧ p.id = id ∧ done = before ++ [p.entry]
  | _ => False

/-- An entry that has been read and not yet sent. -/
def inHand : ConsumerPc → Nat
  | .reply _ => 1
  | _ => 0

/-- An entry that has been sent and not yet acknowledged. -/
def acking : ConsumerPc → Nat
  | .ack _ => 1
  | _ => 0

/-- While it reads from `0` every poll takes one of the `n` entries, of which so many are unsent. -/
def Phase (n pollCount unsent hand : Nat) : ReadId → Prop
  | .zero => pollCount + unsent = n + hand
  | .new => n < pollCount ∧ unsent = hand

/-- A consumer in the middle of a calm run, the stream as it would be without it, and what of that it
has sent and what of it is pending unsent. -/
structure Draining (n : Nat) (stream : GroupStream) (s : State) (done : List Entry) (unsent : List Pending) :
    Prop where
  stage : Stage s.inbox.stream.pending unsent done s.consumer.pc
  phase : Phase n s.consumer.pollCount unsent.length (inHand s.consumer.pc) s.consumer.readId
  split : stream.entries = done ++ (unsent.map Pending.entry ++ s.inbox.stream.fresh)
  sent : Forwards done s.consumer.sent
  own : ∀ p ∈ s.inbox.stream.pending, p.consumer = s.consumer.consumerId
  text : ∀ entry ∈ stream.entries, IsText entry
  lastId : stream.lastId = s.inbox.stream.lastId

variable {agentId : Uuid} {n : Nat} {stream : GroupStream} {s t : State} {done : List Entry} {unsent : List Pending}

theorem isText_of_written {entry : Entry} (h : Written entry) : IsText entry := by
  obtain ⟨id, fields⟩ := entry
  obtain ⟨frame, rfl⟩ := h
  rw [IsText, frameOf_frameFields]
  rfl

theorem draining_start {inbox : Inbox} {consumerId : String} (hwritten : inbox.stream.Forall Written)
    (hown : ∀ p ∈ inbox.stream.pending, p.consumer = consumerId) :
    Draining inbox.stream.pending.length inbox.stream ⟨inbox, .spawn consumerId⟩ [] inbox.stream.pending where
  stage := rfl
  phase := Nat.zero_add _
  split := rfl
  sent := .nil
  own := hown
  text := fun entry hentry => isText_of_written (hwritten.entries entry hentry)
  lastId := rfl

/-- An undisturbed consumer is not stuck. -/
theorem turn_of_calm {tick : Consumer.Tick} (h : Draining n stream s done unsent) (hcalm : Calm (.own tick))
    (hclaim : s.consumer.pc ≠ .claim) : ∃ t, Recovery.step agentId s (.own tick) = some t ∧ Turn tick s t := by
  obtain ⟨inbox, c⟩ := s
  obtain ⟨hok, hopen⟩ := hcalm
  have hstage : Stage inbox.stream.pending unsent done c.pc := h.stage
  unfold Recovery.step Consumer.step
  cases hpc : c.pc with
  | read =>
      simp only [hok, if_true]
      cases hread : c.readGroup inbox.stream tick.now with
      | some r => exact ⟨_, rfl, .found hpc hread⟩
      | none => exact ⟨_, rfl, .empty hpc hread⟩
  | reply entry =>
      rw [hpc] at hstage
      obtain ⟨-, p, ps, rfl, rfl⟩ := hstage
      have htext : IsText p.entry := h.text p.entry (by
        rw [h.split]
        exact List.mem_append_right _ (List.mem_append_left _ List.mem_cons_self))
      obtain ⟨frame, hframe⟩ := Option.isSome_iff_exists.mp htext
      simp only [hframe, hopen, if_true]
      exact ⟨_, rfl, .sent hpc hframe⟩
  | ack id =>
      simp only [hok, if_true]
      exact ⟨_, rfl, .acked hpc⟩
  | claim => exact absurd hpc hclaim
  | judge | bury | buryAck | stopped =>
      rw [hpc] at hstage
      exact hstage.elim

/-! ### What a turn keeps -/

theorem stage_afterPoll {pending : List Pending} (pollCount : Nat) :
    Stage pending pending done (Consumer.afterPoll pollCount) := by
  rcases Consumer.afterPoll_cases pollCount with hclaim | hread
  · rw [hclaim]
    rfl
  · rw [hread]
    rfl

theorem inHand_afterPoll (pollCount : Nat) :
    inHand (Consumer.afterPoll pollCount) = 0 ∧ acking (Consumer.afterPoll pollCount) = 0 := by
  rcases Consumer.afterPoll_cases pollCount with hclaim | hread
  · rw [hclaim]
    exact ⟨rfl, rfl⟩
  · rw [hread]
    exact ⟨rfl, rfl⟩

/-- A poll from `0` that finds an entry takes the first pending one. -/
theorem draining_found_zero {inbox : Inbox} {c : Consumer} {tick : Consumer.Tick} {entry : Entry}
    {stream' : GroupStream} (h : Draining n stream ⟨inbox, c⟩ done unsent) (hpc : c.pc = .read)
    (hzero : c.readId = .zero) (hread : inbox.stream.readPending c.consumerId tick.now = some (entry, stream')) :
    ∃ unsent', Draining n stream ⟨{ inbox with stream := stream' },
      { c with pollCount := c.pollCount + 1, pc := .reply entry }⟩ done unsent' := by
  obtain ⟨hstage, hphase, hsplit, hsent, hown, htext, hlastId⟩ := h
  obtain rfl : inbox.stream.pending = unsent := by
    rw [hpc] at hstage
    exact hstage
  have hcount : c.pollCount + inbox.stream.pending.length = n := by
    rw [hpc, hzero] at hphase
    exact hphase
  cases hpending : inbox.stream.pending with
  | nil =>
      rw [GroupStream.readPending, hpending] at hread
      cases hread
  | cons p ps =>
      have hconsumer : p.consumer = c.consumerId := hown p (by rw [hpending]; exact List.mem_cons_self)
      rw [← hconsumer, GroupStream.readPending_cons hpending] at hread
      cases hread
      have hentries := inbox.stream.map_entry_redeliver [p.id] p.consumer tick.now
      refine ⟨(inbox.stream.redeliver [p.id] p.consumer tick.now).pending, ⟨rfl, ?_⟩, ?_, ?_, hsent, ?_, htext, hlastId⟩
      · rw [hpending, List.map_cons] at hentries
        obtain ⟨q, qs, hq, hqp, -⟩ := List.map_eq_cons_iff.mp hentries
        exact ⟨q, qs, hq, hqp⟩
      · have hlength := congrArg List.length hentries
        rw [List.length_map, List.length_map] at hlength
        rw [hlength, hzero]
        show c.pollCount + 1 + inbox.stream.pending.length = n + 1
        omega
      · rw [hentries]
        exact hsplit
      · rw [hconsumer]
        exact GroupStream.own_redeliver hown [p.id] tick.now

/-- A poll from `>` that finds an entry makes it the only pending one. -/
theorem draining_found_new {inbox : Inbox} {c : Consumer} {tick : Consumer.Tick} {entry : Entry}
    {stream' : GroupStream} (h : Draining n stream ⟨inbox, c⟩ done unsent) (hpc : c.pc = .read)
    (hnew : c.readId = .new) (hread : inbox.stream.readNew c.consumerId tick.now = some (entry, stream')) :
    ∃ unsent', Draining n stream ⟨{ inbox with stream := stream' },
      { c with pollCount := c.pollCount + 1, pc := .reply entry }⟩ done unsent' := by
  obtain ⟨hstage, hphase, hsplit, hsent, hown, htext, hlastId⟩ := h
  obtain rfl : inbox.stream.pending = unsent := by
    rw [hpc] at hstage
    exact hstage
  obtain ⟨hcount, hlength⟩ : n < c.pollCount ∧ inbox.stream.pending.length = 0 := by
    rw [hpc, hnew] at hphase
    exact hphase
  cases hfresh : inbox.stream.fresh with
  | nil =>
      rw [GroupStream.readNew, hfresh] at hread
      cases hread
  | cons e es =>
      rw [GroupStream.readNew_cons hfresh] at hread
      cases hread
      have hpending := GroupStream.pending_deliverFresh_cons hfresh c.consumerId tick.now
      rw [List.eq_nil_of_length_eq_zero hlength, List.nil_append] at hpending
      refine ⟨[⟨entry, c.consumerId, tick.now, 1⟩], ⟨hpending, _, _, rfl, rfl⟩, ?_, ?_, hsent, ?_, htext, hlastId⟩
      · rw [hnew]
        exact ⟨Nat.lt_succ_of_lt hcount, rfl⟩
      · rw [hsplit, List.eq_nil_of_length_eq_zero hlength]
        show done ++ inbox.stream.fresh = done ++ ([entry] ++ (inbox.stream.deliverFresh c.consumerId tick.now).fresh)
        rw [GroupStream.fresh_deliverFresh_cons hfresh, hfresh]
        rfl
      · show ∀ p ∈ (inbox.stream.deliverFresh c.consumerId tick.now).pending, p.consumer = c.consumerId
        rw [hpending]
        intro p hp
        rw [List.mem_singleton.mp hp]

/-- A poll that finds nothing. -/
theorem pending_of_empty {now : Nat} (h : Draining n stream s done unsent) (hpc : s.consumer.pc = .read)
    (hread : s.consumer.readGroup s.inbox.stream now = none) : s.inbox.stream.pending = [] ∧ unsent = [] := by
  obtain ⟨hstage, hphase, -, -, hown, -, -⟩ := h
  rw [hpc] at hstage hphase
  have hunsent : s.inbox.stream.pending = unsent := hstage
  rw [← hunsent, and_self]
  unfold Consumer.readGroup at hread
  cases hreadId : s.consumer.readId with
  | zero =>
      simp only [hreadId] at hread
      cases hpending : s.inbox.stream.pending with
      | nil => rfl
      | cons p ps =>
          have hconsumer : p.consumer = s.consumer.consumerId := hown p (by rw [hpending]; exact List.mem_cons_self)
          rw [← hconsumer, GroupStream.readPending_cons hpending] at hread
          cases hread
  | new =>
      rw [hreadId, ← hunsent] at hphase
      exact List.eq_nil_of_length_eq_zero hphase.2

/-- A poll from `>` that finds nothing has nothing left to find. -/
theorem done_of_empty {now : Nat} (h : Draining n stream s done unsent) (hpc : s.consumer.pc = .read)
    (hnew : s.consumer.readId = .new) (hread : s.consumer.readGroup s.inbox.stream now = none) :
    stream.entries = done := by
  have hunsent := (pending_of_empty h hpc hread).2
  rw [Consumer.readGroup, hnew] at hread
  rw [h.split, hunsent]
  cases hfresh : s.inbox.stream.fresh with
  | nil => exact List.append_nil done
  | cons e es =>
      have hsome := GroupStream.readNew_cons hfresh s.consumer.consumerId now
      cases hread.symm.trans hsome

theorem draining_empty {now : Nat} (h : Draining n stream s done unsent) (hpc : s.consumer.pc = .read)
    (hread : s.consumer.readGroup s.inbox.stream now = none) :
    Draining n stream ⟨s.inbox, { s.consumer with
      pollCount := s.consumer.pollCount + 1, readId := .new,
      pc := Consumer.afterPoll (s.consumer.pollCount + 1) }⟩ done [] := by
  obtain ⟨hpending, rfl⟩ := pending_of_empty h hpc hread
  obtain ⟨-, hphase, hsplit, hsent, hown, htext, hlastId⟩ := h
  have hcount : n < s.consumer.pollCount + 1 := by
    rw [hpc] at hphase
    cases hreadId : s.consumer.readId with
    | zero =>
        rw [hreadId] at hphase
        have hzero : s.consumer.pollCount + 0 = n + 0 := hphase
        omega
    | new =>
        rw [hreadId] at hphase
        exact Nat.lt_succ_of_lt hphase.1
  refine ⟨?_, ?_, hsplit, hsent, hown, htext, hlastId⟩
  · show Stage s.inbox.stream.pending [] done (Consumer.afterPoll (s.consumer.pollCount + 1))
    rw [hpending]
    exact stage_afterPoll _
  · exact ⟨hcount, (inHand_afterPoll _).1.symm⟩

theorem draining_sent {entry : Entry} {frame : String} (h : Draining n stream s done unsent)
    (hpc : s.consumer.pc = .reply entry) (hframe : frameOf entry = some frame) :
    ∃ unsent', Draining n stream ⟨s.inbox, { s.consumer with
      pc := .ack entry.id, sent := s.consumer.sent ++ [(entry.id, frame)] }⟩ (done ++ [entry]) unsent' := by
  obtain ⟨hstage, hphase, hsplit, hsent, hown, htext, hlastId⟩ := h
  rw [hpc] at hstage hphase
  obtain ⟨hpending, p, ps, rfl, rfl⟩ := hstage
  have hforwards : Forwards (done ++ [p.entry]) (s.consumer.sent ++ [(p.entry.id, frame)]) :=
    List.rel_append hsent (.cons ⟨rfl, hframe⟩ .nil)
  refine ⟨ps, ⟨p, done, hpending, rfl, rfl⟩, ?_, ?_, hforwards, hown, htext, hlastId⟩
  · show Phase n s.consumer.pollCount ps.length 0 s.consumer.readId
    cases hreadId : s.consumer.readId with
    | zero =>
        rw [hreadId] at hphase
        have hzero : s.consumer.pollCount + (ps.length + 1) = n + 1 := hphase
        show s.consumer.pollCount + ps.length = n
        omega
    | new =>
        rw [hreadId] at hphase
        exact ⟨hphase.1, Nat.succ.inj hphase.2⟩
  · rw [hsplit, List.map_cons, List.append_assoc]
    rfl

theorem draining_acked {id : StreamId} (h : Draining n stream s done unsent) (hpc : s.consumer.pc = .ack id) :
    Draining n stream ⟨{ s.inbox with stream := s.inbox.stream.ack id },
      { s.consumer with pc := Consumer.afterPoll s.consumer.pollCount }⟩ done unsent := by
  obtain ⟨hstage, hphase, hsplit, hsent, hown, htext, hlastId⟩ := h
  rw [hpc] at hstage hphase
  obtain ⟨p, before, hpending, rfl, -⟩ := hstage
  have hacked := GroupStream.pending_ack_cons hpending
  refine ⟨?_, ?_, hsplit, hsent, ?_, htext, hlastId⟩
  · show Stage (s.inbox.stream.ack p.id).pending unsent done (Consumer.afterPoll s.consumer.pollCount)
    rw [hacked]
    exact stage_afterPoll _
  · rw [(inHand_afterPoll _).1]
    exact hphase
  · intro q hq
    exact hown q (List.mem_of_mem_filter hq)

theorem draining_turn {tick : Consumer.Tick} (h : Draining n stream s done unsent) (hturn : Turn tick s t) :
    ∃ done' unsent', Draining n stream t done' unsent' := by
  cases hturn with
  | @found entry stream' hpc hread =>
      unfold Consumer.readGroup at hread
      cases hreadId : s.consumer.readId with
      | zero =>
          simp only [hreadId] at hread
          exact ⟨done, draining_found_zero h hpc hreadId hread⟩
      | new =>
          simp only [hreadId] at hread
          exact ⟨done, draining_found_new h hpc hreadId hread⟩
  | empty hpc hread => exact ⟨done, [], draining_empty h hpc hread⟩
  | sent hpc hframe => exact ⟨_, draining_sent h hpc hframe⟩
  | acked hpc => exact ⟨done, unsent, draining_acked h hpc⟩

/-- A frame that is delivered comes last. -/
theorem draining_other {eff : GroupStream.Effect} (h : Draining n stream s done unsent) (hcalm : Calm (.other eff)) :
    Draining n (stream.apply eff) { s with inbox := { s.inbox with stream := s.inbox.stream.apply eff } } done
      unsent := by
  cases eff with
  | xadd now fields =>
      obtain ⟨frame, rfl⟩ := hcalm
      obtain ⟨hstage, hphase, hsplit, hsent, hown, htext, hlastId⟩ := h
      have hentries := stream.entries_xadd now (Inbox.frameFields frame)
      refine ⟨hstage, hphase, ?_, hsent, hown, ?_, ?_⟩
      · show (stream.xadd now (Inbox.frameFields frame)).entries = _
        rw [hentries, hsplit, hlastId, List.append_assoc, List.append_assoc]
        rfl
      · intro entry hentry
        rcases List.mem_append.mp (hentries ▸ hentry) with hold | hnew
        · exact htext entry hold
        · rw [List.mem_singleton.mp hnew]
          exact isText_of_written ⟨frame, rfl⟩
      · show GroupStream.nextId stream.lastId now = GroupStream.nextId s.inbox.stream.lastId now
        rw [hlastId]
  | deliverFresh | redeliver | ack => exact hcalm.elim

/-! ### How long it takes -/

def zeroReads : ReadId → Nat
  | .zero => 1
  | .new => 0

/-- A poll is at most three steps. -/
def Paced (steps : Nat) (s : State) : Prop :=
  steps + 2 * inHand s.consumer.pc + acking s.consumer.pc ≤ 3 * s.consumer.pollCount

/-- Of the stream the first `goal` entries have been sent and acknowledged. -/
def CaughtUp (goal : Nat) (s : State) : Prop := goal + acking s.consumer.pc ≤ s.consumer.sent.length

/-- Before the consumer has caught up, the steps it still needs are within the budget. -/
def InTime (goal budget steps : Nat) (s : State) : Prop :=
  CaughtUp goal s ∨ steps + 3 * goal + zeroReads s.consumer.readId + 2 * inHand s.consumer.pc + acking s.consumer.pc ≤
    budget + 3 * (s.consumer.sent.length + inHand s.consumer.pc)

theorem paced_turn {tick : Consumer.Tick} {steps : Nat} (h : Paced steps s) (hturn : Turn tick s t) :
    Paced (steps + 1) t := by
  unfold Paced at h ⊢
  cases hturn with
  | found hpc hread =>
      simp only [hpc, inHand, acking] at h ⊢
      omega
  | empty hpc hread =>
      simp only [hpc, inHand, acking] at h
      simp only [inHand_afterPoll]
      omega
  | sent hpc hframe =>
      simp only [hpc, inHand, acking] at h ⊢
      omega
  | acked hpc =>
      simp only [hpc, inHand, acking] at h
      simp only [inHand_afterPoll]
      omega

theorem length_sent (h : Draining n stream s done unsent) : s.consumer.sent.length = done.length :=
  (List.Forall₂.length_eq h.sent).symm

theorem inTime_turn {tick : Consumer.Tick} {goal budget steps : Nat} (hdraining : Draining n stream s done unsent)
    (hgoal : goal ≤ stream.entries.length) (h : InTime goal budget steps s) (hturn : Turn tick s t) :
    InTime goal budget (steps + 1) t := by
  unfold InTime CaughtUp at h ⊢
  cases hturn with
  | found hpc hread =>
      simp only [hpc, inHand, acking] at h ⊢
      omega
  | empty hpc hread =>
      simp only [hpc, inHand, acking] at h
      simp only [inHand_afterPoll, zeroReads]
      cases hreadId : s.consumer.readId with
      | zero =>
          simp only [hreadId, zeroReads] at h
          omega
      | new =>
          have hdone := done_of_empty hdraining hpc hreadId hread
          have hlength := length_sent hdraining
          rw [hdone] at hgoal
          omega
  | sent hpc hframe =>
      simp only [hpc, inHand, acking, List.length_append, List.length_singleton] at h ⊢
      omega
  | acked hpc =>
      simp only [hpc, inHand, acking] at h
      simp only [inHand_afterPoll]
      omega

/-! ### Calm runs -/

theorem entries_prefix_untouched (stream : GroupStream) {es : List Event} (hcalm : ∀ e ∈ es, Calm e) :
    stream.entries <+: (untouched stream es).entries := by
  induction es generalizing stream with
  | nil => exact List.prefix_rfl
  | cons e es ih =>
      obtain ⟨hfirst, hrest⟩ := List.forall_mem_cons.mp hcalm
      cases e with
      | own tick => exact ih stream hrest
      | other eff =>
          refine List.IsPrefix.trans ?_ (ih (stream.apply eff) hrest)
          cases eff with
          | xadd now fields =>
              show stream.entries <+: (stream.xadd now fields).entries
              rw [GroupStream.entries_xadd]
              exact List.prefix_append _ _
          | deliverFresh | redeliver | ack => exact hfirst.elim

theorem untouched_append (stream : GroupStream) (es more : List Event) :
    untouched stream (es ++ more) = untouched (untouched stream es) more := by
  induction es generalizing stream with
  | nil => rfl
  | cons e es ih =>
      cases e with
      | own tick => exact ih stream
      | other eff => exact ih (stream.apply eff)

/-- A sweep that is due would be carried out. -/
theorem pc_ne_claim {start : State} {tick : Consumer.Tick} {es : List Event} (hok : tick.ok = true)
    (hsweep : (Recovery.system agentId start).EveryStep NoSweep s (.own tick :: es)) : s.consumer.pc ≠ .claim := by
  intro hpc
  have hstep : ∃ t, Recovery.step agentId s (.own tick) = some t := by
    unfold Recovery.step Consumer.step
    simp only [hpc, hok, if_true]
    exact ⟨_, rfl⟩
  obtain ⟨t, ht⟩ := hstep
  exact (hsweep t ht).1 hpc

theorem ownSteps_own (tick : Consumer.Tick) (es : List Event) : ownSteps (.own tick :: es) = ownSteps es + 1 :=
  List.countP_cons_of_pos rfl

theorem ownSteps_other (eff : GroupStream.Effect) (es : List Event) : ownSteps (.other eff :: es) = ownSteps es :=
  List.countP_cons_of_neg Bool.false_ne_true

/-- A calm run does not get stuck, and keeps order and time. -/
theorem run_calm {start : State} {es : List Event} {goal budget steps total : Nat}
    (h : Draining n stream s done unsent) (hgoal : goal ≤ stream.entries.length) (hpaced : Paced total s)
    (hintime : InTime goal budget steps s) (hcalm : ∀ e ∈ es, Calm e)
    (hsweep : (Recovery.system agentId start).EveryStep NoSweep s es) :
    ∃ t done' unsent', (Recovery.system agentId start).run s es = some t ∧
      Draining n (untouched stream es) t done' unsent' ∧ Paced (total + ownSteps es) t ∧
      InTime goal budget (steps + ownSteps es) t := by
  induction es generalizing s stream done unsent steps total with
  | nil => exact ⟨s, done, unsent, rfl, h, hpaced, hintime⟩
  | cons e es ih =>
      obtain ⟨hfirst, hrest⟩ := List.forall_mem_cons.mp hcalm
      cases e with
      | own tick =>
          have hclaim := pc_ne_claim hfirst.1 hsweep
          obtain ⟨t, hstep, hturn⟩ := turn_of_calm h hfirst hclaim
          obtain ⟨done', unsent', hdraining⟩ := draining_turn h hturn
          obtain ⟨u, done'', unsent'', hrun, hend, hpaced', hintime'⟩ := ih hdraining hgoal (paced_turn hpaced hturn)
            (inTime_turn h hgoal hintime hturn) hrest (hsweep t hstep).2
          refine ⟨u, done'', unsent'', ?_, hend, ?_, ?_⟩
          · rw [Transition.System.run_cons_eq_some]
            exact ⟨t, hstep, hrun⟩
          · rw [ownSteps_own, Nat.add_comm (ownSteps es), ← Nat.add_assoc]
            exact hpaced'
          · rw [ownSteps_own, Nat.add_comm (ownSteps es), ← Nat.add_assoc]
            exact hintime'
      | other eff =>
          have hlonger := List.IsPrefix.length_le (@entries_prefix_untouched stream [.other eff]
            (List.forall_mem_singleton.mpr hfirst))
          obtain ⟨u, done', unsent', hrun, hend, hpaced', hintime'⟩ := ih (draining_other h hfirst)
            (Nat.le_trans hgoal hlonger) hpaced hintime hrest (hsweep _ rfl).2
          refine ⟨u, done', unsent', hrun, hend, ?_, ?_⟩
          · rw [ownSteps_other]
            exact hpaced'
          · rw [ownSteps_other]
            exact hintime'

/-! ### What a calm run has done -/

theorem map_fst_of_forwards {entries : List Entry} {sent : List (StreamId × String)} (h : Forwards entries sent) :
    sent.map Prod.fst = entries.map Entry.id := by
  induction h with
  | nil => rfl
  | cons hline _ ih => rw [List.map_cons, List.map_cons, ih, hline.1]

/-- Sent entries come before the others, and are pending at most while they are acknowledged. -/
theorem not_mem_ids_of_done (h : Draining n stream s done unsent) {entry : Entry} (hentry : entry ∈ done)
    (hack : s.consumer.pc ≠ .ack entry.id) : entry.id ∉ s.inbox.stream.ids := by
  have hsorted := stream.entries_sorted
  rw [h.split, List.map_append, List.map_append, List.map_map] at hsorted
  have hbefore := (List.pairwise_append.mp hsorted).2.2 entry.id (List.mem_map_of_mem hentry)
  have hrest : entry.id ∉ unsent.map Pending.id ++ s.inbox.stream.fresh.map Entry.id :=
    fun hmem => lt_irrefl _ (hbefore entry.id hmem)
  have hstage := h.stage
  unfold GroupStream.ids
  cases hpc : s.consumer.pc with
  | read | claim =>
      rw [hpc] at hstage
      rw [show s.inbox.stream.pending = unsent from hstage]
      exact hrest
  | reply other =>
      rw [hpc] at hstage
      rw [hstage.1]
      exact hrest
  | ack id =>
      rw [hpc] at hstage
      obtain ⟨p, before, hpending, rfl, -⟩ := hstage
      rw [hpending]
      intro hmem
      rcases List.mem_cons.mp hmem with hsame | hother
      · exact hack (by rw [hpc, hsame])
      · exact hrest hother
  | judge | bury | buryAck | stopped =>
      rw [hpc] at hstage
      exact hstage.elim

theorem forwarded_of_draining (h : Draining n stream s done unsent) :
    Forwarded stream s done (unsent.map Pending.entry ++ s.inbox.stream.fresh) where
  split := h.split
  sent := h.sent
  ordered := by
    have hsorted := stream.entries_sorted
    rw [h.split, List.map_append] at hsorted
    rw [map_fst_of_forwards h.sent]
    exact (List.pairwise_append.mp hsorted).1
  acked := fun _ hentry hack => not_mem_ids_of_done h hentry hack

theorem readId_zero_iff (h : Draining n stream s done unsent) :
    s.consumer.readId = .zero ↔ s.consumer.pollCount ≤ n := by
  have hphase := h.phase
  cases hreadId : s.consumer.readId with
  | zero =>
      rw [hreadId] at hphase
      have hcount : s.consumer.pollCount + unsent.length = n + inHand s.consumer.pc := hphase
      have hhand : inHand s.consumer.pc ≤ unsent.length := by
        have hstage := h.stage
        cases hpc : s.consumer.pc with
        | reply entry =>
            rw [hpc] at hstage
            obtain ⟨-, p, ps, rfl, -⟩ := hstage
            exact Nat.succ_le_succ (Nat.zero_le _)
        | read | ack | claim | judge | bury | buryAck | stopped => exact Nat.zero_le _
      exact iff_of_true rfl (by omega)
  | new =>
      rw [hreadId] at hphase
      exact iff_of_false nofun (Nat.not_le_of_lt hphase.1)

theorem drained_of_caughtUp {earlier : GroupStream} (h : Draining n stream s done unsent)
    (hearlier : earlier.entries <+: stream.entries) (hcaught : CaughtUp earlier.entries.length s) :
    Drained earlier s done := by
  have hlength := length_sent h
  unfold CaughtUp at hcaught
  have hwhole : done <+: stream.entries := by
    rw [h.split]
    exact List.prefix_append _ _
  have hdone : earlier.entries <+: done := List.prefix_of_prefix_length_le hearlier hwhole (by omega)
  refine ⟨hdone, fun entry hentry => not_mem_ids_of_done h (hdone.subset hentry) ?_⟩
  -- what is being acknowledged was sent last, and so is none of the earlier entries
  intro hpc
  have hstage := h.stage
  rw [hpc] at hstage hcaught
  obtain ⟨p, before, -, hid, rfl⟩ := hstage
  have hacking : earlier.entries.length + 1 ≤ s.consumer.sent.length := hcaught
  rw [List.length_append, List.length_singleton] at hlength
  have hbefore : earlier.entries <+: before :=
    List.prefix_of_prefix_length_le hdone (List.prefix_append _ _) (by omega)
  have hsorted := (forwarded_of_draining h).ordered
  rw [map_fst_of_forwards h.sent, List.map_append] at hsorted
  have hlt := (List.pairwise_append.mp hsorted).2.2 entry.id (List.mem_map_of_mem (hbefore.subset hentry)) p.entry.id
    List.mem_cons_self
  exact absurd hid (ne_of_gt hlt)

theorem length_pending (h : Draining n stream s done unsent) :
    s.inbox.stream.pending.length = unsent.length + acking s.consumer.pc := by
  have hstage := h.stage
  cases hpc : s.consumer.pc with
  | read | claim =>
      rw [hpc] at hstage
      exact congrArg List.length hstage
  | reply entry =>
      rw [hpc] at hstage
      exact congrArg List.length hstage.1
  | ack id =>
      rw [hpc] at hstage
      obtain ⟨p, before, hpending, -⟩ := hstage
      exact congrArg List.length hpending
  | judge | bury | buryAck | stopped =>
      rw [hpc] at hstage
      exact hstage.elim

theorem inHand_add_acking (pc : ConsumerPc) : inHand pc + acking pc ≤ 1 := by
  cases pc with
  | reply | ack => exact Nat.le_refl 1
  | read | claim | judge | bury | buryAck | stopped => exact Nat.zero_le 1

/-- Three steps for every entry the group is not done with, and one to go over to what is new. -/
theorem inTime_self (h : Draining n stream s done unsent) :
    InTime stream.entries.length (3 * s.inbox.stream.entries.length + 1) 0 s := by
  right
  have hlength := length_sent h
  have hpending := length_pending h
  have hone := inHand_add_acking s.consumer.pc
  have hzero : zeroReads s.consumer.readId ≤ 1 := by
    cases s.consumer.readId <;> decide
  have hentries : s.inbox.stream.entries.length = s.inbox.stream.pending.length + s.inbox.stream.fresh.length := by
    rw [GroupStream.entries, List.length_append, List.length_map]
  rw [h.split, List.length_append, List.length_append, List.length_map]
  omega

theorem caughtUp_of_inTime {goal budget steps : Nat} (h : InTime goal budget steps s) (hsteps : budget ≤ steps) :
    CaughtUp goal s := by
  have hone := inHand_add_acking s.consumer.pc
  unfold InTime CaughtUp at h
  unfold CaughtUp
  omega

/-- A consumer starts on an inbox in which it alone has entries pending, and is not disturbed while frames
go on being delivered. At every time it has sent the entries in the order of the stream, the pending ones
first and each once, and acknowledged them; it reads from `0` for as many polls as entries were pending, and
not in the next one; and it needs three steps for an entry. -/
theorem drains_in_order {agentId : Uuid} {inbox : Inbox} {consumerId : String} {es more : List Event}
    (hwritten : inbox.stream.Forall Written) (hown : ∀ p ∈ inbox.stream.pending, p.consumer = consumerId)
    (hcalm : ∀ e ∈ es ++ more, Calm e)
    (hsweep : (Recovery.system agentId ⟨inbox, .spawn consumerId⟩).EveryStep NoSweep ⟨inbox, .spawn consumerId⟩
      (es ++ more)) :
    ∃ s t done rest,
      (Recovery.system agentId ⟨inbox, .spawn consumerId⟩).run ⟨inbox, .spawn consumerId⟩ es = some s ∧
      (Recovery.system agentId ⟨inbox, .spawn consumerId⟩).run s more = some t ∧
      Forwarded (untouched inbox.stream (es ++ more)) t done rest ∧
      (t.consumer.readId = .zero ↔ t.consumer.pollCount ≤ inbox.stream.pending.length) ∧
      ownSteps (es ++ more) ≤ 3 * t.consumer.pollCount ∧
      (3 * s.inbox.stream.entries.length + 1 ≤ ownSteps more → Drained (untouched inbox.stream es) t done) := by
  have hcalmEs : ∀ e ∈ es, Calm e := fun e he => hcalm e (List.mem_append_left _ he)
  have hcalmMore : ∀ e ∈ more, Calm e := fun e he => hcalm e (List.mem_append_right _ he)
  obtain ⟨hsweepEs, hsweepMore⟩ := hsweep.of_append
  have hpacedStart : Paced 0 ⟨inbox, .spawn consumerId⟩ := Nat.le_refl 0
  have hintimeStart : InTime 0 0 0 ⟨inbox, .spawn consumerId⟩ := .inl (Nat.le_refl 0)
  obtain ⟨s, done, unsent, hrun, hmid, hpaced, -⟩ := run_calm (draining_start hwritten hown) (Nat.zero_le _)
    hpacedStart hintimeStart hcalmEs hsweepEs
  obtain ⟨t, done', unsent', hrun', hend, hpaced', hintime⟩ := run_calm hmid (Nat.le_refl _) hpaced (inTime_self hmid)
    hcalmMore (hsweepMore s hrun)
  rw [← untouched_append] at hend
  refine ⟨s, t, done', _, hrun, hrun', forwarded_of_draining hend, readId_zero_iff hend, ?_, ?_⟩
  · have hsteps : ownSteps (es ++ more) = 0 + ownSteps es + ownSteps more := by
      rw [Nat.zero_add]
      exact List.countP_append
    unfold Paced at hpaced'
    omega
  · intro hsteps
    refine drained_of_caughtUp hend ?_ (caughtUp_of_inTime hintime (by omega))
    rw [untouched_append]
    exact entries_prefix_untouched _ hcalmMore

/-- A frame that was delivered to the consumer and one that was not. -/
private def waiting : Inbox :=
  ⟨((GroupStream.empty.xadd 1 (Inbox.frameFields "hi")).deliverFresh "a-7" 5).xadd 6 (Inbox.frameFields "yo"), []⟩

/-- The first poll, and a delivery before its frame is sent. -/
private def firstPoll : List Event := [.own ⟨7, true, true⟩, .other (.xadd 8 (Inbox.frameFields "so"))]

private def nextPolls : List Event := List.replicate 10 (.own ⟨9, true, true⟩)

theorem drains_in_order_three :
    ∃ s t done rest, (Recovery.system 7 ⟨waiting, .spawn "a-7"⟩).run ⟨waiting, .spawn "a-7"⟩ firstPoll = some s ∧
      (Recovery.system 7 ⟨waiting, .spawn "a-7"⟩).run s nextPolls = some t ∧
      Forwarded (untouched waiting.stream (firstPoll ++ nextPolls)) t done rest ∧
      Drained (untouched waiting.stream firstPoll) t done := by
  have hwritten : waiting.stream.Forall Written :=
    GroupStream.forall_xadd (@GroupStream.forall_apply _ _ (.deliverFresh "a-7" 5)
      (GroupStream.forall_xadd ⟨nofun, nofun⟩ ⟨"hi", rfl⟩) nofun) ⟨"yo", rfl⟩
  have hcalm : ∀ e ∈ firstPoll ++ nextPolls, Calm e := by
    intro e he
    rcases List.mem_append.mp he with hfirst | hnext
    · rcases List.mem_cons.mp hfirst with rfl | hother
      · exact ⟨rfl, rfl⟩
      · obtain rfl := List.mem_singleton.mp hother
        exact ⟨"so", rfl⟩
    · obtain rfl := List.eq_of_mem_replicate hnext
      exact ⟨rfl, rfl⟩
  obtain ⟨s, t, done, rest, hrun, hrun', hforwarded, -, -, hdrained⟩ :=
    @drains_in_order 7 waiting "a-7" firstPoll nextPolls hwritten (by decide +kernel) hcalm (by decide +kernel)
  refine ⟨s, t, done, rest, hrun, hrun', hforwarded, hdrained ?_⟩
  have hthree : ((Recovery.system 7 ⟨waiting, .spawn "a-7"⟩).run ⟨waiting, .spawn "a-7"⟩ firstPoll).any
      (fun s => s.inbox.stream.entries.length = 3) = true := by decide +kernel
  rw [hrun] at hthree
  rw [show s.inbox.stream.entries.length = 3 from of_decide_eq_true hthree]
  exact Nat.le_refl 10

end Drain

end Overacp
