import Mathlib.Data.List.Nodup
import Overacp.Server.Redis.Recovery

/-!
# What is acknowledged has arrived somewhere

An entry that is acknowledged is gone for the group. It may be so for two reasons: its frame was sent
to the local channel, or it was appended to the dead letters. The consumer does not look at the
answers to most of its commands; this module follows every pattern of their success and failure, among
any commands of other clients.
-/

namespace Overacp

open Redis

namespace DeadLetter

/-- A consumer and its inbox, and whether the consumer's last command succeeded. -/
structure Noted where
  state : Recovery.State
  lastOk : Bool

def step (agentId : Uuid) (s : Noted) (e : Recovery.Event) : Option Noted :=
  (Recovery.step agentId s.state e).map fun state =>
    ⟨state, match e with
      | .own tick => tick.ok
      | .other _ => s.lastOk⟩

def system (agentId : Uuid) (start : Noted) : Transition.System Noted Recovery.Event := ⟨start, step agentId⟩

/-- The start of a consumer on an inbox. -/
def start (inbox : Inbox) (consumerId : String) : Noted := ⟨⟨inbox, .spawn consumerId⟩, true⟩

/-- The entry was sent, or recorded as a dead letter. -/
def Settled (agentId : Uuid) (s : Recovery.State) (entry : Entry) : Prop :=
  entry.id ∈ s.consumer.sent.map Prod.fst ∨ ∃ count, Consumer.deadLetter agentId entry count ∈ s.inbox.dlq

/-- The consumer takes an entry off the pending list only when it is settled. -/
def LeavesSettled (agentId : Uuid) (s : Noted) (e : Recovery.Event) (t : Noted) : Prop :=
  ∀ tick, e = .own tick → ∀ p ∈ s.state.inbox.stream.pending,
    p.id ∉ t.state.inbox.stream.pending.map Pending.id → Settled agentId s.state p.entry

/-- Where the `XACK` of a sweep succeeds, so did the `XADD` before it. -/
def Recorded (s : Noted) (e : Recovery.Event) (_ : Noted) : Prop :=
  match e, s.state.consumer.pc with
  | .own tick, .buryAck _ _ => tick.ok = true → s.lastOk = true
  | _, _ => True

instance (s : Noted) (e : Recovery.Event) (t : Noted) : Decidable (Recorded s e t) := by
  unfold Recorded
  split <;> infer_instance

/-! ### Entries are known by their ids -/

/-- No other entry has the id of this one, and none will. -/
structure Known (entry : Entry) (stream : GroupStream) : Prop where
  past : entry.id ≤ stream.lastId
  only : stream.Forall fun other => other.id = entry.id → other = entry

theorem known_of_pending {stream : GroupStream} {p : Pending} (hp : p ∈ stream.pending) :
    Known p.entry stream := by
  have hsorted : (stream.pending.map Pending.id).Pairwise (· < ·) := (List.pairwise_append.mp stream.sorted).1
  have hnodup : (stream.pending.map Pending.id).Nodup := hsorted.imp fun hlt => ne_of_lt hlt
  refine ⟨GroupStream.pending_le_lastId hp, ?_, ?_⟩
  · intro q hq hid
    rw [List.inj_on_of_nodup_map hnodup hq hp hid]
  · intro e he hid
    exact absurd hid (ne_of_gt (GroupStream.pending_lt_fresh hp he))

theorem known_apply {stream : GroupStream} {entry : Entry} (h : Known entry stream)
    (eff : GroupStream.Effect) : Known entry (stream.apply eff) := by
  refine ⟨le_trans h.past (GroupStream.lastId_le_apply stream eff), ?_⟩
  cases eff with
  | xadd now fields =>
      refine GroupStream.forall_xadd h.only fun hid => ?_
      exact absurd hid (ne_of_gt (lt_of_le_of_lt h.past (GroupStream.lt_nextId _ now)))
  | deliverFresh consumer now => exact GroupStream.forall_apply h.only nofun
  | redeliver claimed consumer now => exact GroupStream.forall_apply h.only nofun
  | ack id => exact GroupStream.forall_apply h.only nofun

/-- The entries a sweep has still to deal with. -/
def held : ConsumerPc → List Entry
  | .judge entries => entries
  | .bury entry _ entries | .buryAck entry entries => entry :: entries
  | _ => []

/-- The note changes nothing. -/
theorem run_state {agentId : Uuid} (s : Noted) (es : List Recovery.Event) :
    ((system agentId s).run s es).map Noted.state = (Recovery.system agentId s.state).run s.state es := by
  refine Transition.System.run_map (Recovery.system agentId s.state) (system agentId s) Noted.state ?_ s es
  intro u e
  show (step agentId u e).map Noted.state = Recovery.step agentId u.state e
  unfold step
  cases Recovery.step agentId u.state e <;> rfl

structure Inv (agentId : Uuid) (s : Noted) : Prop where
  sent : ∀ id, s.state.consumer.pc = .ack id → id ∈ s.state.consumer.sent.map Prod.fst
  known : ∀ entry ∈ held s.state.consumer.pc, Known entry s.state.inbox.stream
  recorded : ∀ entry entries, s.state.consumer.pc = .buryAck entry entries → s.lastOk = true →
    ∃ count, Consumer.deadLetter agentId entry count ∈ s.state.inbox.dlq

variable {agentId : Uuid} {s t : Noted}

theorem step_own {tick : Consumer.Tick} (h : step agentId s (.own tick) = some t) :
    s.state.consumer.step agentId tick s.state.inbox = some (t.state.inbox, t.state.consumer) ∧
      t.lastOk = tick.ok := by
  obtain ⟨state, hstep, rfl⟩ := Option.map_eq_some_iff.mp h
  exact ⟨Recovery.step_own hstep, rfl⟩

theorem inv_start (inbox : Inbox) (consumerId : String) : Inv agentId (start inbox consumerId) where
  sent := by
    intro id hpc
    cases hpc
  known := by
    intro entry hentry
    cases hentry
  recorded := by
    intro entry entries hpc
    cases hpc

theorem inv_other {eff : GroupStream.Effect} (h : Inv agentId s) (hstep : step agentId s (.other eff) = some t) :
    Inv agentId t := by
  cases hstep
  exact ⟨h.sent, fun entry hentry => known_apply (h.known entry hentry) eff, h.recorded⟩

/-- At the end of a poll no acknowledgement is under way. -/
theorem afterPoll_free (pollCount : Nat) :
    held (Consumer.afterPoll pollCount) = [] ∧ (∀ id, Consumer.afterPoll pollCount ≠ .ack id) ∧
      ∀ entry entries, Consumer.afterPoll pollCount ≠ .buryAck entry entries := by
  rcases Consumer.afterPoll_cases pollCount with hclaim | hread
  · rw [hclaim]
    exact ⟨rfl, nofun, nofun⟩
  · rw [hread]
    exact ⟨rfl, nofun, nofun⟩

/-- Where nothing is being acknowledged, what is held needs to be known. -/
theorem inv_free (hack : ∀ id, t.state.consumer.pc ≠ .ack id)
    (hbury : ∀ entry entries, t.state.consumer.pc ≠ .buryAck entry entries)
    (hknown : ∀ entry ∈ held t.state.consumer.pc, Known entry t.state.inbox.stream) : Inv agentId t where
  sent := fun id hpc => absurd hpc (hack id)
  known := hknown
  recorded := fun entry entries hpc => absurd hpc (hbury entry entries)

theorem inv_afterPoll {inbox : Inbox} {c : Consumer} {pollCount : Nat} {lastOk : Bool}
    (hpc : c.pc = Consumer.afterPoll pollCount) : Inv agentId ⟨⟨inbox, c⟩, lastOk⟩ := by
  obtain ⟨hheld, hack, hbury⟩ := afterPoll_free pollCount
  refine inv_free ?_ ?_ ?_
  · show ∀ id, c.pc ≠ .ack id
    rw [hpc]
    exact hack
  · show ∀ entry entries, c.pc ≠ .buryAck entry entries
    rw [hpc]
    exact hbury
  · show ∀ entry ∈ held c.pc, Known entry inbox.stream
    rw [hpc, hheld]
    intro entry hentry
    cases hentry

theorem inv_own {tick : Consumer.Tick} (h : Inv agentId s) (hstep : step agentId s (.own tick) = some t) :
    Inv agentId t := by
  obtain ⟨hown, hlast⟩ := step_own hstep
  obtain ⟨⟨inbox, c⟩, lastOk⟩ := s
  obtain ⟨⟨inbox', c'⟩, lastOk'⟩ := t
  have hknown : ∀ entry ∈ held c.pc, Known entry inbox.stream := h.known
  cases Consumer.step_cases hown with
  | found hpc hok hread =>
      refine inv_free nofun nofun ?_
      intro entry hentry
      cases hentry
  | empty hpc hok hread => exact inv_afterPoll rfl
  | readFailed | noText | acked | ackFailed => exact inv_afterPoll rfl
  | @sent entry frame hpc hframe hopen =>
      refine ⟨?_, ?_, nofun⟩
      · intro id hid
        obtain rfl := ConsumerPc.ack.inj hid
        show entry.id ∈ (c.sent ++ [(entry.id, frame)]).map Prod.fst
        rw [List.map_append]
        exact List.mem_append_right _ List.mem_cons_self
      · intro other hother
        cases hother
  | closed | claimFailed | judged =>
      refine inv_free nofun nofun ?_
      intro entry hentry
      cases hentry
  | claimed hpc hok =>
      refine inv_free nofun nofun ?_
      intro entry hentry
      obtain ⟨p, hp, rfl⟩ := List.mem_map.mp hentry
      have hpending : p ∈ inbox.stream.pending :=
        List.mem_of_mem_take (List.mem_filter.mp (List.mem_of_mem_take hp)).1
      exact known_apply (known_of_pending hpending) (.redeliver _ _ _)
  | condemned hpc =>
      rw [hpc] at hknown
      exact inv_free nofun nofun hknown
  | kept hpc =>
      rw [hpc] at hknown
      exact inv_free nofun nofun fun entry hentry => hknown entry (List.mem_cons_of_mem _ hentry)
  | @buried entry entries count hpc hok =>
      rw [hpc] at hknown
      refine ⟨nofun, hknown, ?_⟩
      intro entry' entries' hpc' _
      cases hpc'
      exact ⟨count, List.mem_append_right _ List.mem_cons_self⟩
  | buryFailed hpc hok =>
      rw [hpc] at hknown
      refine ⟨nofun, hknown, ?_⟩
      intro entry' entries' _ hlastOk
      have hfalse : lastOk' = false := hlast.trans hok
      cases hfalse.symm.trans hlastOk
  | buryAcked hpc hok =>
      rw [hpc] at hknown
      refine inv_free nofun nofun fun entry hentry => ?_
      exact known_apply (hknown entry (List.mem_cons_of_mem _ hentry)) (.ack _)
  | buryAckFailed hpc hok =>
      rw [hpc] at hknown
      exact inv_free nofun nofun fun entry hentry => hknown entry (List.mem_cons_of_mem _ hentry)

theorem inv_step {e : Recovery.Event} (h : Inv agentId s) (hstep : step agentId s e = some t) : Inv agentId t := by
  cases e with
  | own tick => exact inv_own h hstep
  | other eff => exact inv_other h hstep

/-! ### What leaves the list -/

/-- Only an acknowledgement takes an entry off the list. -/
theorem mem_ids_apply {stream : GroupStream} {p : Pending} (hp : p ∈ stream.pending)
    {eff : GroupStream.Effect} (hack : eff ≠ .ack p.id) : p.id ∈ (stream.apply eff).pending.map Pending.id := by
  cases eff with
  | xadd => exact List.mem_map_of_mem hp
  | deliverFresh =>
      show p.id ∈ (stream.pending ++ _).map Pending.id
      rw [List.map_append]
      exact List.mem_append_left _ (List.mem_map_of_mem hp)
  | redeliver claimed consumer now =>
      show p.id ∈ (stream.pending.map _).map Pending.id
      rw [map_id_map]
      · exact List.mem_map_of_mem hp
      · intro q
        split <;> rfl
  | ack id =>
      refine List.mem_map_of_mem (List.mem_filter.mpr ⟨hp, ?_⟩)
      have hne : p.id ≠ id := fun heq => hack (by rw [heq])
      exact decide_eq_true hne

theorem left_of_ack {stream : GroupStream} {p : Pending} {id : StreamId} (hp : p ∈ stream.pending)
    (hleft : p.id ∉ (stream.ack id).pending.map Pending.id) : p.id = id := by
  by_contra hne
  refine hleft (@mem_ids_apply stream p hp (.ack id) ?_)
  intro heq
  exact hne (GroupStream.Effect.ack.inj heq).symm

theorem readGroup_keeps {c : Consumer} {stream stream' : GroupStream} {now : Nat} {entry : Entry}
    (hread : c.readGroup stream now = some (entry, stream')) {p : Pending} (hp : p ∈ stream.pending) :
    p.id ∈ stream'.pending.map Pending.id := by
  unfold Consumer.readGroup at hread
  cases hreadId : c.readId with
  | zero =>
      rw [hreadId] at hread
      obtain ⟨q, -, -, -, rfl⟩ := GroupStream.mem_readPending hread
      exact @mem_ids_apply stream p hp (.redeliver [q.id] c.consumerId now) nofun
  | new =>
      rw [hreadId] at hread
      obtain ⟨-, rfl⟩ := GroupStream.mem_readNew hread
      exact @mem_ids_apply stream p hp (.deliverFresh c.consumerId now) nofun

theorem lastOk_of_recorded {tick : Consumer.Tick} {entry : Entry} {entries : List Entry}
    (h : Recorded s (.own tick) t) (hpc : s.state.consumer.pc = .buryAck entry entries) (hok : tick.ok = true) :
    s.lastOk = true := by
  unfold Recorded at h
  rw [hpc] at h
  exact h hok

theorem leavesSettled_step {e : Recovery.Event} (hstep : step agentId s e = some t) (hrecorded : Recorded s e t)
    (h : Inv agentId s) : LeavesSettled agentId s e t := by
  rintro tick rfl p hp hleft
  obtain ⟨hown, -⟩ := step_own hstep
  obtain ⟨⟨inbox, c⟩, lastOk⟩ := s
  obtain ⟨⟨inbox', c'⟩, lastOk'⟩ := t
  have hpending : p ∈ inbox.stream.pending := hp
  cases Consumer.step_cases hown with
  | found hpc hok hread => exact absurd (readGroup_keeps hread hpending) hleft
  | acked hpc hok =>
      left
      show p.id ∈ c.sent.map Prod.fst
      rw [left_of_ack hpending hleft]
      exact h.sent _ hpc
  | claimed hpc hok => exact absurd (@mem_ids_apply _ p hpending (.redeliver _ _ _) nofun) hleft
  | @buryAcked entry entries hpc hok =>
      right
      have hlastOk : lastOk = true := lastOk_of_recorded hrecorded hpc hok
      obtain ⟨count, hdlq⟩ := h.recorded entry entries hpc hlastOk
      have hknown : Known entry inbox.stream := h.known entry (by
        show entry ∈ held c.pc
        rw [hpc]
        exact List.mem_cons_self)
      rw [hknown.only.pending p hpending (left_of_ack hpending hleft)]
      exact ⟨count, hdlq⟩
  | empty | readFailed | sent | closed | noText | ackFailed | claimFailed | judged | condemned | kept
  | buried | buryFailed | buryAckFailed => exact absurd (List.mem_map_of_mem hpending) hleft

/-- In every run in which no `XACK` of a sweep succeeds after its `XADD` failed, every entry that the
consumer takes off the list was sent or recorded before. -/
theorem leaves_settled {inbox : Inbox} {consumerId : String} {es : List Recovery.Event}
    (h : (system agentId (start inbox consumerId)).EveryStep Recorded (start inbox consumerId) es) :
    (system agentId (start inbox consumerId)).EveryStep (LeavesSettled agentId) (start inbox consumerId) es :=
  (system agentId (start inbox consumerId)).everyStep_of_invariant
    (fun _ _ _ hstep _ hinv => inv_step hinv hstep)
    (fun _ _ _ hstep hrecorded hinv => leavesSettled_step hstep hrecorded hinv) (inv_start inbox consumerId) h

/-- One frame, delivered hours ago to another consumer that never came back to it. -/
private def abandoned : Inbox :=
  ⟨(GroupStream.empty.xadd 1 (Inbox.frameFields "hi")).deliverFresh "b-7" 5, []⟩

/-- A second frame has come since. -/
private def waiting : Inbox :=
  { abandoned with stream := abandoned.stream.xadd 17000000 (Inbox.frameFields "there") }

/-- The polls up to the first sweep, and the sweep. -/
private def throughSweep : List Recovery.Event :=
  List.replicate 1502 (.own ⟨17000000, true, true⟩) ++ List.replicate 4 (.own ⟨18000000, true, true⟩)

/-- One frame is read from `>`, sent and acknowledged; the other is claimed by the sweep, recorded and acknowledged. -/
theorem leaves_settled_delivered :
    (∃ s, (system 7 (start waiting "a-7")).run (start waiting "a-7") throughSweep = some s ∧
      s.state.inbox.stream.pending = [] ∧ s.state.consumer.sent.length = 1 ∧ s.state.inbox.dlq.length = 1) ∧
    (system 7 (start waiting "a-7")).EveryStep (LeavesSettled 7) (start waiting "a-7") throughSweep := by
  have hrun : ((system 7 (start waiting "a-7")).run (start waiting "a-7") throughSweep).any (fun s =>
      s.state.inbox.stream.pending = [] ∧ s.state.consumer.sent.length = 1 ∧ s.state.inbox.dlq.length = 1) = true := by
    decide +kernel
  obtain ⟨s, hs, hend⟩ := (Option.any_eq_true _ _).mp hrun
  exact ⟨⟨s, hs, of_decide_eq_true hend⟩, leaves_settled (by decide +kernel)⟩

/-! ### A dead letter that is lost -/

private def beforeSweep : Recovery.State := ⟨abandoned, ⟨"a-7", autoclaimInterval, .new, .claim, []⟩⟩

/-- A command five hours later, and whether it succeeds. -/
private def hoursLater (ok : Bool) : Recovery.Event := .own ⟨18000000, true, ok⟩

private def firstPolls : List Consumer.Tick := List.replicate 1498 ⟨17000000, true, true⟩

private theorem run_beforeSweep :
    ∃ es, (Recovery.system 7 ⟨abandoned, .spawn "a-7"⟩).run ⟨abandoned, .spawn "a-7"⟩ es = some beforeSweep := by
  have hquiet : Recovery.Quiet abandoned "a-7" := ⟨by decide +kernel, by decide +kernel⟩
  refine ⟨_, @Recovery.run_to_sweep 7 abandoned "a-7" hquiet ⟨17000000, true, true⟩ ⟨17000000, true, true⟩
    firstPolls rfl rfl ?_ ?_⟩
  · intro tick htick
    rw [List.eq_of_mem_replicate htick]
  · rw [firstPolls, List.length_replicate]
    rfl

/-- The sweep claims the frame and condemns it; `XADD` fails, `XACK` succeeds. -/
private theorem lost_after_sweep (lastOk : Bool) :
    ∃ s t, (system 7 ⟨beforeSweep, lastOk⟩).run ⟨beforeSweep, lastOk⟩ [hoursLater true, hoursLater true,
        hoursLater false] = some s ∧ step 7 s (hoursLater true) = some t ∧ ¬ LeavesSettled 7 s (hoursLater true) t := by
  have hrun : ((system 7 ⟨beforeSweep, lastOk⟩).run ⟨beforeSweep, lastOk⟩ [hoursLater true, hoursLater true,
      hoursLater false]).any (fun s => (step 7 s (hoursLater true)).any fun t =>
        s.state.inbox.stream.pending.map Pending.id = [.mk 1 0] ∧ t.state.inbox.stream.pending = [] ∧
          s.state.consumer.sent = [] ∧ s.state.inbox.dlq = []) = true := by
    cases lastOk <;> decide +kernel
  obtain ⟨s, hs, hany⟩ := (Option.any_eq_true _ _).mp hrun
  obtain ⟨t, ht, hlost⟩ := (Option.any_eq_true _ _).mp hany
  obtain ⟨hpending, hgone, hsent, hdlq⟩ := of_decide_eq_true hlost
  refine ⟨s, t, hs, ht, fun hsettled => ?_⟩
  have hmem : StreamId.mk 1 0 ∈ s.state.inbox.stream.pending.map Pending.id := by
    rw [hpending]
    exact List.mem_singleton_self _
  obtain ⟨p, hp, -⟩ := List.mem_map.mp hmem
  have hleft : p.id ∉ t.state.inbox.stream.pending.map Pending.id := by
    rw [hgone]
    exact List.not_mem_nil
  rcases hsettled _ rfl p hp hleft with hin | ⟨count, hin⟩
  · rw [hsent] at hin
    cases hin
  · rw [hdlq] at hin
    cases hin

/-- An `XADD` that fails does not keep the sweep from acknowledging. -/
theorem failed_xadd_loses_entry :
    ¬ ∀ agentId inbox consumerId es, (system agentId (start inbox consumerId)).EveryStep (LeavesSettled agentId)
      (start inbox consumerId) es := by
  intro h
  obtain ⟨es, hes⟩ := run_beforeSweep
  have hnoted := (@run_state 7 (start abandoned "a-7") es).trans hes
  obtain ⟨⟨state, lastOk⟩, hrun, rfl⟩ := Option.map_eq_some_iff.mp hnoted
  obtain ⟨s, t, hs, ht, hnot⟩ := lost_after_sweep lastOk
  have hevery := h 7 abandoned "a-7" ((es ++ [hoursLater true, hoursLater true, hoursLater false]) ++
    [hoursLater true])
  refine hnot (hevery.last ?_ ht)
  rw [Transition.System.run_append, hrun]
  exact hs

end DeadLetter

end Overacp
