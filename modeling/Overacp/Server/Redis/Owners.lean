import Overacp.Server.Redis.Inbox
import Overacp.Server.Redis.Lease

/-!
# Whose tunnel an inbox entry reaches

Every acquire of an agent starts a consumer, and all consumers read the inbox as one group. What stops
an earlier one is a control message that may be lost: its tunnel stays open, its lease held and its
consumer running, until its lease is dropped. This module runs acquires, drops, deliveries and polls in
any order, and says when an entry reaches the owner it was appended for.
-/

namespace Overacp

open Redis

/-- All instances, as far as one agent goes. Leases are numbered by the start of their acquire. A lease
keeps its consumer, and with it what was sent to its tunnel, after the task has been aborted. -/
structure Owners where
  db : LeaseDb
  inbox : Inbox
  count : Nat
  argsOf : Nat → AcquireArgs
  acquiring : Nat → Option AcquirePc
  held : Nat → Bool
  consumers : Nat → Option Consumer
  running : Nat → Bool
  releasing : Nat → Option ReleasePc
  localSenders : String → Option Nat
  consumerHandles : String → Option Nat
  /-- The entries appended, each with the lease it was appended for. -/
  appended : List (StreamId × Option Nat)

namespace Owners

def init (db : LeaseDb) (inbox : Inbox) : Owners where
  db := db
  inbox := inbox
  count := 0
  argsOf _ := ⟨0, "", ""⟩
  acquiring _ := none
  held _ := false
  consumers _ := none
  running _ := false
  releasing _ := none
  localSenders _ := none
  consumerHandles _ := none
  appended := []

/-- The lease whose acquire has completed while no later one has started. -/
def window (s : Owners) : Option Nat :=
  if 0 < s.count ∧ s.acquiring (s.count - 1) = none then some (s.count - 1) else none

/-- The rest of `acquire` once `acquire_lease` has returned. -/
def complete (s : Owners) (lease : Nat) : Owners :=
  let args := s.argsOf lease
  { s with
    acquiring := Function.update s.acquiring lease none
    held := Function.update s.held lease true
    consumers := Function.update s.consumers lease
      (some (.spawn s!"{args.instanceId}-{args.agentId.render}"))
    running := Function.update s.running lease true
    localSenders := Function.update s.localSenders args.instanceId (some lease)
    consumerHandles := Function.update s.consumerHandles args.instanceId (some lease) }

def abort (running : Nat → Bool) : Option Nat → Nat → Bool
  | some handle => Function.update running handle false
  | none => running

/-- The drop of a `TunnelLease`. -/
def dropLease (s : Owners) (lease : Nat) : Owners :=
  let instanceId := (s.argsOf lease).instanceId
  { s with
    running := abort s.running (s.consumerHandles instanceId)
    consumerHandles := Function.update s.consumerHandles instanceId none
    localSenders := Function.update s.localSenders instanceId none
    held := Function.update s.held lease false
    releasing := Function.update s.releasing lease (some .casDel) }

/-- A tunnel that gets a control message drops its lease; so does one whose socket closes. Nothing
makes it do so. -/
inductive Event where
  | acquire (instanceId claimsJson : String)
  | command (lease now : Nat)
  | complete (lease : Nat)
  | dropLease (lease : Nat)
  | release (lease now : Nat)
  | deliver (frame : String) (now : Nat)
  | consume (lease : Nat) (tick : Consumer.Tick)
  deriving DecidableEq, Repr

def step (agentId : Uuid) (s : Owners) : Event → Option Owners
  | .acquire instanceId claimsJson =>
      some { s with
        count := s.count + 1
        argsOf := Function.update s.argsOf s.count ⟨agentId, instanceId, claimsJson⟩
        acquiring := Function.update s.acquiring s.count (some .get) }
  | .command lease now =>
      (s.acquiring lease).bind fun pc =>
        (acquireStep (s.argsOf lease) now s.db pc).map fun next =>
          { s with db := next.1, acquiring := Function.update s.acquiring lease (some next.2) }
  | .complete lease => if s.acquiring lease = some .done then some (s.complete lease) else none
  | .dropLease lease => if s.held lease = true then some (s.dropLease lease) else none
  | .release lease now =>
      (s.releasing lease).bind fun pc =>
        (releaseStep agentId (s.argsOf lease).instanceId now s.db pc).map fun next =>
          { s with db := next.1, releasing := Function.update s.releasing lease (some next.2) }
  | .deliver frame now =>
      (s.inbox.deliver (s.db.ownerOf agentId).isSome now frame).map fun inbox =>
        { s with inbox := inbox, appended := s.appended ++ [(inbox.stream.lastId, s.window)] }
  | .consume lease tick =>
      if s.running lease = true then
        (s.consumers lease).bind fun c =>
          (c.step agentId tick s.inbox).map fun next =>
            { s with inbox := next.1, consumers := Function.update s.consumers lease (some next.2) }
      else none

def system (agentId : Uuid) (db : LeaseDb) (inbox : Inbox) : Transition.System Owners Event :=
  ⟨init db inbox, step agentId⟩

/-- The entry was sent to the tunnel of the lease. -/
def Forwarded (s : Owners) (id : StreamId) (lease : Nat) : Prop :=
  ∃ c ∈ s.consumers lease, id ∈ c.sent.map Prod.fst

/-- The entry was appended after the acquire of the lease had completed and before a later one started. -/
def AppendedFor (s : Owners) (id : StreamId) (lease : Nat) : Prop := (id, some lease) ∈ s.appended

/-- A consumer polls only while nothing in the inbox was appended for a later lease. -/
def NoStalePoll (s : Owners) : Event → Owners → Prop
  | .consume lease _, _ => ∀ c ∈ s.consumers lease, c.pc = .read →
      ∀ x ∈ s.appended, x.1 ∈ s.inbox.stream.ids → ∀ later ∈ x.2, later ≤ lease
  | _, _ => True

/-- An acquire starts only while nothing in the inbox was appended for a lease. -/
def NothingWaiting (s : Owners) : Event → Owners → Prop
  | .acquire .., _ => ∀ x ∈ s.appended, x.1 ∈ s.inbox.stream.ids → x.2 = none
  | _, _ => True

instance (s : Owners) (id : StreamId) (lease : Nat) : Decidable (Forwarded s id lease) :=
  inferInstanceAs (Decidable (∃ c ∈ s.consumers lease, _))

instance (s : Owners) (id : StreamId) (lease : Nat) : Decidable (AppendedFor s id lease) :=
  inferInstanceAs (Decidable (_ ∈ _))

instance decidableNoStalePoll (s : Owners) : ∀ (e : Event) (t : Owners), Decidable (NoStalePoll s e t)
  | .consume lease _, _ => inferInstanceAs (Decidable (∀ c ∈ s.consumers lease, _ → ∀ x ∈ s.appended, _))
  | .acquire .., _ | .command .., _ | .complete .., _ | .dropLease .., _ | .release .., _
  | .deliver .., _ => .isTrue trivial

instance decidableNothingWaiting (s : Owners) :
    ∀ (e : Event) (t : Owners), Decidable (NothingWaiting s e t)
  | .acquire .., _ => inferInstanceAs (Decidable (∀ x ∈ s.appended, _))
  | .consume .., _ | .command .., _ | .complete .., _ | .dropLease .., _ | .release .., _
  | .deliver .., _ => .isTrue trivial

/-! ### What a consumer takes up -/

/-- The entries a consumer has sent, and the one it is about to send. -/
def taken (c : Consumer) : List StreamId :=
  match c.pc with
  | .reply entry => entry.id :: c.sent.map Prod.fst
  | _ => c.sent.map Prod.fst

theorem sent_subset_taken (c : Consumer) : c.sent.map Prod.fst ⊆ taken c := by
  unfold taken
  split
  · exact List.subset_cons_self _ _
  · exact List.Subset.refl _

theorem taken_afterPoll (c : Consumer) (pollCount polls : Nat) (readId : ReadId) :
    taken { c with pollCount := polls, readId := readId, pc := Consumer.afterPoll pollCount } =
      c.sent.map Prod.fst := by
  rcases Consumer.afterPoll_cases pollCount with hclaim | hread
  · rw [taken, hclaim]
  · rw [taken, hread]

/-- A step of a consumer adds nothing to the inbox. -/
theorem consumer_inbox {agentId : Uuid} {tick : Consumer.Tick} {inbox inbox' : Inbox} {c c' : Consumer}
    (h : c.step agentId tick inbox = some (inbox', c')) :
    inbox'.stream.lastId = inbox.stream.lastId ∧ inbox'.stream.ids ⊆ inbox.stream.ids := by
  rcases Consumer.step_apply h with hsame | ⟨eff, happly, heff⟩
  · rw [hsame]
    exact ⟨rfl, List.Subset.refl _⟩
  · rw [happly]
    exact GroupStream.ids_apply_subset heff

/-- What a consumer takes up it has polled. -/
theorem consumer_taken {agentId : Uuid} {tick : Consumer.Tick} {inbox inbox' : Inbox} {c c' : Consumer}
    (h : c.step agentId tick inbox = some (inbox', c')) :
    ∀ id ∈ taken c', id ∈ taken c ∨ c.pc = .read ∧ id ∈ inbox.stream.ids := by
  have hsent : ∀ id ∈ c.sent.map Prod.fst, id ∈ taken c ∨ c.pc = .read ∧ id ∈ inbox.stream.ids :=
    fun id hid => .inl (sent_subset_taken c hid)
  intro id hid
  cases Consumer.step_cases h with
  | found hpc hok hread =>
      rcases List.mem_cons.mp hid with rfl | hold
      · exact .inr ⟨hpc, (Consumer.readGroup_found hread).1⟩
      · exact hsent id hold
  | empty | readFailed | noText | acked | ackFailed =>
      rw [taken_afterPoll] at hid
      exact hsent id hid
  | sent hpc hframe hopen =>
      have hid' : id ∈ (c.sent ++ [_]).map Prod.fst := hid
      rw [List.map_append] at hid'
      rcases List.mem_append.mp hid' with hold | hnew
      · exact hsent id hold
      · left
        rw [taken, hpc, List.mem_singleton.mp hnew]
        exact List.mem_cons_self
  | closed | claimed | claimFailed | judged | condemned | kept | buried | buryFailed | buryAcked
  | buryAckFailed => exact hsent id hid

/-! ### What holds in every run -/

/-- Every entry a consumer has taken up was appended before, and for leases its own is related to. -/
structure Routed (R : Nat → Nat → Prop) (s : Owners) : Prop where
  known : ∀ x ∈ s.appended, x.1 ≤ s.inbox.stream.lastId
  taken : ∀ lease, ∀ c ∈ s.consumers lease, ∀ id ∈ taken c, id ≤ s.inbox.stream.lastId ∧
    ∀ w, AppendedFor s id w → R w lease

/-- What was appended for a lease and is still in the inbox was appended for the last one. -/
structure Current (s : Owners) : Prop where
  known : ∀ x ∈ s.appended, x.1 ≤ s.inbox.stream.lastId
  acquiring : ∀ lease, (s.acquiring lease).isSome → lease < s.count
  consumers : ∀ lease, (s.consumers lease).isSome → lease < s.count
  waiting : ∀ id ∈ s.inbox.stream.ids, ∀ w, AppendedFor s id w → w + 1 = s.count

variable {agentId : Uuid} {R : Nat → Nat → Prop} {s t : Owners}

theorem routed_frame (hs : Routed R s) (hinbox : t.inbox = s.inbox) (happended : t.appended = s.appended)
    (hconsumers : t.consumers = s.consumers) : Routed R t := by
  obtain ⟨known, taken⟩ := hs
  refine ⟨?_, ?_⟩
  · rw [hinbox, happended]
    exact known
  · unfold AppendedFor
    rw [hinbox, happended, hconsumers]
    exact taken

theorem current_frame (hs : Current s) (hinbox : t.inbox = s.inbox) (happended : t.appended = s.appended)
    (hcount : t.count = s.count) (hconsumers : t.consumers = s.consumers)
    (hacquiring : ∀ lease, (t.acquiring lease).isSome → lease < s.count) : Current t := by
  obtain ⟨known, -, consumers, waiting⟩ := hs
  refine ⟨?_, ?_, ?_, ?_⟩
  · rw [hinbox, happended]
    exact known
  · rw [hcount]
    exact hacquiring
  · rw [hconsumers, hcount]
    exact consumers
  · unfold AppendedFor
    rw [hinbox, happended, hcount]
    exact waiting

/-! ### Appends -/

/-- An append makes one entry, later than all there were, for the lease whose window it falls into. -/
theorem step_deliver {frame : String} {now : Nat} (h : step agentId s (.deliver frame now) = some t) :
    t = { s with
      inbox := { s.inbox with stream := s.inbox.stream.xadd now (Inbox.frameFields frame) }
      appended := s.appended ++ [(GroupStream.nextId s.inbox.stream.lastId now, s.window)] } := by
  obtain ⟨inbox, hdeliver, rfl⟩ := Option.map_eq_some_iff.mp h
  unfold Inbox.deliver at hdeliver
  split at hdeliver
  · cases hdeliver
    rfl
  · cases hdeliver

theorem known_append {inbox : Inbox} {appended : List (StreamId × Option Nat)} {now : Nat}
    (fields : List (String × List UInt8)) (window : Option Nat)
    (hknown : ∀ x ∈ appended, x.1 ≤ inbox.stream.lastId) :
    ∀ x ∈ appended ++ [(GroupStream.nextId inbox.stream.lastId now, window)],
      x.1 ≤ (inbox.stream.xadd now fields).lastId := by
  intro x hx
  rcases List.mem_append.mp hx with hold | hnew
  · exact le_of_lt (lt_of_le_of_lt (hknown x hold) (GroupStream.lt_nextId _ _))
  · rw [List.mem_singleton.mp hnew]
    exact le_refl _

/-- The window is that of the last acquire to have started. -/
theorem window_eq_some {w : Nat} (h : s.window = some w) : w + 1 = s.count := by
  unfold window at h
  split at h
  · rename_i hwindow
    cases h
    omega
  · cases h

theorem routed_deliver {frame : String} {now : Nat} (hs : Routed R s)
    (h : step agentId s (.deliver frame now) = some t) : Routed R t := by
  obtain rfl := step_deliver h
  refine ⟨known_append _ _ hs.known, ?_⟩
  intro lease c hc id hid
  obtain ⟨hle, hrelated⟩ := hs.taken lease c hc id hid
  have hlt : id < GroupStream.nextId s.inbox.stream.lastId now :=
    lt_of_le_of_lt hle (GroupStream.lt_nextId _ _)
  refine ⟨le_of_lt hlt, ?_⟩
  intro w hw
  rcases List.mem_append.mp hw with hold | hnew
  · exact hrelated w hold
  · have hid := congrArg Prod.fst (List.mem_singleton.mp hnew)
    exact absurd hid (ne_of_lt hlt)

theorem current_deliver {frame : String} {now : Nat} (hs : Current s)
    (h : step agentId s (.deliver frame now) = some t) : Current t := by
  obtain rfl := step_deliver h
  refine ⟨known_append _ _ hs.known, hs.acquiring, hs.consumers, ?_⟩
  intro id hid w hw
  have hid' : id ∈ (s.inbox.stream.xadd now (Inbox.frameFields frame)).ids := hid
  rw [GroupStream.ids_xadd] at hid'
  rcases List.mem_append.mp hw with hold | hnew
  · rcases List.mem_append.mp hid' with hin | hlast
    · exact hs.waiting id hin w hold
    · have hle : id ≤ s.inbox.stream.lastId := hs.known _ hold
      have hlt : s.inbox.stream.lastId < GroupStream.nextId s.inbox.stream.lastId now :=
        GroupStream.lt_nextId _ _
      rw [List.mem_singleton.mp hlast] at hle
      exact absurd hlt (not_lt_of_ge hle)
  · have hwindow := congrArg Prod.snd (List.mem_singleton.mp hnew)
    exact window_eq_some hwindow.symm

/-! ### Polls -/

/-- A poll leaves what others have taken up alone. -/
theorem step_consume {lease : Nat} {tick : Consumer.Tick}
    (h : step agentId s (.consume lease tick) = some t) :
    ∃ c ∈ s.consumers lease, ∃ inbox c', c.step agentId tick s.inbox = some (inbox, c') ∧
      t = { s with inbox := inbox, consumers := Function.update s.consumers lease (some c') } := by
  simp only [step] at h
  split at h
  · obtain ⟨c, hc, hmap⟩ := Option.bind_eq_some_iff.mp h
    obtain ⟨⟨inbox, c'⟩, hstep, rfl⟩ := Option.map_eq_some_iff.mp hmap
    exact ⟨c, hc, inbox, c', hstep, rfl⟩
  · cases h

/-- What a poll may take up must be related to the lease. -/
theorem routed_consume {lease : Nat} {tick : Consumer.Tick} (hs : Routed R s)
    (hpoll : ∀ c ∈ s.consumers lease, c.pc = .read → ∀ id ∈ s.inbox.stream.ids, ∀ w,
      AppendedFor s id w → R w lease)
    (h : step agentId s (.consume lease tick) = some t) : Routed R t := by
  obtain ⟨c, hc, inbox, c', hstep, rfl⟩ := step_consume h
  obtain ⟨hlast, -⟩ := consumer_inbox hstep
  refine ⟨?_, ?_⟩
  · show ∀ x ∈ s.appended, x.1 ≤ inbox.stream.lastId
    rw [hlast]
    exact hs.known
  · intro l d hd id hid
    show id ≤ inbox.stream.lastId ∧ ∀ w, AppendedFor s id w → R w l
    rw [hlast]
    by_cases hl : l = lease
    · subst hl
      have hd' : Function.update s.consumers l (some c') l = some d := hd
      rw [Function.update_self] at hd'
      obtain rfl := Option.some.inj hd'
      rcases consumer_taken hstep id hid with hold | ⟨hpc, hin⟩
      · exact hs.taken l c hc id hold
      · exact ⟨s.inbox.stream.bounded id hin, hpoll c hc hpc id hin⟩
    · have hd' : Function.update s.consumers lease (some c') l = some d := hd
      rw [Function.update_of_ne hl] at hd'
      exact hs.taken l d hd' id hid

theorem current_consume {lease : Nat} {tick : Consumer.Tick} (hs : Current s)
    (h : step agentId s (.consume lease tick) = some t) : Current t := by
  obtain ⟨c, hc, inbox, c', hstep, rfl⟩ := step_consume h
  obtain ⟨hlast, hids⟩ := consumer_inbox hstep
  refine ⟨?_, hs.acquiring, ?_, ?_⟩
  · show ∀ x ∈ s.appended, x.1 ≤ inbox.stream.lastId
    rw [hlast]
    exact hs.known
  · intro l hl
    have hl' : (Function.update s.consumers lease (some c') l).isSome := hl
    by_cases hsame : l = lease
    · rw [hsame]
      exact hs.consumers lease (Option.isSome_of_mem hc)
    · rw [Function.update_of_ne hsame] at hl'
      exact hs.consumers l hl'
  · intro id hid
    exact hs.waiting id (hids hid)

/-! ### Steps and runs -/

theorem isSome_update {α : Type} {f : Nat → Option α} {l lease bound : Nat} {value : Option α}
    (hf : ∀ l, (f l).isSome → l < bound) (hlease : lease < bound)
    (h : (Function.update f lease value l).isSome) : l < bound := by
  by_cases hl : l = lease
  · rw [hl]
    exact hlease
  · rw [Function.update_of_ne hl] at h
    exact hf l h

/-- The commands of an acquire and of a release, and the drop of a lease, only touch the leases. -/
theorem step_frame {e : Event} (h : step agentId s e = some t)
    (he : (∃ lease now, e = .command lease now) ∨ (∃ lease, e = .dropLease lease) ∨
      ∃ lease now, e = .release lease now) :
    t.inbox = s.inbox ∧ t.appended = s.appended ∧ t.count = s.count ∧ t.consumers = s.consumers ∧
      ∀ bound, (∀ lease, (s.acquiring lease).isSome → lease < bound) →
        ∀ lease, (t.acquiring lease).isSome → lease < bound := by
  rcases he with ⟨lease, now, rfl⟩ | ⟨lease, rfl⟩ | ⟨lease, now, rfl⟩
  · obtain ⟨pc, hpc, hmap⟩ := Option.bind_eq_some_iff.mp h
    obtain ⟨next, -, rfl⟩ := Option.map_eq_some_iff.mp hmap
    refine ⟨rfl, rfl, rfl, rfl, ?_⟩
    intro bound hbound l hl
    exact isSome_update hbound (hbound lease (Option.isSome_of_mem hpc)) hl
  · simp only [step] at h
    split at h
    · cases h
      exact ⟨rfl, rfl, rfl, rfl, fun _ hbound => hbound⟩
    · cases h
  · obtain ⟨pc, -, hmap⟩ := Option.bind_eq_some_iff.mp h
    obtain ⟨next, -, rfl⟩ := Option.map_eq_some_iff.mp hmap
    exact ⟨rfl, rfl, rfl, rfl, fun _ hbound => hbound⟩

theorem step_complete {lease : Nat} (h : step agentId s (.complete lease) = some t) :
    (s.acquiring lease).isSome ∧ t = s.complete lease := by
  simp only [step] at h
  split at h
  · rename_i hdone
    cases h
    exact ⟨by rw [hdone]; rfl, rfl⟩
  · cases h

theorem routed_complete {lease : Nat} (hs : Routed R s)
    (h : step agentId s (.complete lease) = some t) : Routed R t := by
  obtain ⟨-, rfl⟩ := step_complete h
  refine ⟨hs.known, ?_⟩
  intro l c hc id hid
  have hc' : Function.update s.consumers lease (some (.spawn _)) l = some c := hc
  by_cases hl : l = lease
  · rw [hl, Function.update_self] at hc'
    rw [← Option.some.inj hc'] at hid
    cases hid
  · rw [Function.update_of_ne hl] at hc'
    exact hs.taken l c hc' id hid

theorem current_complete {lease : Nat} (hs : Current s)
    (h : step agentId s (.complete lease) = some t) : Current t := by
  obtain ⟨hlease, rfl⟩ := step_complete h
  have hlt := hs.acquiring lease hlease
  exact ⟨hs.known, fun _ hl => isSome_update hs.acquiring hlt hl,
    fun _ hl => isSome_update hs.consumers hlt hl, hs.waiting⟩

theorem routed_step {e : Event} (hs : Routed R s)
    (hpoll : ∀ lease tick, e = .consume lease tick → ∀ c ∈ s.consumers lease, c.pc = .read →
      ∀ id ∈ s.inbox.stream.ids, ∀ w, AppendedFor s id w → R w lease)
    (h : step agentId s e = some t) : Routed R t := by
  cases e with
  | acquire instanceId claimsJson =>
      cases h
      exact routed_frame hs rfl rfl rfl
  | command | dropLease | release =>
      obtain ⟨hinbox, happended, -, hconsumers, -⟩ := step_frame h (by simp)
      exact routed_frame hs hinbox happended hconsumers
  | complete lease => exact routed_complete hs h
  | deliver frame now => exact routed_deliver hs h
  | consume lease tick => exact routed_consume hs (hpoll lease tick rfl) h

theorem current_step {e : Event} (hs : Current s) (hclear : NothingWaiting s e t)
    (h : step agentId s e = some t) : Current t := by
  cases e with
  | acquire instanceId claimsJson =>
      cases h
      refine ⟨hs.known, ?_, fun l hl => Nat.lt_succ_of_lt (hs.consumers l hl), ?_⟩
      · intro l hl
        exact isSome_update (fun l hl => Nat.lt_succ_of_lt (hs.acquiring l hl)) (Nat.lt_succ_self _) hl
      · intro id hid w hw
        have hnone := hclear (id, some w) hw hid
        cases hnone
  | command | dropLease | release =>
      obtain ⟨hinbox, happended, hcount, hconsumers, hacquiring⟩ := step_frame h (by simp)
      exact current_frame hs hinbox happended hcount hconsumers (hacquiring s.count hs.acquiring)
  | complete lease => exact current_complete hs h
  | deliver frame now => exact current_deliver hs h
  | consume lease tick => exact current_consume hs h

theorem routed_init (R : Nat → Nat → Prop) (db : LeaseDb) (inbox : Inbox) : Routed R (init db inbox) :=
  ⟨nofun, nofun⟩

theorem current_init (db : LeaseDb) (inbox : Inbox) : Current (init db inbox) :=
  ⟨nofun, nofun, nofun, fun _ _ _ h => absurd h List.not_mem_nil⟩

theorem routed_forwarded (hs : Routed R s) {id : StreamId} {lease w : Nat} (h : Forwarded s id lease)
    (hw : AppendedFor s id w) : R w lease := by
  obtain ⟨c, hc, hid⟩ := h
  exact (hs.taken lease c hc id (sent_subset_taken c hid)).2 w hw

theorem text_owners_step {e : Event} (hs : s.inbox.stream.Forall IsText)
    (h : step agentId s e = some t) : t.inbox.stream.Forall IsText := by
  cases e with
  | acquire instanceId claimsJson =>
      cases h
      exact hs
  | command | dropLease | release =>
      obtain ⟨hinbox, -⟩ := step_frame h (by simp)
      rw [hinbox]
      exact hs
  | complete lease =>
      obtain ⟨-, rfl⟩ := step_complete h
      exact hs
  | deliver frame now =>
      obtain ⟨inbox, hdeliver, rfl⟩ := Option.map_eq_some_iff.mp h
      exact text_deliver hs hdeliver
  | consume lease tick =>
      obtain ⟨c, -, inbox, c', hstep, rfl⟩ := step_consume h
      exact text_step hs hstep

/-- Whatever instances do, an inbox that only `DELIVER_SCRIPT` writes to holds text. -/
theorem inbox_holds_text {db : LeaseDb} {inbox : Inbox} {es : List Event}
    (hrun : (system agentId db inbox).run (init db inbox) es = some s)
    (hinbox : inbox.stream.Forall IsText) : s.inbox.stream.Forall IsText :=
  (system agentId db inbox).run_invariant (fun _ _ _ h hs => text_owners_step hs h) hrun hinbox

theorem owner_le_of_noStalePoll {lease : Nat} {tick : Consumer.Tick}
    (hclear : NoStalePoll s (.consume lease tick) t) :
    ∀ c ∈ s.consumers lease, c.pc = .read → ∀ id ∈ s.inbox.stream.ids, ∀ w, AppendedFor s id w →
      w ≤ lease :=
  fun c hc hpc id hid w hw => hclear c hc hpc (id, some w) hw hid w rfl

/-- What is waiting was appended for the last lease, and no consumer has a later one. -/
theorem owner_eq_of_current {lease : Nat} {tick : Consumer.Tick} (hs : Current s)
    (hclear : NoStalePoll s (.consume lease tick) t) :
    ∀ c ∈ s.consumers lease, c.pc = .read → ∀ id ∈ s.inbox.stream.ids, ∀ w, AppendedFor s id w →
      w = lease := by
  intro c hc hpc id hid w hw
  have hle := owner_le_of_noStalePoll hclear c hc hpc id hid w hw
  have hlast := hs.waiting id hid w hw
  have hlt := hs.consumers lease (Option.isSome_of_mem hc)
  omega

/-- As long as no superseded consumer polls an inbox that holds something appended for a later owner, no
entry reaches an earlier owner than its own; as long as, besides, nothing is left waiting for an owner
when an acquire starts, none reaches a later one. -/
theorem entries_reach_their_owner (agentId : Uuid) (db : LeaseDb) (inbox : Inbox) {es : List Event}
    {s : Owners} (hrun : (system agentId db inbox).run (init db inbox) es = some s)
    (hpolls : (system agentId db inbox).EveryStep NoStalePoll (init db inbox) es) :
    (∀ id lease w, Forwarded s id lease → AppendedFor s id w → w ≤ lease) ∧
      ((system agentId db inbox).EveryStep NothingWaiting (init db inbox) es →
        ∀ id lease w, Forwarded s id lease → AppendedFor s id w → lease = w) := by
  constructor
  · have hstep : ∀ s e t, step agentId s e = some t → NoStalePoll s e t → Routed (· ≤ ·) s →
        Routed (· ≤ ·) t := by
      intro s e t hstep hclear hs
      refine routed_step hs ?_ hstep
      intro lease tick he
      subst he
      exact owner_le_of_noStalePoll hclear
    have hrouted := (system agentId db inbox).run_invariant_of_everyStep hstep hrun hpolls
      (routed_init _ db inbox)
    intro id lease w hforwarded hw
    exact routed_forwarded hrouted hforwarded hw
  · intro hwaiting
    have hstep : ∀ s e t, step agentId s e = some t → NoStalePoll s e t ∧ NothingWaiting s e t →
        Current s ∧ Routed (· = ·) s → Current t ∧ Routed (· = ·) t := by
      intro s e t hstep hclear hs
      refine ⟨current_step hs.1 hclear.2 hstep, routed_step hs.2 ?_ hstep⟩
      intro lease tick he
      subst he
      exact owner_eq_of_current hs.1 hclear.1
    have hboth := (system agentId db inbox).everyStep_and hpolls hwaiting
    obtain ⟨-, hrouted⟩ := (system agentId db inbox).run_invariant_of_everyStep hstep hrun hboth
      ⟨current_init db inbox, routed_init _ db inbox⟩
    intro id lease w hforwarded hw
    exact (routed_forwarded hrouted hforwarded hw).symm

/-! ### A takeover that is heard of, and one that is not -/

private def acquireEvents (lease : Nat) (instanceId : String) (commands : Nat) : List Event :=
  .acquire instanceId "" :: List.replicate commands (.command lease 1) ++ [.complete lease]

/-- A poll that finds nothing while reading from `0`, one that finds an entry, and its reply. -/
private def drainEvents (lease : Nat) : List Event := List.replicate 3 (.consume lease ⟨2, true, true⟩)

/-- Two instances one after the other; the first drops its lease before the second is sent anything. -/
private def heardEvents : List Event :=
  acquireEvents 0 "a" 7 ++ .deliver "hi" 2 :: drainEvents 0 ++ .consume 0 ⟨2, true, true⟩ ::
    acquireEvents 1 "b" 8 ++ [.dropLease 0, .deliver "again" 3] ++ drainEvents 1

theorem each_owner_gets_its_own :
    ∃ s, (system 7 .empty ⟨.empty, []⟩).run (init .empty ⟨.empty, []⟩) heardEvents = some s ∧
      Forwarded s (.mk 2 0) 0 ∧ AppendedFor s (.mk 2 0) 0 ∧
      Forwarded s (.mk 3 0) 1 ∧ AppendedFor s (.mk 3 0) 1 ∧
      ∀ id lease w, Forwarded s id lease → AppendedFor s id w → lease = w := by
  have hrun : ((system 7 .empty ⟨.empty, []⟩).run (init .empty ⟨.empty, []⟩) heardEvents).any (fun s =>
      Forwarded s (.mk 2 0) 0 ∧ AppendedFor s (.mk 2 0) 0 ∧ Forwarded s (.mk 3 0) 1 ∧
        AppendedFor s (.mk 3 0) 1) = true := by
    decide +kernel
  obtain ⟨s, hs, hfacts⟩ := (Option.any_eq_true _ _).mp hrun
  obtain ⟨hfirst, hfirst', hsecond, hsecond'⟩ := of_decide_eq_true hfacts
  refine ⟨s, hs, hfirst, hfirst', hsecond, hsecond', ?_⟩
  exact (entries_reach_their_owner 7 .empty ⟨.empty, []⟩ hs (by decide +kernel)).2 (by decide +kernel)

/-- The first instance does not hear of the takeover, and polls on. -/
private def unheardEvents : List Event :=
  acquireEvents 0 "a" 7 ++ .consume 0 ⟨2, true, true⟩ :: acquireEvents 1 "b" 8 ++
    .deliver "hi" 3 :: List.replicate 2 (.consume 0 ⟨3, true, true⟩)

theorem superseded_consumer_forwards :
    ∃ s, (system 7 .empty ⟨.empty, []⟩).run (init .empty ⟨.empty, []⟩) unheardEvents = some s ∧
      Forwarded s (.mk 3 0) 0 ∧ ¬ Forwarded s (.mk 3 0) 1 ∧ AppendedFor s (.mk 3 0) 1 ∧
      ¬ ∀ id lease w, Forwarded s id lease → AppendedFor s id w → lease = w := by
  have hrun : ((system 7 .empty ⟨.empty, []⟩).run (init .empty ⟨.empty, []⟩) unheardEvents).any (fun s =>
      Forwarded s (.mk 3 0) 0 ∧ ¬ Forwarded s (.mk 3 0) 1 ∧ AppendedFor s (.mk 3 0) 1) = true := by
    decide +kernel
  obtain ⟨s, hs, hfacts⟩ := (Option.any_eq_true _ _).mp hrun
  obtain ⟨hold, hnew, happended⟩ := of_decide_eq_true hfacts
  refine ⟨s, hs, hold, hnew, happended, ?_⟩
  intro hclaim
  have heq := hclaim _ 0 1 hold happended
  cases heq

end Owners

end Overacp
