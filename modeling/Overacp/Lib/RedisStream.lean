import Mathlib.Data.List.Count
import Mathlib.Data.Prod.Lex

/-!
# A Redis stream and its consumer group

The entries of a stream that one consumer group still has to do with: those it has given to a consumer
and not seen acknowledged, and after them those it has never given to anyone. Entries are not deleted
from the stream, so nothing else of it matters to the group.
-/

namespace Redis

/-- `{ms}-{seq}`, in the order of the stream. -/
abbrev StreamId := ℕ ×ₗ ℕ

def StreamId.mk (ms seq : Nat) : StreamId := toLex (ms, seq)

def StreamId.ms (id : StreamId) : Nat := (ofLex id).1

def StreamId.seq (id : StreamId) : Nat := (ofLex id).2

structure Entry where
  id : StreamId
  fields : List (String × List UInt8)
  deriving DecidableEq

/-- An entry of the pending entries list: whom it was last given to, when, and how many times. -/
structure Pending where
  entry : Entry
  consumer : String
  deliveredAt : Nat
  deliveries : Nat
  deriving DecidableEq

def Pending.id (p : Pending) : StreamId := p.entry.id

/-- One more delivery, to a consumer. -/
def Pending.deliver (p : Pending) (consumer : String) (now : Nat) : Pending :=
  { p with consumer := consumer, deliveredAt := now, deliveries := p.deliveries + 1 }

theorem map_id_map (f : Pending → Pending) (hf : ∀ p, (f p).entry = p.entry) (ps : List Pending) :
    (ps.map f).map Pending.id = ps.map Pending.id := by
  rw [List.map_map]
  exact List.map_congr_left fun p _ => congrArg Entry.id (hf p)

/-- The pending entries come first, then the undelivered ones, all in the order of their ids. -/
structure GroupStream where
  lastId : StreamId
  pending : List Pending
  fresh : List Entry
  sorted : (pending.map Pending.id ++ fresh.map Entry.id).Pairwise (· < ·)
  bounded : ∀ id ∈ pending.map Pending.id ++ fresh.map Entry.id, id ≤ lastId

namespace GroupStream

def empty : GroupStream := ⟨.mk 0 0, [], [], .nil, by simp⟩

/-- The ids of all entries the group is not done with. -/
def ids (s : GroupStream) : List StreamId := s.pending.map Pending.id ++ s.fresh.map Entry.id

/-- The id `XADD` makes for `*`: the clock, unless that would not be later than the last one. -/
def nextId (lastId : StreamId) (now : Nat) : StreamId :=
  if lastId.ms < now then .mk now 0 else .mk lastId.ms (lastId.seq + 1)

theorem lt_nextId (lastId : StreamId) (now : Nat) : lastId < nextId lastId now := by
  unfold nextId
  by_cases hlater : lastId.ms < now
  · rw [if_pos hlater]
    exact Prod.Lex.lt_iff.mpr (.inl hlater)
  · rw [if_neg hlater]
    exact Prod.Lex.lt_iff.mpr (.inr ⟨rfl, Nat.lt_succ_self _⟩)

/-! ### Commands -/

/-- `XADD key * ..`. -/
def xadd (s : GroupStream) (now : Nat) (fields : List (String × List UInt8)) : GroupStream where
  lastId := nextId s.lastId now
  pending := s.pending
  fresh := s.fresh ++ [⟨nextId s.lastId now, fields⟩]
  sorted := by
    rw [List.map_append, ← List.append_assoc]
    refine List.pairwise_append.mpr ⟨s.sorted, List.pairwise_singleton _ _, ?_⟩
    intro id hid new hnew
    rw [List.mem_singleton.mp hnew]
    exact lt_of_le_of_lt (s.bounded id hid) (lt_nextId _ _)
  bounded := by
    intro id hid
    rw [List.map_append, ← List.append_assoc] at hid
    rcases List.mem_append.mp hid with hold | hnew
    · exact le_of_lt (lt_of_le_of_lt (s.bounded id hold) (lt_nextId _ _))
    · exact le_of_eq (List.mem_singleton.mp hnew)

/-- The undelivered entry that comes first, given to a consumer: `XREADGROUP COUNT 1` from `>`. -/
def deliverFresh (s : GroupStream) (consumer : String) (now : Nat) : GroupStream where
  lastId := s.lastId
  pending := s.pending ++ (s.fresh.take 1).map fun e => ⟨e, consumer, now, 1⟩
  fresh := s.fresh.drop 1
  sorted := by
    have hsplit : s.fresh.map Entry.id = (s.fresh.take 1).map Entry.id ++ (s.fresh.drop 1).map Entry.id := by
      rw [← List.map_append, List.take_append_drop]
    have hsorted := s.sorted
    rw [hsplit, ← List.append_assoc] at hsorted
    rw [List.map_append, List.map_map]
    exact hsorted
  bounded := by
    have hsplit : s.fresh.map Entry.id = (s.fresh.take 1).map Entry.id ++ (s.fresh.drop 1).map Entry.id := by
      rw [← List.map_append, List.take_append_drop]
    have hbounded := s.bounded
    rw [hsplit, ← List.append_assoc] at hbounded
    rw [List.map_append, List.map_map]
    exact hbounded

def readNew (s : GroupStream) (consumer : String) (now : Nat) : Option (Entry × GroupStream) :=
  s.fresh.head?.map fun e => (e, s.deliverFresh consumer now)

/-- Change what is noted about pending entries, but not the entries. -/
def update (s : GroupStream) (f : Pending → Pending) (hf : ∀ p, (f p).entry = p.entry) :
    GroupStream where
  lastId := s.lastId
  pending := s.pending.map f
  fresh := s.fresh
  sorted := by
    rw [map_id_map f hf]
    exact s.sorted
  bounded := by
    rw [map_id_map f hf]
    exact s.bounded

/-- Note one more delivery of the entries with the given ids. -/
def redeliver (s : GroupStream) (claimed : List StreamId) (consumer : String) (now : Nat) : GroupStream :=
  s.update (fun p => if p.id ∈ claimed then p.deliver consumer now else p) fun p => by split <;> rfl

/-- The first entry pending for the consumer: `XREADGROUP COUNT 1` from `0`. -/
def readPending (s : GroupStream) (consumer : String) (now : Nat) : Option (Entry × GroupStream) :=
  (s.pending.find? fun p => p.consumer = consumer).map fun p =>
    (p.entry, s.redeliver [p.id] consumer now)

/-- `XACK`. -/
def ack (s : GroupStream) (id : StreamId) : GroupStream where
  lastId := s.lastId
  pending := s.pending.filter fun p => p.id ≠ id
  fresh := s.fresh
  sorted := s.sorted.sublist ((List.filter_sublist.map _).append_right _)
  bounded := by
    intro id' hid
    exact s.bounded id' (((List.filter_sublist.map _).append_right _).subset hid)

/-- The entries `XAUTOCLAIM .. 0-0 COUNT count` would claim: of the first ten times `count` pending
entries, the first `count` that have been idle for long enough. -/
def claimable (s : GroupStream) (minIdle count now : Nat) : List Pending :=
  ((s.pending.take (10 * count)).filter fun p => minIdle ≤ now - p.deliveredAt).take count

def autoclaim (s : GroupStream) (consumer : String) (minIdle count now : Nat) : List Entry × GroupStream :=
  let claimed := s.claimable minIdle count now
  (claimed.map Pending.entry, s.redeliver (claimed.map Pending.id) consumer now)

/-- The delivery count `XPENDING key group id id 1` reports, if the entry is pending. -/
def deliveries (s : GroupStream) (id : StreamId) : Option Nat :=
  (s.pending.find? fun p => p.id = id).map Pending.deliveries

/-! ### What the commands leave behind -/

@[simp] theorem ids_xadd (s : GroupStream) (now : Nat) (fields : List (String × List UInt8)) :
    (s.xadd now fields).ids = s.ids ++ [nextId s.lastId now] := by
  simp [ids, xadd]

@[simp] theorem ids_deliverFresh (s : GroupStream) (consumer : String) (now : Nat) :
    (s.deliverFresh consumer now).ids = s.ids := by
  have hsplit : s.fresh.map Entry.id = (s.fresh.take 1).map Entry.id ++ (s.fresh.drop 1).map Entry.id := by
    rw [← List.map_append, List.take_append_drop]
  rw [ids, ids, hsplit, deliverFresh, List.map_append, List.map_map, List.append_assoc]
  rfl

@[simp] theorem ids_redeliver (s : GroupStream) (claimed : List StreamId) (consumer : String)
    (now : Nat) : (s.redeliver claimed consumer now).ids = s.ids := by
  rw [ids, redeliver, update, map_id_map]
  · rfl
  · intro p
    split <;> rfl

theorem ids_ack_sublist (s : GroupStream) (id : StreamId) : (s.ack id).ids.Sublist s.ids :=
  (List.filter_sublist.map _).append_right _

theorem mem_readNew {s s' : GroupStream} {consumer : String} {now : Nat} {e : Entry}
    (h : s.readNew consumer now = some (e, s')) : e ∈ s.fresh ∧ s' = s.deliverFresh consumer now := by
  obtain ⟨e', hhead, heq⟩ := Option.map_eq_some_iff.mp h
  obtain ⟨rfl, rfl⟩ := Prod.mk.inj heq
  exact ⟨List.mem_of_mem_head? hhead, rfl⟩

theorem mem_readPending {s s' : GroupStream} {consumer : String} {now : Nat} {e : Entry}
    (h : s.readPending consumer now = some (e, s')) :
    ∃ p ∈ s.pending, p.consumer = consumer ∧ p.entry = e ∧ s' = s.redeliver [p.id] consumer now := by
  obtain ⟨p, hfind, heq⟩ := Option.map_eq_some_iff.mp h
  obtain ⟨rfl, rfl⟩ := Prod.mk.inj heq
  exact ⟨p, List.mem_of_find?_eq_some hfind, by simpa using List.find?_some hfind, rfl, rfl⟩

/-! ### The order of the ids -/

theorem pending_lt_fresh {s : GroupStream} {p : Pending} {e : Entry} (hp : p ∈ s.pending)
    (he : e ∈ s.fresh) : p.id < e.id :=
  (List.pairwise_append.mp s.sorted).2.2 p.id (List.mem_map_of_mem hp) e.id (List.mem_map_of_mem he)

theorem pending_le_lastId {s : GroupStream} {p : Pending} (hp : p ∈ s.pending) : p.id ≤ s.lastId :=
  s.bounded p.id (List.mem_append_left _ (List.mem_map_of_mem hp))

/-- A consumer that has entries pending is given the first of them. -/
theorem readPending_le {s : GroupStream} {p : Pending} (hp : p ∈ s.pending) (now : Nat) :
    ∃ q ∈ s.pending, q.consumer = p.consumer ∧ q.id ≤ p.id ∧
      s.readPending p.consumer now = some (q.entry, s.redeliver [q.id] p.consumer now) := by
  have hsorted : s.pending.Pairwise (Pending.id · < Pending.id ·) :=
    List.pairwise_map.mp (List.pairwise_append.mp s.sorted).1
  have hsome : (s.pending.find? fun q => q.consumer = p.consumer).isSome = true := by
    rw [List.find?_isSome]
    exact ⟨p, hp, by simp⟩
  obtain ⟨q, hq⟩ := Option.isSome_iff_exists.mp hsome
  refine ⟨q, List.mem_of_find?_eq_some hq, by simpa using List.find?_some hq, ?_, ?_⟩
  · -- everything before `q` belongs to someone else
    obtain ⟨-, before, after, hsplit, hbefore⟩ := List.find?_eq_some_iff_append.mp hq
    rw [hsplit] at hp hsorted
    rcases List.mem_append.mp hp with hp | hp
    · exact absurd (hbefore p hp) (by simp)
    · rcases List.mem_cons.mp hp with rfl | hp
      · exact le_refl _
      · have hlater := (List.pairwise_append.mp hsorted).2.1
        exact le_of_lt ((List.pairwise_cons.mp hlater).1 p hp)
  · rw [readPending, hq]
    rfl

/-- A consumer to whom the first pending entry belongs is given it. -/
theorem readPending_cons {s : GroupStream} {p : Pending} {ps : List Pending} (h : s.pending = p :: ps) (now : Nat) :
    s.readPending p.consumer now = some (p.entry, s.redeliver [p.id] p.consumer now) := by
  simp only [readPending, h, List.find?_cons, decide_true, Option.map_some]

theorem readNew_cons {s : GroupStream} {e : Entry} {es : List Entry} (h : s.fresh = e :: es) (consumer : String)
    (now : Nat) : s.readNew consumer now = some (e, s.deliverFresh consumer now) := by
  rw [readNew, h]
  rfl

theorem pending_deliverFresh_cons {s : GroupStream} {e : Entry} {es : List Entry} (h : s.fresh = e :: es)
    (consumer : String) (now : Nat) :
    (s.deliverFresh consumer now).pending = s.pending ++ [⟨e, consumer, now, 1⟩] := by
  show s.pending ++ (s.fresh.take 1).map _ = _
  rw [h]
  rfl

theorem fresh_deliverFresh_cons {s : GroupStream} {e : Entry} {es : List Entry} (h : s.fresh = e :: es)
    (consumer : String) (now : Nat) : (s.deliverFresh consumer now).fresh = es := by
  show s.fresh.drop 1 = es
  rw [h]
  rfl

/-- Acknowledging the first pending entry leaves the others. -/
theorem pending_ack_cons {s : GroupStream} {p : Pending} {ps : List Pending} (h : s.pending = p :: ps) :
    (s.ack p.id).pending = ps := by
  have hsorted := (List.pairwise_append.mp s.sorted).1
  rw [h, List.map_cons, List.pairwise_cons] at hsorted
  show s.pending.filter (fun q => q.id ≠ p.id) = ps
  rw [h, List.filter_cons_of_neg (by simp), List.filter_eq_self]
  intro q hq
  exact decide_eq_true (ne_of_gt (hsorted.1 q.id (List.mem_map_of_mem hq)))

/-! ### The entries in their order -/

/-- The entries the group is not done with, in the order of the stream. -/
def entries (s : GroupStream) : List Entry := s.pending.map Pending.entry ++ s.fresh

theorem map_id_entries (s : GroupStream) : s.entries.map Entry.id = s.ids := by
  rw [entries, List.map_append, List.map_map]
  rfl

theorem entries_sorted (s : GroupStream) : (s.entries.map Entry.id).Pairwise (· < ·) := by
  rw [map_id_entries]
  exact s.sorted

/-- A claim changes no entry. -/
theorem map_entry_redeliver (s : GroupStream) (claimed : List StreamId) (consumer : String) (now : Nat) :
    (s.redeliver claimed consumer now).pending.map Pending.entry = s.pending.map Pending.entry := by
  show (s.pending.map _).map Pending.entry = _
  rw [List.map_map]
  refine List.map_congr_left fun p _ => ?_
  simp only [Function.comp_apply]
  split <;> rfl

theorem own_redeliver {s : GroupStream} {consumer : String} (h : ∀ p ∈ s.pending, p.consumer = consumer)
    (claimed : List StreamId) (now : Nat) :
    ∀ p ∈ (s.redeliver claimed consumer now).pending, p.consumer = consumer := by
  intro p hp
  obtain ⟨q, hq, rfl⟩ := List.mem_map.mp hp
  split
  · rfl
  · exact h q hq

theorem entries_xadd (s : GroupStream) (now : Nat) (fields : List (String × List UInt8)) :
    (s.xadd now fields).entries = s.entries ++ [⟨nextId s.lastId now, fields⟩] :=
  (List.append_assoc ..).symm

/-! ### What other clients may do -/

/-- What a command may do to the group; a claim is a redelivery of any entries to any consumer. -/
inductive Effect where
  | xadd (now : Nat) (fields : List (String × List UInt8))
  | deliverFresh (consumer : String) (now : Nat)
  | redeliver (claimed : List StreamId) (consumer : String) (now : Nat)
  | ack (id : StreamId)
  deriving DecidableEq

def apply (s : GroupStream) : Effect → GroupStream
  | .xadd now fields => s.xadd now fields
  | .deliverFresh consumer now => s.deliverFresh consumer now
  | .redeliver claimed consumer now => s.redeliver claimed consumer now
  | .ack id => s.ack id

theorem lastId_le_apply (s : GroupStream) (eff : Effect) : s.lastId ≤ (s.apply eff).lastId := by
  cases eff with
  | xadd now fields => exact le_of_lt (lt_nextId _ _)
  | deliverFresh | redeliver | ack => exact le_refl _

/-- An undelivered entry was there before, or is later than all that were. -/
theorem fresh_apply {s : GroupStream} {eff : Effect} {e : Entry} (he : e ∈ (s.apply eff).fresh) :
    e ∈ s.fresh ∨ s.lastId < e.id := by
  cases eff with
  | xadd now fields =>
      rcases List.mem_append.mp he with hold | hnew
      · exact .inl hold
      · rw [List.mem_singleton.mp hnew]
        exact .inr (lt_nextId _ _)
  | deliverFresh => exact .inl (List.mem_of_mem_drop he)
  | redeliver | ack => exact .inl he

/-- A pending entry was pending before, or undelivered. -/
theorem pending_apply {s : GroupStream} {eff : Effect} {p : Pending} (hp : p ∈ (s.apply eff).pending) :
    (∃ q ∈ s.pending, q.entry = p.entry) ∨ p.entry ∈ s.fresh := by
  cases eff with
  | xadd => exact .inl ⟨p, hp, rfl⟩
  | deliverFresh consumer now =>
      rcases List.mem_append.mp hp with hold | hnew
      · exact .inl ⟨p, hold, rfl⟩
      · obtain ⟨e, he, rfl⟩ := List.mem_map.mp hnew
        exact .inr (List.mem_of_mem_take he)
  | redeliver claimed consumer now =>
      obtain ⟨q, hq, rfl⟩ := List.mem_map.mp hp
      refine .inl ⟨q, hq, ?_⟩
      split <;> rfl
  | ack id => exact .inl ⟨p, (List.mem_filter.mp hp).1, rfl⟩

/-- Only an acknowledgement takes an entry off the list, and only a claim gives it to another consumer. -/
theorem pending_kept {s : GroupStream} {eff : Effect} {p : Pending} {consumer : String}
    (hp : p ∈ s.pending) (hconsumer : p.consumer = consumer) (hack : eff ≠ .ack p.id)
    (hclaim : ∀ claimed other now, eff = .redeliver claimed other now → p.id ∈ claimed →
      other = consumer) :
    ∃ q ∈ (s.apply eff).pending, q.id = p.id ∧ q.consumer = consumer := by
  cases eff with
  | xadd => exact ⟨p, hp, rfl, hconsumer⟩
  | deliverFresh => exact ⟨p, List.mem_append_left _ hp, rfl, hconsumer⟩
  | redeliver claimed other now =>
      refine ⟨_, List.mem_map_of_mem hp, ?_, ?_⟩
      · split <;> rfl
      · split
        · rename_i hclaimed
          exact hclaim claimed other now rfl hclaimed
        · exact hconsumer
  | ack id =>
      have hne : p.id ≠ id := fun heq => hack (by rw [heq])
      exact ⟨p, List.mem_filter.mpr ⟨hp, by simpa using hne⟩, rfl, hconsumer⟩

/-- Only an append changes the last id, and it alone adds to the entries. -/
theorem ids_apply_subset {s : GroupStream} {eff : Effect} (heff : ∀ now fields, eff ≠ .xadd now fields) :
    (s.apply eff).lastId = s.lastId ∧ (s.apply eff).ids ⊆ s.ids := by
  cases eff with
  | xadd now fields => exact absurd rfl (heff now fields)
  | deliverFresh consumer now => exact ⟨rfl, fun _ h => ids_deliverFresh s consumer now ▸ h⟩
  | redeliver claimed consumer now => exact ⟨rfl, fun _ h => ids_redeliver s claimed consumer now ▸ h⟩
  | ack id => exact ⟨rfl, (ids_ack_sublist s id).subset⟩

/-- The property holds of every entry the group is not done with. -/
structure Forall (P : Entry → Prop) (s : GroupStream) : Prop where
  pending : ∀ p ∈ s.pending, P p.entry
  fresh : ∀ e ∈ s.fresh, P e

theorem forall_xadd {P : Entry → Prop} {s : GroupStream} {now : Nat} {fields : List (String × List UInt8)}
    (h : s.Forall P) (hnew : P ⟨nextId s.lastId now, fields⟩) : (s.xadd now fields).Forall P := by
  refine ⟨h.pending, ?_⟩
  intro e he
  rcases List.mem_append.mp he with hold | hlast
  · exact h.fresh e hold
  · rw [List.mem_singleton.mp hlast]
    exact hnew

theorem forall_apply {P : Entry → Prop} {s : GroupStream} {eff : Effect} (h : s.Forall P)
    (heff : ∀ now fields, eff ≠ .xadd now fields) : (s.apply eff).Forall P := by
  refine ⟨?_, ?_⟩
  · intro p hp
    rcases pending_apply hp with ⟨q, hq, hsame⟩ | hfresh
    · rw [← hsame]
      exact h.pending q hq
    · exact h.fresh p.entry hfresh
  · intro e he
    cases eff with
    | xadd now fields => exact absurd rfl (heff now fields)
    | deliverFresh => exact h.fresh e (List.mem_of_mem_drop he)
    | redeliver | ack => exact h.fresh e he

theorem Forall.entries {P : Entry → Prop} {s : GroupStream} (h : s.Forall P) : ∀ e ∈ s.entries, P e := by
  intro e he
  rcases List.mem_append.mp he with hpending | hfresh
  · obtain ⟨p, hp, rfl⟩ := List.mem_map.mp hpending
    exact h.pending p hp
  · exact h.fresh e hfresh

/-! ### The entries before one -/

/-- How many entries up to `limit` are pending, but for the one that is being dealt with. -/
def backlog (s : GroupStream) (limit : StreamId) (busy : Option StreamId) : Nat :=
  s.pending.countP fun p => p.id ≤ limit ∧ some p.id ≠ busy

theorem backlog_le_length (s : GroupStream) (limit : StreamId) (busy : Option StreamId) :
    s.backlog limit busy ≤ s.pending.length := List.countP_le_length

theorem backlog_pos {s : GroupStream} {p : Pending} {busy : Option StreamId} (hp : p ∈ s.pending)
    (hbusy : busy ≠ some p.id) : 0 < s.backlog p.id busy :=
  List.countP_pos_iff.mpr ⟨p, hp, by simpa using hbusy.symm⟩

@[simp] theorem backlog_redeliver (s : GroupStream) (claimed : List StreamId) (consumer : String)
    (now : Nat) (limit : StreamId) (busy : Option StreamId) :
    (s.redeliver claimed consumer now).backlog limit busy = s.backlog limit busy := by
  rw [backlog, redeliver, update, List.countP_map]
  apply List.countP_congr
  intro p _
  simp only [Function.comp_apply]
  split <;> rfl

theorem backlog_ack_le (s : GroupStream) (id limit : StreamId) (busy : Option StreamId) :
    (s.ack id).backlog limit busy ≤ s.backlog limit busy :=
  List.filter_sublist.countP_le

theorem backlog_ack (s : GroupStream) (id limit : StreamId) :
    (s.ack id).backlog limit none = s.backlog limit (some id) := by
  rw [backlog, ack, List.countP_filter]
  apply List.countP_congr
  intro p _
  simp

/-- While an entry is pending, no new ones come before it. -/
theorem backlog_apply_le {s : GroupStream} {p : Pending} (hp : p ∈ s.pending) (eff : Effect)
    (busy : Option StreamId) : (s.apply eff).backlog p.id busy ≤ s.backlog p.id busy := by
  cases eff with
  | xadd => exact le_refl _
  | deliverFresh consumer now =>
      have hlater : ((s.fresh.take 1).map fun e => (⟨e, consumer, now, 1⟩ : Pending)).countP
          (fun q => q.id ≤ p.id ∧ some q.id ≠ busy) = 0 := by
        rw [List.countP_eq_zero]
        intro q hq
        obtain ⟨e, he, rfl⟩ := List.mem_map.mp hq
        have hlt : p.id < e.id := pending_lt_fresh hp (List.mem_of_mem_take he)
        intro hle
        exact absurd hlt (not_lt_of_ge (of_decide_eq_true hle).1)
      show List.countP _ (s.pending ++ _) ≤ _
      rw [List.countP_append, hlater]
      exact le_refl _
  | redeliver claimed consumer now => exact le_of_eq (backlog_redeliver s claimed consumer now _ _)
  | ack id => exact backlog_ack_le s id _ _

/-- Taking up an entry takes it off the backlog. -/
theorem backlog_busy {s : GroupStream} {p : Pending} {limit : StreamId} (hp : p ∈ s.pending)
    (hle : p.id ≤ limit) : s.backlog limit (some p.id) + 1 ≤ s.backlog limit none := by
  obtain ⟨before, after, hsplit⟩ := List.append_of_mem hp
  have hmono (ps : List Pending) :
      ps.countP (fun q => q.id ≤ limit ∧ some q.id ≠ some p.id) ≤
        ps.countP (fun q => q.id ≤ limit ∧ some q.id ≠ none) := by
    apply List.countP_mono_left
    intro q _ hq
    simp only [decide_eq_true_eq] at hq ⊢
    exact ⟨hq.1, by simp⟩
  have hbefore := hmono before
  have hafter := hmono after
  simp only [backlog, hsplit, List.countP_append, List.countP_cons, hle, ne_eq, not_true_eq_false,
    and_false, decide_false, reduceCtorEq, not_false_eq_true, and_self, decide_true] at hbefore hafter ⊢
  simp only [if_false, if_true] at hbefore hafter ⊢
  omega

end GroupStream

end Redis
