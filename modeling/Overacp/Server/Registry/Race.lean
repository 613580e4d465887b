import Overacp.Server.Registry.Listing

/-!
# Readers of the registry that race a writer

The table and the log of the in-memory registry are accessed one after the other, by `register` and
`unregister` as well as by `list` and `describe`. Here each access is a step of its own, so one call that
writes and one that reads interleave. The order of the writes keeps the agent in one of the two at every
moment, but not from the reader's first access to its second: which interleavings show the agent is said
by how far the writer was at those accesses.
-/

namespace Overacp

namespace Race

open InMemoryAgentRegistry

/-! ### One access at a time -/

/-- What a call of `register` or `unregister` has still to do. -/
inductive Writer where
  | insert (agentId : Uuid) (entry : Arc AgentEntry)
  | purge (agentId : Uuid)
  | remove (agentId : Uuid) (now : Instant)
  | push (entry : RecentEntry)
  | done

/-- What a call of `list` or `describe` has still to do; `check` holds the lock on the log. -/
inductive Reader where
  | snapshot (now : Instant)
  | lock (now : Instant) (out : List AgentDescription)
  | check (now : Instant) (out : List AgentDescription) (rest : List RecentEntry)
  | listed (out : List AgentDescription)
  | get (agentId : Uuid) (now : Instant)
  | find (agentId : Uuid) (now : Instant)
  | described (result : Option AgentDescription)

inductive Actor where
  | writer
  | reader
  deriving DecidableEq, Repr

structure State where
  registry : InMemoryAgentRegistry
  writer : Writer
  reader : Reader

def Writer.step (registry : InMemoryAgentRegistry) : Writer → Option (InMemoryAgentRegistry × Writer)
  | .insert agentId entry =>
      some ({ registry with connected := registry.connected.insert agentId entry }, .purge agentId)
  | .purge agentId => some (registry.purgeRecent agentId, .done)
  | .remove agentId now =>
      match registry.connected.lookup agentId with
      | none => some (registry, .done)
      | some entry =>
          some ({ registry with connected := registry.connected.erase agentId },
            .push ⟨agentId, entry.val.claims.user, now⟩)
  | .push entry => some (registry.pushRecent entry, .done)
  | .done => none

/-- The next access of the writer is one to the log. -/
def Writer.waits : Writer → Bool
  | .purge _ | .push _ => true
  | _ => false

def Reader.step (registry : InMemoryAgentRegistry) : Reader → Option Reader
  | .snapshot now =>
      some (.lock now (registry.connected.entries.map fun e => .fromConnected e.1 e.2.val now))
  | .lock now out => some (.check now out registry.recent)
  | .check now out (r :: rest) =>
      if registry.isConnected r.agentId then some (.check now out rest)
      else some (.check now (out ++ [.fromRecent r now]) rest)
  | .check _ out [] => some (.listed out)
  | .listed _ => none
  | .get agentId now =>
      match registry.get agentId with
      | some entry => some (.described (some (.fromConnected agentId entry.val now)))
      | none => some (.find agentId now)
  | .find agentId now =>
      some (.described
        ((registry.recent.find? fun r => r.agentId = agentId).map fun r => .fromRecent r now))
  | .described _ => none

def Reader.locks : Reader → Bool
  | .check _ _ _ => true
  | _ => false

def step (s : State) : Actor → Option State
  | .writer =>
      if s.writer.waits && s.reader.locks then none
      else (s.writer.step s.registry).map fun next => { s with registry := next.1, writer := next.2 }
  | .reader => (s.reader.step s.registry).map fun reader => { s with reader := reader }

def system (registry : InMemoryAgentRegistry) (writer : Writer) (reader : Reader) :
    Transition.System State Actor where
  init := ⟨registry, writer, reader⟩
  step := step

/-- The calls that write about an agent, before their first access. -/
inductive Writes (agentId : Uuid) : Writer → Prop
  | register (entry : Arc AgentEntry) : Writes agentId (.insert agentId entry)
  | unregister (now : Instant) : Writes agentId (.remove agentId now)

/-- The calls that read about an agent, before their first access. -/
inductive Reads (agentId : Uuid) : Reader → Prop
  | list (now : Instant) : Reads agentId (.snapshot now)
  | describe (now : Instant) : Reads agentId (.get agentId now)

/-- The call has returned. -/
def Reader.Returned : Reader → Prop
  | .listed _ | .described _ => True
  | _ => False

/-- The agent is in the listing that was returned, or a description of it was. -/
def Reader.Shows (agentId : Uuid) : Reader → Prop
  | .listed out => ∃ d ∈ out, d.agentId = agentId
  | .described result => result.isSome = true
  | _ => False

/-! ### Where the writer was -/

/-- The accesses of the writer before the access of the reader with the number, counted from zero. -/
def seen : List Actor → Nat → Nat
  | [], _ => 0
  | .writer :: es, k => seen es k + 1
  | .reader :: _, 0 => 0
  | .reader :: es, k + 1 => seen es k

theorem seen_mono (es : List Actor) {k k' : Nat} (hle : k ≤ k') : seen es k ≤ seen es k' := by
  induction es generalizing k k' with
  | nil => exact Nat.le_refl 0
  | cons e es ih =>
      cases e with
      | writer => exact Nat.succ_le_succ (ih hle)
      | reader =>
          cases k with
          | zero => exact Nat.zero_le _
          | succ k =>
              obtain ⟨k', rfl⟩ : ∃ j, k' = j + 1 := ⟨k' - 1, by omega⟩
              exact ih (by omega)

/-- The registry after so many accesses of the writer. -/
def after : InMemoryAgentRegistry → Writer → Nat → InMemoryAgentRegistry
  | registry, _, 0 => registry
  | registry, writer, n + 1 =>
      match writer.step registry with
      | none => registry
      | some (registry, writer) => after registry writer n

theorem after_succ {registry registry' : InMemoryAgentRegistry} {writer writer' : Writer}
    (hstep : writer.step registry = some (registry', writer')) (n : Nat) :
    after registry writer (n + 1) = after registry' writer' n := by
  rw [after, hstep]

theorem step_writer {s t : State} (hstep : step s .writer = some t) :
    s.writer.step s.registry = some (t.registry, t.writer) ∧ t.reader = s.reader := by
  rw [step] at hstep
  split at hstep
  · cases hstep
  · obtain ⟨⟨registry, writer⟩, hwriter, rfl⟩ := Option.map_eq_some_iff.mp hstep
    exact ⟨hwriter, rfl⟩

theorem step_reader {s t : State} (hstep : step s .reader = some t) :
    s.reader.step s.registry = some t.reader ∧ t.registry = s.registry ∧ t.writer = s.writer := by
  obtain ⟨reader, hreader, rfl⟩ := Option.map_eq_some_iff.mp hstep
  exact ⟨hreader, rfl, rfl⟩

/-! ### What the reader shows -/

section Shows

variable {registry₀ : InMemoryAgentRegistry} {writer₀ : Writer} {reader₀ : Reader}

/-- A call that has returned does nothing more. -/
theorem run_returned {s t : State} {es : List Actor}
    (hrun : (system registry₀ writer₀ reader₀).run s es = some t) (hreturned : s.reader.Returned) :
    t.reader = s.reader := by
  induction es generalizing s with
  | nil =>
      cases hrun
      rfl
  | cons e es ih =>
      obtain ⟨u, hu, hrest⟩ := (system registry₀ writer₀ reader₀).run_cons_eq_some.mp hrun
      cases e with
      | writer =>
          obtain ⟨-, hreader⟩ := step_writer hu
          rw [← hreader] at hreturned ⊢
          exact ih hrest hreturned
      | reader =>
          obtain ⟨hreader, -⟩ := step_reader hu
          cases hs : s.reader with
          | listed out =>
              rw [hs] at hreader
              cases hreader
          | described result =>
              rw [hs] at hreader
              cases hreader
          | _ =>
              rw [hs] at hreturned
              cases hreturned

/-- The reader's next access finds the registry as the writer has left it by then, and from there on the
writer's accesses are counted anew. -/
theorem run_to_reader {s t : State} {es : List Actor}
    (hrun : (system registry₀ writer₀ reader₀).run s es = some t) (hpending : ¬ s.reader.Returned)
    (hreturned : t.reader.Returned) :
    ∃ (u : State) (reader : Reader) (es' : List Actor), u.reader = s.reader ∧
      u.registry = after s.registry s.writer (seen es 0) ∧
      u.reader.step u.registry = some reader ∧
      (system registry₀ writer₀ reader₀).run { u with reader := reader } es' = some t ∧
      ∀ k, after s.registry s.writer (seen es (k + 1)) = after u.registry u.writer (seen es' k) := by
  induction es generalizing s with
  | nil =>
      cases hrun
      exact absurd hreturned hpending
  | cons e es ih =>
      obtain ⟨v, hv, hrest⟩ := (system registry₀ writer₀ reader₀).run_cons_eq_some.mp hrun
      cases e with
      | writer =>
          obtain ⟨hwriter, hreader⟩ := step_writer hv
          obtain ⟨u, reader, es', husame, hregistry, hstep, hlast, hafter⟩ := ih hrest (hreader ▸ hpending)
          refine ⟨u, reader, es', husame.trans hreader, ?_, hstep, hlast, fun k => ?_⟩
          · rw [hregistry, seen, after_succ hwriter]
          · rw [seen, after_succ hwriter, hafter]
      | reader =>
          obtain ⟨hreader, hregistry, hwriter⟩ := step_reader hv
          refine ⟨s, v.reader, es, rfl, rfl, hreader, ?_, fun k => rfl⟩
          rw [← hrest, ← hregistry, ← hwriter]

variable {agentId : Uuid} {now : Instant}

theorem shows_find {s t : State} {es : List Actor}
    (hrun : (system registry₀ writer₀ reader₀).run s es = some t) (hs : s.reader = .find agentId now)
    (hreturned : t.reader.Returned) :
    t.reader.Shows agentId ↔ agentId ∈ (after s.registry s.writer (seen es 0)).recentIds := by
  obtain ⟨u, reader, es', hreader, hregistry, hstep, hrest, -⟩ :=
    run_to_reader hrun (by rw [hs]; exact id) hreturned
  rw [hreader, hs] at hstep
  cases hstep
  rw [run_returned hrest trivial, ← hregistry]
  simp only [Reader.Shows, Option.isSome_map, List.find?_isSome, decide_eq_true_eq, recentIds, List.mem_map]

/-- A description is found in the table at the first access, or in the log at the second. -/
theorem shows_get {s t : State} {es : List Actor}
    (hrun : (system registry₀ writer₀ reader₀).run s es = some t) (hs : s.reader = .get agentId now)
    (hreturned : t.reader.Returned) :
    t.reader.Shows agentId ↔ (after s.registry s.writer (seen es 0)).isConnected agentId = true ∨
      agentId ∈ (after s.registry s.writer (seen es 1)).recentIds := by
  obtain ⟨u, reader, es', hreader, hregistry, hstep, hrest, hafter⟩ :=
    run_to_reader hrun (by rw [hs]; exact id) hreturned
  rw [hreader, hs, Reader.step] at hstep
  rw [← hregistry, hafter, isConnected_eq_get]
  cases hget : u.registry.get agentId with
  | some entry =>
      rw [hget] at hstep
      cases hstep
      rw [run_returned hrest trivial]
      exact iff_of_true rfl (.inl rfl)
  | none =>
      rw [hget] at hstep
      cases hstep
      rw [shows_find hrest rfl hreturned]
      simp

/-- The walk over the log passes over who is in the table when it comes to it. -/
theorem shows_check {s t : State} {es : List Actor} {out : List AgentDescription} {rest : List RecentEntry}
    (hrun : (system registry₀ writer₀ reader₀).run s es = some t) (hs : s.reader = .check now out rest)
    (hreturned : t.reader.Returned) :
    t.reader.Shows agentId ↔ (∃ d ∈ out, d.agentId = agentId) ∨
      ∃ i r, rest[i]? = some r ∧ r.agentId = agentId ∧
        (after s.registry s.writer (seen es i)).isConnected agentId = false := by
  induction rest generalizing s es out with
  | nil =>
      obtain ⟨u, reader, es', hreader, -, hstep, hrest, -⟩ :=
        run_to_reader hrun (by rw [hs]; exact id) hreturned
      rw [hreader, hs] at hstep
      cases hstep
      rw [run_returned hrest trivial]
      simp [Reader.Shows]
  | cons r rest ih =>
      obtain ⟨u, reader, es', hreader, hregistry, hstep, hrest, hafter⟩ :=
        run_to_reader hrun (by rw [hs]; exact id) hreturned
      rw [hreader, hs, Reader.step] at hstep
      have hsplit : (∃ i r', (r :: rest)[i]? = some r' ∧ r'.agentId = agentId ∧
            (after s.registry s.writer (seen es i)).isConnected agentId = false) ↔
          (r.agentId = agentId ∧ u.registry.isConnected agentId = false) ∨
            ∃ i r', rest[i]? = some r' ∧ r'.agentId = agentId ∧
              (after u.registry u.writer (seen es' i)).isConnected agentId = false := by
        constructor
        · rintro ⟨i, r', hi, hagent, hgone⟩
          cases i with
          | zero =>
              cases hi
              exact .inl ⟨hagent, hregistry ▸ hgone⟩
          | succ i => exact .inr ⟨i, r', hi, hagent, hafter i ▸ hgone⟩
        · rintro (⟨hagent, hgone⟩ | ⟨i, r', hi, hagent, hgone⟩)
          · exact ⟨0, r, rfl, hagent, hregistry ▸ hgone⟩
          · exact ⟨i + 1, r', hi, hagent, (hafter i).symm ▸ hgone⟩
      rw [hsplit]
      by_cases hconnected : u.registry.isConnected r.agentId = true
      · rw [if_pos hconnected] at hstep
        cases hstep
        rw [ih hrest rfl]
        have hpassed : ¬ (r.agentId = agentId ∧ u.registry.isConnected agentId = false) := by
          rintro ⟨rfl, hgone⟩
          rw [hconnected] at hgone
          cases hgone
        simp [hpassed]
      · rw [if_neg hconnected] at hstep
        cases hstep
        rw [ih hrest rfl]
        have hkept : (∃ d ∈ out ++ [AgentDescription.fromRecent r now], d.agentId = agentId) ↔
            (∃ d ∈ out, d.agentId = agentId) ∨
              (r.agentId = agentId ∧ u.registry.isConnected agentId = false) := by
          simp only [List.mem_append, List.mem_singleton, or_and_right, exists_or, exists_eq_left]
          refine or_congr_right ⟨?_, And.left⟩
          rintro rfl
          exact ⟨rfl, (Bool.not_eq_true _).mp hconnected⟩
        rw [hkept, or_assoc]

/-- A listing has who was in the table at the first access, and who was in the log at the second one and
not in the table when the walk came to it. -/
theorem shows_snapshot {s t : State} {es : List Actor}
    (hrun : (system registry₀ writer₀ reader₀).run s es = some t) (hs : s.reader = .snapshot now)
    (hreturned : t.reader.Returned) :
    t.reader.Shows agentId ↔ (after s.registry s.writer (seen es 0)).isConnected agentId = true ∨
      ∃ i, (after s.registry s.writer (seen es 1)).recentIds[i]? = some agentId ∧
        (after s.registry s.writer (seen es (i + 2))).isConnected agentId = false := by
  obtain ⟨u, reader, es₁, hreader, hregistry, hstep, hrest, hafter⟩ :=
    run_to_reader hrun (by rw [hs]; exact id) hreturned
  rw [hreader, hs] at hstep
  cases hstep
  obtain ⟨v, reader, es₂, hreader₂, hregistry₂, hstep₂, hrest₂, hafter₂⟩ :=
    run_to_reader hrest id hreturned
  rw [hreader₂] at hstep₂
  cases hstep₂
  rw [shows_check hrest₂ rfl hreturned, ← hregistry, hafter, ← hregistry₂]
  refine or_congr ?_ (exists_congr fun i => ?_)
  · rw [isConnected, Option.isSome_iff_exists]
    constructor
    · rintro ⟨d, hd, rfl⟩
      obtain ⟨⟨agentId, entry⟩, hentry, rfl⟩ := List.mem_map.mp hd
      exact ⟨entry, AList.mem_lookup_iff.mpr hentry⟩
    · rintro ⟨entry, hentry⟩
      exact ⟨_, List.mem_map_of_mem (AList.mem_lookup_iff.mp hentry), rfl⟩
  · rw [hafter, hafter₂, recentIds, List.getElem?_map, Option.map_eq_some_iff]
    simp only [← exists_and_right, and_assoc]

end Shows

/-! ### How far the writer is -/

section Stages

variable {registry : InMemoryAgentRegistry} {agentId : Uuid}

/-- After its two accesses a call of `register` has registered the agent. -/
theorem after_insert_two (registry : InMemoryAgentRegistry) (agentId : Uuid) (entry : Arc AgentEntry) (n : Nat) :
    after registry (.insert agentId entry) (n + 2) = (registry.register agentId entry).2 := by
  cases n with
  | zero => rfl
  | succ n => rfl

theorem after_remove_of_connected (now : Instant) (h : registry.isConnected agentId = true) (n : Nat) :
    (after registry (.remove agentId now) (n + 1)).isConnected agentId = false ∧
      (after registry (.remove agentId now) 1).recentIds = registry.recentIds ∧
      after registry (.remove agentId now) (n + 2) = registry.unregister agentId now := by
  obtain ⟨entry, hentry⟩ := Option.isSome_iff_exists.mp h
  have hstep : (Writer.remove agentId now).step registry =
      some ({ registry with connected := registry.connected.erase agentId },
        .push ⟨agentId, entry.val.claims.user, now⟩) := by
    rw [Writer.step, hentry]
  have htwo : ∀ n, after registry (.remove agentId now) (n + 2) = registry.unregister agentId now := by
    intro n
    rw [after_succ hstep, unregister, hentry]
    cases n with
    | zero => rfl
    | succ n => rfl
  refine ⟨?_, ?_, htwo n⟩
  · cases n with
    | zero =>
        rw [after_succ hstep]
        simp [after, isConnected]
    | succ n =>
        rw [htwo, isConnected_unregister]
        simp
  · rw [after_succ hstep]
    rfl

theorem after_remove_of_not_connected (now : Instant) (h : registry.isConnected agentId = false) (n : Nat) :
    after registry (.remove agentId now) n = registry := by
  have hlookup : registry.connected.lookup agentId = none := by
    rwa [isConnected, Option.isSome_eq_false_iff, Option.isNone_iff_eq_none] at h
  cases n with
  | zero => rfl
  | succ n =>
      have hstep : (Writer.remove agentId now).step registry = some (registry, .done) := by
        rw [Writer.step, hlookup]
      rw [after_succ hstep]
      cases n with
      | zero => rfl
      | succ n => rfl

theorem isConnected_after_insert (registry : InMemoryAgentRegistry) (agentId : Uuid) (entry : Arc AgentEntry)
    (n : Nat) : (after registry (.insert agentId entry) n).isConnected agentId = true ↔
      registry.isConnected agentId = true ∨ 1 ≤ n := by
  rcases n with _ | _ | n
  · simp [after]
  · rw [after_succ rfl]
    simp [after, isConnected]
  · rw [after_insert_two, isConnected_register]
    simp

theorem recentIds_after_insert (registry : InMemoryAgentRegistry) (agentId : Uuid) (entry : Arc AgentEntry)
    (n : Nat) : (after registry (.insert agentId entry) n).recentIds =
      if n ≤ 1 then registry.recentIds else RecentLog.purge registry.recentIds agentId := by
  rcases n with _ | _ | n
  · rfl
  · rfl
  · rw [after_insert_two, if_neg (by omega)]
    exact recentIds_purgeRecent _ agentId

theorem isConnected_after_remove (now : Instant) (h : registry.isConnected agentId = true) (n : Nat) :
    (after registry (.remove agentId now) n).isConnected agentId = true ↔ n = 0 := by
  cases n with
  | zero => exact iff_of_true h rfl
  | succ n =>
      rw [(after_remove_of_connected now h n).1]
      simp

theorem mem_recentIds_after_remove (now : Instant) (h : registry.isConnected agentId = true)
    (hapart : agentId ∉ registry.recentIds) (n : Nat) :
    agentId ∈ (after registry (.remove agentId now) n).recentIds ↔ 2 ≤ n := by
  rcases n with _ | _ | n
  · exact iff_of_false hapart (by omega)
  · rw [(after_remove_of_connected now h 0).2.1]
    exact iff_of_false hapart (by omega)
  · rw [(after_remove_of_connected now h n).2.2, recentIds_unregister now h, RecentLog.push]
    exact iff_of_true (List.mem_append_right _ List.mem_cons_self) (by omega)

end Stages

/-! ### Which interleavings show the agent -/

/-- An agent that comes back is shown if it was connected all along, if it was in the table at the reader's
first access, or if the reader is past the agent's place in the log before it is: for a description, before
the agent is out of the log, for a listing, before it is in the table. An agent that leaves is shown if it
was not connected, if it was still in the table at the first access, or if it was in the log at the second. -/
def InTime (registry : InMemoryAgentRegistry) (agentId : Uuid) : Writer → Reader → List Actor → Prop
  | .insert _ _, .snapshot _, es =>
      registry.isConnected agentId = true ∨ 1 ≤ seen es 0 ∨ seen es (registry.recentIds.idxOf agentId + 2) = 0
  | .insert _ _, .get _ _, es => registry.isConnected agentId = true ∨ 1 ≤ seen es 0 ∨ seen es 1 ≤ 1
  | .remove _ _, _, es => registry.isConnected agentId = false ∨ seen es 0 = 0 ∨ 2 ≤ seen es 1
  | _, _, _ => True

section InTime

variable {registry : InMemoryAgentRegistry} {history : List Uuid} {agentId : Uuid} {now now' : Instant}
  {entry : Arc AgentEntry} {es : List Actor} {t : State}

theorem register_describe_iff (hknown : registry.isConnected agentId = true ∨ agentId ∈ registry.recentIds)
    (hrun : (system registry (.insert agentId entry) (.get agentId now)).run
      ⟨registry, .insert agentId entry, .get agentId now⟩ es = some t) (hreturned : t.reader.Returned) :
    t.reader.Shows agentId ↔ InTime registry agentId (.insert agentId entry) (.get agentId now) es := by
  rw [shows_get hrun rfl hreturned, InTime, isConnected_after_insert, recentIds_after_insert, or_assoc]
  by_cases hconnected : registry.isConnected agentId = true
  · simp [hconnected]
  · have hrecent := hknown.resolve_left hconnected
    by_cases hlate : seen es 1 ≤ 1
    · simp [hlate, hrecent]
    · simp [hlate, RecentLog.mem_purge]

theorem register_list_iff (hconsistent : Consistent registry history)
    (hknown : registry.isConnected agentId = true ∨ agentId ∈ registry.recentIds)
    (hrun : (system registry (.insert agentId entry) (.snapshot now)).run
      ⟨registry, .insert agentId entry, .snapshot now⟩ es = some t) (hreturned : t.reader.Returned) :
    t.reader.Shows agentId ↔ InTime registry agentId (.insert agentId entry) (.snapshot now) es := by
  rw [shows_snapshot hrun rfl hreturned, InTime, isConnected_after_insert, or_assoc]
  by_cases hconnected : registry.isConnected agentId = true
  · simp [hconnected]
  · have hrecent := hknown.resolve_left hconnected
    have habsent : ∀ n, (after registry (.insert agentId entry) n).isConnected agentId = false ↔ n = 0 := by
      intro n
      rw [← Bool.not_eq_true, isConnected_after_insert]
      simp [hconnected]
    refine or_congr_right (or_congr_right ?_)
    simp only [habsent]
    constructor
    · rintro ⟨i, hi, hearly⟩
      have hlog := seen_mono es (show 1 ≤ i + 2 by omega)
      rw [recentIds_after_insert, if_pos (by omega)] at hi
      obtain ⟨hlt, hget⟩ := List.getElem?_eq_some_iff.mp hi
      rw [← hget, hconsistent.log.nodup.idxOf_getElem i hlt]
      exact hearly
    · intro hearly
      have hlog := seen_mono es (show 1 ≤ registry.recentIds.idxOf agentId + 2 by omega)
      refine ⟨registry.recentIds.idxOf agentId, ?_, hearly⟩
      rw [recentIds_after_insert, if_pos (by omega)]
      exact List.getElem?_idxOf hrecent

theorem unregister_describe_iff (hconsistent : Consistent registry history)
    (hknown : registry.isConnected agentId = true ∨ agentId ∈ registry.recentIds)
    (hrun : (system registry (.remove agentId now') (.get agentId now)).run
      ⟨registry, .remove agentId now', .get agentId now⟩ es = some t) (hreturned : t.reader.Returned) :
    t.reader.Shows agentId ↔ InTime registry agentId (.remove agentId now') (.get agentId now) es := by
  rw [shows_get hrun rfl hreturned, InTime]
  by_cases hconnected : registry.isConnected agentId = true
  · have hapart : agentId ∉ registry.recentIds := fun hmem => by
      rw [hconsistent.apart agentId hmem] at hconnected
      cases hconnected
    rw [isConnected_after_remove now' hconnected, mem_recentIds_after_remove now' hconnected hapart]
    simp [hconnected]
  · rw [Bool.not_eq_true] at hconnected
    rw [after_remove_of_not_connected now' hconnected, after_remove_of_not_connected now' hconnected]
    exact iff_of_true hknown (.inl hconnected)

theorem unregister_list_iff (hconsistent : Consistent registry history)
    (hknown : registry.isConnected agentId = true ∨ agentId ∈ registry.recentIds)
    (hrun : (system registry (.remove agentId now') (.snapshot now)).run
      ⟨registry, .remove agentId now', .snapshot now⟩ es = some t) (hreturned : t.reader.Returned) :
    t.reader.Shows agentId ↔ InTime registry agentId (.remove agentId now') (.snapshot now) es := by
  rw [shows_snapshot hrun rfl hreturned, InTime]
  by_cases hconnected : registry.isConnected agentId = true
  · have hapart : agentId ∉ registry.recentIds := fun hmem => by
      rw [hconsistent.apart agentId hmem] at hconnected
      cases hconnected
    have hmem := mem_recentIds_after_remove now' hconnected hapart (seen es 1)
    rw [isConnected_after_remove now' hconnected]
    simp only [← Bool.not_eq_true, isConnected_after_remove now' hconnected, hconnected, not_true_eq_false,
      false_or]
    refine or_congr_right ⟨?_, ?_⟩
    · rintro ⟨i, hi, -⟩
      exact hmem.mp (List.mem_of_getElem? hi)
    · intro hpushed
      obtain ⟨i, hi⟩ := List.getElem?_of_mem (hmem.mpr hpushed)
      have hlater := seen_mono es (show 1 ≤ i + 2 by omega)
      exact ⟨i, hi, by omega⟩
  · rw [Bool.not_eq_true] at hconnected
    simp only [after_remove_of_not_connected now' hconnected, hconnected]
    refine iff_of_true (.inr ?_) (.inl trivial)
    obtain ⟨i, hi⟩ := List.getElem?_of_mem (hknown.resolve_left (by simp [hconnected]))
    exact ⟨i, hi, trivial⟩

end InTime

/-- In every interleaving of one call that registers or unregisters a known agent with one call that lists
or describes it, the agent is shown if and only if the accesses fall in time. -/
theorem shows_iff_inTime {w : Listing.World} {agentId : Uuid} {writer : Writer} {reader : Reader}
    {es : List Actor} {t : State} (hw : Listing.system.Reachable w)
    (hknown : w.registry.isConnected agentId = true ∨ agentId ∈ w.registry.recentIds)
    (hwrites : Writes agentId writer) (hreads : Reads agentId reader)
    (hrun : (system w.registry writer reader).run (system w.registry writer reader).init es = some t)
    (hreturned : t.reader.Returned) :
    t.reader.Shows agentId ↔ InTime w.registry agentId writer reader es := by
  have hconsistent : Consistent w.registry w.disconnected :=
    (hw.invariant Listing.inv_init fun s e u hstep hs => Listing.inv_step hstep hs).consistent
  cases hwrites with
  | register entry =>
      cases hreads with
      | list now => exact register_list_iff hconsistent hknown hrun hreturned
      | describe now => exact register_describe_iff hknown hrun hreturned
  | unregister now =>
      cases hreads with
      | list now => exact unregister_list_iff hconsistent hknown hrun hreturned
      | describe now => exact unregister_describe_iff hconsistent hknown hrun hreturned

private def visitor : Arc AgentEntry := ⟨0, .new 0 ⟨7, "agent", none, 60, "overacp"⟩ 0⟩

/-- The registry that an agent has left. -/
private def departed : Listing.World :=
  ⟨(InMemoryAgentRegistry.new.register 7 visitor).2.unregister 7 1, [], [7], [7]⟩

theorem reachable_departed : Listing.system.Reachable departed :=
  ⟨[.register 7 visitor, .unregister 7 1], rfl⟩

theorem recentIds_departed : departed.registry.recentIds = [7] := rfl

/-- The description reads the table before the agent is back in it, and the log after it was taken out. -/
theorem shows_iff_inTime_departed :
    ∃ t, (system departed.registry (.insert 7 visitor) (.get 7 2)).run
        (system departed.registry (.insert 7 visitor) (.get 7 2)).init [.reader, .writer, .writer, .reader] =
          some t ∧
      (t.reader.Shows 7 ↔ InTime departed.registry 7 (.insert 7 visitor) (.get 7 2)
        [.reader, .writer, .writer, .reader]) := by
  refine ⟨_, rfl, ?_⟩
  exact @shows_iff_inTime departed 7 (.insert 7 visitor) (.get 7 2) [.reader, .writer, .writer, .reader] _
    reachable_departed (.inr (by rw [recentIds_departed]; exact List.mem_cons_self)) (.register visitor)
    (.describe 2) rfl trivial

/-- An agent that comes back is in neither structure for a reader that looks at the table before the insert
and at the log after the purge. -/
theorem returning_agent_is_missed :
    ¬ ∀ (w : Listing.World) (agentId : Uuid) (writer : Writer) (reader : Reader) (es : List Actor) (t : State),
      Listing.system.Reachable w →
        (w.registry.isConnected agentId = true ∨ agentId ∈ w.registry.recentIds) → Writes agentId writer →
          Reads agentId reader →
            (system w.registry writer reader).run (system w.registry writer reader).init es = some t →
              t.reader.Returned → t.reader.Shows agentId := by
  intro h
  have hshown := h departed 7 (.insert 7 visitor) (.get 7 2) [.reader, .writer, .writer, .reader] _
    reachable_departed (.inr (by rw [recentIds_departed]; exact List.mem_cons_self)) (.register visitor)
    (.describe 2) rfl trivial
  exact Bool.noConfusion (show false = true from hshown)

end Race

end Overacp
