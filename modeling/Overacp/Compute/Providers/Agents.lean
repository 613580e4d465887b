import Overacp.Compute.Providers.Turns

/-!
# The nodes of the local-process provider

Whatever the order of the calls, wherever they are dropped and whenever a process exits, the table has each node
that was created and that no call has taken, once and by the id of its process.
-/

namespace Overacp

namespace Compute

open Phase

variable {s t : State} {i n : Nat} {x y : Phase} {pid : Pid}

/-! ### Every turn -/

theorem Kept.become (h : Kept s) (hcall : s.calls[i]? = some x) (hholds : x.holds = []) : Kept (s.become i y) :=
  h.turn' hcall rfl (fun _ hm => Or.inl hm) (fun _ hm => Or.inl hm) fun _ hm _ =>
    absurd hm (hholds ▸ List.not_mem_nil)

theorem locked_inv (h : Account s) (hkept : Kept s) (hcall : s.calls[i]? = some x) (hlocked : locked s i x = some t) :
    Account t ∧ Kept t := by
  cases x with
  | inserting node =>
      obtain rfl := Option.some.inj hlocked
      exact insertNode_inv h hkept hcall
  | listing =>
      obtain rfl := Option.some.inj hlocked
      exact ⟨h.become hcall rfl rfl (List.nil_subset _) rfl (fun _ => Nat.le_refl _) trivial rfl,
        hkept.become hcall rfl⟩
  | describing id =>
      rw [locked] at hlocked
      split at hlocked
      · obtain rfl := Option.some.inj hlocked
        exact ⟨h.become hcall rfl rfl (List.nil_subset _) rfl (fun _ => Nat.le_refl _) trivial rfl,
          hkept.become hcall rfl⟩
      · obtain rfl := Option.some.inj hlocked
        exact ⟨h.become hcall rfl rfl (List.nil_subset _) rfl (fun _ => Nat.le_refl _) trivial rfl,
          hkept.become hcall rfl⟩
  | reading node =>
      obtain rfl := Option.some.inj hlocked
      refine release_inv (h.become hcall rfl rfl (List.nil_subset _) rfl (fun _ => Nat.le_refl _) trivial rfl)
        fun _ hchild => ?_
      have hturn := hkept.turn hchild hcall rfl (fun _ hm => Or.inl hm) (fun _ hm => Or.inl hm)
      exact hturn.imp_right List.mem_singleton.mp
  | deleting id =>
      rw [locked] at hlocked
      split at hlocked
      · obtain rfl := Option.some.inj hlocked
        exact ⟨h.become hcall rfl rfl (List.nil_subset _) rfl (fun _ => Nat.le_refl _) trivial rfl,
          hkept.become hcall rfl⟩
      · rename_i hlookup
        obtain rfl := Option.some.inj hlocked
        exact remove_inv h hkept hcall hlookup
  | removed node =>
      obtain rfl := Option.some.inj hlocked
      exact killNode_inv h hkept hcall
  | reaped node =>
      obtain rfl := Option.some.inj hlocked
      exact setExited_inv h hkept hcall
  | creating | reaping | clearing | finished => cases hlocked

theorem drop_inv (h : Account s) (hkept : Kept s) (hcall : s.calls[i]? = some x) {through : Bool}
    (hdrop : drop s i through x = some t) : Account t ∧ Kept t := by
  cases x with
  | creating spec w =>
      rw [drop] at hdrop
      split_ifs at hdrop
      · obtain rfl := Option.some.inj hdrop
        refine ⟨h.makeDir hcall .dropped rfl, ?_⟩
        rw [(h.makeDir_eq hcall rfl).2]
        exact hkept.turn' hcall rfl (fun _ hm => Or.inl hm) (fun _ hm => Or.inl hm)
          fun _ hm => absurd hm List.not_mem_nil
      · obtain rfl := Option.some.inj hdrop
        exact ⟨h.become hcall rfl rfl (List.nil_subset _) rfl (fun _ => Nat.zero_le _) trivial rfl,
          hkept.become hcall rfl⟩
  | listing | describing | deleting =>
      obtain rfl := Option.some.inj hdrop
      exact ⟨h.become hcall rfl rfl (List.nil_subset _) rfl (fun _ => Nat.le_refl _) trivial rfl,
        hkept.become hcall rfl⟩
  | reading node =>
      obtain rfl := Option.some.inj hdrop
      refine release_inv (h.become hcall rfl rfl (List.nil_subset _) rfl (fun _ => Nat.le_refl _) trivial rfl)
        fun _ hchild => ?_
      have hturn := hkept.turn hchild hcall rfl (fun _ hm => Or.inl hm) (fun _ hm => Or.inl hm)
      exact hturn.imp_right List.mem_singleton.mp
  | inserting node =>
      obtain rfl := Option.some.inj hdrop
      exact clear_false_inv h hkept hcall rfl rfl rfl (List.nil_subset _) rfl trivial rfl
  | removed node | reaped node =>
      obtain rfl := Option.some.inj hdrop
      exact clear_false_inv h hkept hcall rfl rfl rfl (fun _ hm => hm) rfl trivial rfl
  | reaping node child =>
      obtain rfl := Option.some.inj hdrop
      exact drop_reaping_inv h hkept hcall
  | clearing node =>
      obtain rfl := Option.some.inj hdrop
      cases through with
      | false => exact clear_false_inv h hkept hcall rfl rfl rfl (fun _ hm => hm) rfl trivial rfl
      | true => exact clear_true_inv h hkept hcall trivial rfl
  | finished => cases hdrop

/-- The name that is drawn for a directory is none that is there or about to be. -/
def Fresh (p : LocalProvider) (s : State) : Event → State → Prop
  | .createNode _ uuid, _ => p.workspaceOf uuid ∉ s.directories ∧ ∀ call ∈ s.calls, p.workspaceOf uuid ∉ call.makes
  | _, _ => True

instance (p : LocalProvider) (s : State) (event : Event) (t : State) : Decidable (Fresh p s event t) := by
  cases event <;> unfold Fresh <;> infer_instance

theorem step_inv {p : LocalProvider} {event : Event} (hstep : step p s event = some t) (hfresh : Fresh p s event t)
    (hinv : Account s ∧ Kept s) : Account t ∧ Kept t := by
  obtain ⟨h, hkept⟩ := hinv
  have hquiet (y : Phase) (hy : y.makes = []) (w : String) :
      s.directories.count w + (s.making w + y.makes.count w) ≤ 1 := by
    rw [hy]
    exact h.fresh w
  cases event with
  | createNode spec uuid =>
      obtain rfl := Option.some.inj hstep
      obtain ⟨hdir, hmaking⟩ := hfresh
      refine ⟨h.begin_ rfl rfl rfl rfl rfl trivial fun w => ?_, hkept.begin_ _⟩
      show s.directories.count w + (s.making w + [p.workspaceOf uuid].count w) ≤ 1
      by_cases hw : w = p.workspaceOf uuid
      · have hnone : s.making w = 0 := List.count_eq_zero.mpr fun hmem => by
          obtain ⟨call, hcall, hin⟩ := List.mem_flatMap.mp hmem
          exact hmaking call hcall (hw ▸ hin)
        have hnodir : s.directories.count w = 0 := List.count_eq_zero.mpr (hw ▸ hdir)
        rw [hnone, hnodir, hw, List.count_singleton_self]
      · rw [List.count_eq_zero.mpr fun hmem => hw (List.mem_singleton.mp hmem)]
        exact h.fresh w
  | listNodes | describeNode | deleteNode =>
      obtain rfl := Option.some.inj hstep
      exact ⟨h.begin_ rfl rfl rfl rfl rfl trivial (hquiet _ rfl), hkept.begin_ _⟩
  | notMade i error =>
      rw [step] at hstep
      split at hstep
      · rename_i hcall
        obtain rfl := Option.some.inj hstep
        exact ⟨h.become hcall rfl rfl (List.nil_subset _) rfl (fun _ => Nat.zero_le _) trivial rfl,
          hkept.become hcall rfl⟩
      · cases hstep
  | made i spawned =>
      rw [step] at hstep
      split at hstep
      · rename_i hcall
        exact spawn_inv h hkept hcall hstep
      · cases hstep
  | locked i =>
      obtain ⟨x, hcall, hlocked⟩ := Option.bind_eq_some_iff.mp hstep
      exact locked_inv h hkept hcall hlocked
  | waited i =>
      rw [step] at hstep
      split at hstep
      · rename_i hcall
        split_ifs at hstep
        obtain rfl := Option.some.inj hstep
        exact waitFor_inv h hkept hcall
      · cases hstep
  | cleared i removed =>
      rw [step] at hstep
      split at hstep
      · rename_i node hcall
        obtain rfl := Option.some.inj hstep
        have hcell : s.cell node.cell = ⟨none, .exited⟩ := h.fits _ (List.mem_of_getElem? hcall)
        cases removed with
        | false => exact clear_false_inv h hkept hcall rfl rfl rfl (fun _ hm => hm) rfl hcell rfl
        | true => exact clear_true_inv h hkept hcall hcell rfl
      · cases hstep
  | drop i through =>
      obtain ⟨x, hcall, hdrop⟩ := Option.bind_eq_some_iff.mp hstep
      exact drop_inv h hkept hcall hdrop
  | exit pid =>
      obtain rfl := Option.some.inj hstep
      exact exit_inv h hkept pid
  | reap pid =>
      rw [step] at hstep
      split_ifs at hstep with hreap
      obtain rfl := Option.some.inj hstep
      exact reap_inv h hkept hreap.1

theorem run_inv {p : LocalProvider} {events : List Event} (hrun : (system p).run .start events = some t)
    (hfresh : (system p).EveryStep (Fresh p) .start events) : Account t ∧ Kept t := by
  refine (system p).run_invariant_of_everyStep (fun _ _ _ => step_inv) hrun hfresh ⟨⟨?_, ?_⟩, ?_⟩
  · exact ⟨.nil, fun _ he => absurd he List.not_mem_nil, fun _ hc => absurd hc List.not_mem_nil,
      fun _ hc => absurd hc List.not_mem_nil⟩
  · exact ⟨.nil, fun _ => rfl, fun _ hp => absurd hp List.not_mem_nil, fun _ => rfl, fun _ => rfl,
      fun _ => Nat.zero_le _⟩
  · exact fun n hchild => absurd rfl hchild

/-! ### What is there in between -/

/-- No call is under way. -/
def Quiet (s : State) : Prop := ∀ call ∈ s.calls, call.Over

/-- The ids of the processes that were not killed. -/
def State.running (s : State) : List String := (s.processes.filter fun p => !p.killed).map fun p => toString p.pid

theorem Account.listed_running (h : Account s) {e : String × LocalNode} (he : e ∈ s.nodes) : e.1 ∈ s.running := by
  obtain ⟨hname, pid, hcell, hid⟩ := h.alive e he
  have hkids : 0 < s.kids pid := by
    refine List.count_pos_iff.mpr (List.mem_flatMap.mpr ⟨s.cell e.2.cell, ?_, ?_⟩)
    · exact List.mem_of_getElem? (State.getElem?_cell (h.listed_lt he))
    · rw [hcell]
      exact List.mem_cons_self
  have hle := List.nodup_iff_count_le_one.mp h.alone pid
  have hchildren := h.children pid
  have hmem : pid ∈ s.pids := List.count_pos_iff.mp (by omega)
  obtain ⟨process, hprocess, rfl⟩ := List.mem_map.mp hmem
  refine List.mem_map.mpr ⟨process, List.mem_filter.mpr ⟨hprocess, ?_⟩, by rw [hname, hid]⟩
  have hkilled : ¬ process.killed = true := fun hkilled => by
    have hpos := (h.killed process hprocess).mp hkilled
    omega
  simpa using hkilled

theorem Quiet.frames (h : Quiet s) (pid : Pid) : s.frames pid = 0 := by
  refine List.count_eq_zero.mpr fun hmem => ?_
  obtain ⟨call, hcall, hin⟩ := List.mem_flatMap.mp hmem
  have hover := h call hcall
  cases call with
  | finished => exact absurd hin List.not_mem_nil
  | _ => exact hover

theorem Quiet.listed (h : Quiet s) (hkept : Kept s) (hchild : (s.cell n).child ≠ none) : n ∈ s.listed := by
  rcases State.held_iff.mp (hkept n hchild) with hlisted | ⟨call, hcall, hin⟩
  · exact hlisted
  · have hover := h call hcall
    cases call with
    | finished => exact absurd hin List.not_mem_nil
    | _ => exact hover.elim

/-- The processes that run are those of the nodes that are listed. -/
theorem Account.quiet_running (h : Account s) (hkept : Kept s) (hquiet : Quiet s) :
    s.running.Perm (s.nodes.map Prod.fst) := by
  have hrunning : s.running.Nodup := by
    have hpids : ((s.processes.filter fun p => !p.killed).map Process.pid).Nodup :=
      h.alone.sublist (List.filter_sublist.map _)
    have hids := hpids.map toString_injective
    rwa [List.map_map] at hids
  have hnodes : (s.nodes.map Prod.fst).Nodup :=
    List.pairwise_map.mpr (h.sorted.imp fun hlt => hlt.ne)
  refine (List.perm_ext_iff_of_nodup hrunning hnodes).mpr fun id => ⟨fun hid => ?_, fun hid => ?_⟩
  · obtain ⟨process, hmem, rfl⟩ := List.mem_map.mp hid
    obtain ⟨hprocess, halive⟩ := List.mem_filter.mp hmem
    have hpid : 0 < s.pids.count process.pid := List.count_pos_iff.mpr (List.mem_map_of_mem hprocess)
    have hkilled := h.killed process hprocess
    have hchildren := h.children process.pid
    have hkids : 0 < s.kids process.pid := by
      by_contra hnone
      rw [hkilled.mpr (by omega)] at halive
      cases halive
    obtain ⟨cell, hcell, hchild⟩ := List.mem_flatMap.mp (List.count_pos_iff.mp hkids)
    obtain ⟨n, hn⟩ := List.mem_iff_getElem?.mp hcell
    have hlt := (List.getElem?_eq_some_iff.mp hn).1
    obtain rfl : s.cell n = cell := Option.some.inj ((State.getElem?_cell hlt).symm.trans hn)
    have hsome : (s.cell n).child = some process.pid := Option.mem_toList.mp hchild
    obtain ⟨e, he, rfl⟩ := List.mem_map.mp (hquiet.listed hkept (by rw [hsome]; exact Option.some_ne_none _))
    obtain ⟨hname, pid, hcell', hid'⟩ := h.alive e he
    rw [hcell', Option.some_inj] at hsome
    exact List.mem_map.mpr ⟨e, he, by rw [hname, hid', hsome]⟩
  · obtain ⟨e, he, rfl⟩ := List.mem_map.mp hid
    exact h.listed_running he

/-- And those that were killed are left to the runtime. -/
theorem Account.quiet_killed (h : Account s) (hquiet : Quiet s) :
    ((s.processes.filter fun p => p.killed).map Process.pid).Perm s.orphans := by
  have horphans : s.orphans.Nodup := List.nodup_iff_count_le_one.mpr fun pid => by
    have hle := List.nodup_iff_count_le_one.mp h.alone pid
    have hchildren := h.children pid
    omega
  refine (List.perm_ext_iff_of_nodup (h.alone.sublist (List.filter_sublist.map _)) horphans).mpr fun pid => ?_
  rw [← List.count_pos_iff (l := s.orphans)]
  constructor
  · intro hmem
    obtain ⟨process, hin, rfl⟩ := List.mem_map.mp hmem
    obtain ⟨hprocess, hkilled⟩ := List.mem_filter.mp hin
    have hpos := (h.killed process hprocess).mp hkilled
    rwa [hquiet.frames, Nat.zero_add] at hpos
  · intro hpos
    have hchildren := h.children pid
    obtain ⟨process, hprocess, rfl⟩ := List.mem_map.mp (List.count_pos_iff.mp (show 0 < s.pids.count pid by omega))
    exact List.mem_map.mpr ⟨process, List.mem_filter.mpr ⟨hprocess, (h.killed process hprocess).mpr (by omega)⟩, rfl⟩

/-- In every run: what is listed runs, by the id of its process; every node there ever was is listed or in the hands
of one call, and one that was created is listed until a call takes it; a directory is a listed node's, or that of a call
that is at work or has left it behind. And between the calls the processes that run are those of the nodes that are
listed, and all others that were not waited for were killed and left to the runtime. -/
theorem agents_accounted {p : LocalProvider} {events : List Event}
    (hfresh : (system p).EveryStep (Fresh p) .start events) (hrun : (system p).run .start events = some s) :
    (SortedMap.Sorted s.nodes ∧ ∀ e ∈ s.nodes, e.1 = e.2.handle.id ∧ e.1 ∈ s.running) ∧
      (s.listed ++ s.calls.flatMap Phase.owns).Perm (List.range s.cells.length) ∧
      (∀ call ∈ s.calls, ∀ node, call.made = some node →
        (node.handle.id, node) ∈ s.nodes ∨ node.cell ∈ s.calls.flatMap Phase.takes) ∧
      s.directories.Perm ((s.nodes.map fun e => e.2.workspace) ++ s.calls.flatMap Phase.keeps) ∧
      (Quiet s → s.running.Perm (s.nodes.map Prod.fst) ∧
        ((s.processes.filter fun p => p.killed).map Process.pid).Perm s.orphans) := by
  obtain ⟨h, hkept⟩ := run_inv hrun hfresh
  refine ⟨⟨h.sorted, fun e he => ⟨(h.alive e he).1, h.listed_running he⟩⟩, ?_, ?_, ?_, fun hquiet =>
    ⟨h.quiet_running hkept hquiet, h.quiet_killed hquiet⟩⟩
  · refine List.perm_iff_count.mpr fun n => ?_
    rw [List.count_append, List.count_range]
    exact h.owners n
  · intro call hcall node hsome
    exact (h.created call hcall node hsome).imp_right List.count_pos_iff.mp
  · refine List.perm_iff_count.mpr fun w => ?_
    rw [List.count_append]
    exact h.directories w

/-- One of two nodes is deleted, and the call dropped while it waits for the child. -/
theorem agents_accounted_dropped :
    let p : LocalProvider := ⟨"overacp-agent", ""⟩
    let spec : NodeSpec := ⟨"test:latest", none, none, none, [], "jwt"⟩
    let events : List Event :=
      [.createNode spec 1, .made 0 (.child 41 0), .createNode spec 2, .made 1 (.child 7 0), .locked 0, .locked 1,
        .deleteNode "41", .locked 2, .locked 2, .drop 2 false]
    ∃ s, (system p).run .start events = some s ∧ s.running.Perm ["7"] ∧
      ((s.processes.filter fun p => p.killed).map Process.pid).Perm [41] := by
  intro p spec events
  have hfresh : (system p).EveryStep (Fresh p) .start events := by decide +kernel
  have hends : ((system p).run .start events).map
      (fun s => (s.nodes.map Prod.fst, s.orphans, decide (∀ call ∈ s.calls, call.Over))) =
        some (["7"], [41], true) := by
    decide +kernel
  obtain ⟨s, hrun, heq⟩ := Option.map_eq_some_iff.mp hends
  simp only [Prod.mk.injEq, decide_eq_true_eq] at heq
  obtain ⟨hnodes, horphans, hquiet⟩ := heq
  have hspec := (agents_accounted hfresh hrun).2.2.2.2 hquiet
  rw [hnodes, horphans] at hspec
  exact ⟨s, hrun, hspec⟩

end Compute

end Overacp
