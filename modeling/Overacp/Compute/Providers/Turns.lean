import Overacp.Compute.Providers.Account

/-!
# Each turn keeps the account

One lemma for each thing a turn does to the table, the cells, the processes and the directories.
-/

namespace Overacp

namespace Compute

open Phase

variable {s t : State} {i n : Nat} {x y : Phase} {pid : Pid}

/-! ### A call begins -/

theorem Account.begin_ (h : Account s) (howns : y.owns = []) (htakes : y.takes = []) (hframe : y.frame = [])
    (hkeeps : y.keeps = []) (hmade : y.made = none) (hfits : y.Fits s)
    (hfresh : ∀ w, s.directories.count w + (s.making w + y.makes.count w) ≤ 1) : Account (s.begin_ y) := by
  have hframes (pid : Pid) : (s.begin_ y).frames pid = s.frames pid := by
    rw [State.frames, State.begin_, Holdings.count_concat, hframe]
    rfl
  refine ⟨⟨h.sorted, h.alive, ?_, ?_⟩, ⟨h.alone, ?_, ?_, ?_, ?_, ?_⟩⟩
  · intro call hcall
    rcases List.mem_append.mp hcall with hcall | hcall
    · exact h.fits call hcall
    · rw [List.mem_singleton.mp hcall]
      exact hfits
  · intro call hcall node hsome
    rw [State.taken, State.begin_, Holdings.count_concat, htakes]
    rcases List.mem_append.mp hcall with hcall | hcall
    · exact h.created call hcall node hsome
    · rw [List.mem_singleton.mp hcall, hmade] at hsome
      cases hsome
  · intro pid
    rw [hframes]
    exact h.children pid
  · intro p hp
    rw [hframes]
    exact h.killed p hp
  · intro n
    rw [State.owned, State.begin_, Holdings.count_concat, howns]
    exact h.owners n
  · intro w
    rw [State.kept, State.begin_, Holdings.count_concat, hkeeps]
    exact h.directories w
  · intro w
    rw [State.making, State.begin_, Holdings.count_concat]
    exact hfresh w

theorem Kept.begin_ (h : Kept s) (y : Phase) : Kept (s.begin_ y) := by
  intro n hchild
  rcases State.held_iff.mp (h n hchild) with hlisted | ⟨call, hmem, hn⟩
  · exact State.held_iff.mpr (Or.inl hlisted)
  · exact State.held_iff.mpr (Or.inr ⟨call, List.mem_append_left _ hmem, hn⟩)

/-! ### Turns that move nothing -/

/-- A turn that leaves the table and the directories as they are, and what the call owns and keeps. -/
theorem Counts.turn (h : Counts s) (hcall : s.calls[i]? = some x) (hcalls : t.calls = s.calls.set i y)
    (hnodes : t.nodes = s.nodes) (hlength : t.cells.length = s.cells.length) (hdirs : t.directories = s.directories)
    (howns : y.owns = x.owns) (hkeeps : y.keeps = x.keeps) (hmakes : ∀ w, y.makes.count w ≤ x.makes.count w)
    (halone : t.pids.Nodup) (hchildren : ∀ pid, t.pids.count pid = t.kids pid + t.frames pid + t.orphans.count pid)
    (hkilled : ∀ p ∈ t.processes, p.killed = true ↔ 0 < t.frames p.pid + t.orphans.count p.pid) : Counts t := by
  refine ⟨halone, hchildren, hkilled, ?_, ?_, ?_⟩
  · intro n
    have hcount := Holdings.count_set owns hcall y n
    rw [howns] at hcount
    rw [State.owned, State.listed, hcalls, hnodes, hlength, Nat.add_right_cancel hcount]
    exact h.owners n
  · intro w
    have hcount := Holdings.count_set keeps hcall y w
    rw [hkeeps] at hcount
    rw [State.kept, hcalls, hnodes, hdirs, Nat.add_right_cancel hcount]
    exact h.directories w
  · intro w
    have hcount := Holdings.count_set makes hcall y w
    have hle := hmakes w
    have hold := h.fresh w
    rw [State.making] at hold
    rw [State.making, hcalls, hdirs]
    omega

theorem Account.become (h : Account s) (hcall : s.calls[i]? = some x) (hframe : y.frame = x.frame)
    (howns : y.owns = x.owns) (htakes : x.takes ⊆ y.takes) (hkeeps : y.keeps = x.keeps)
    (hmakes : ∀ w, y.makes.count w ≤ x.makes.count w) (hfits : y.Fits s) (hmade : y.made = none) :
    Account (s.become i y) := by
  have hframes (pid : Pid) : (s.become i y).frames pid = s.frames pid := by
    have hcount := Holdings.count_set frame hcall y pid
    rw [hframe] at hcount
    exact Nat.add_right_cancel hcount
  refine ⟨?_, ?_⟩
  · refine h.standing hcall rfl (fun _ _ _ => rfl) h.sorted (fun e he => Or.inl he) (fun e he => Or.inl he) htakes
      (hfits.congr fun _ _ => rfl) ?_
    intro node hsome
    rw [hmade] at hsome
    cases hsome
  · refine h.turn hcall rfl rfl rfl rfl howns hkeeps hmakes h.alone ?_ ?_
    · intro pid
      rw [hframes]
      exact h.children pid
    · intro p hp
      rw [hframes]
      exact h.killed p hp

/-! ### A directory is made -/

theorem Counts.makeDir_eq (h : Counts s) {w : String} (hcall : s.calls[i]? = some x) (hx : x.makes = [w]) :
    s.directories.count w = 0 ∧ s.makeDir w = { s with directories := s.directories ++ [w] } := by
  have hmaking : 0 < s.making w :=
    List.count_pos_iff.mpr (List.mem_flatMap.mpr ⟨x, List.mem_of_getElem? hcall, by rw [hx]; exact List.mem_cons_self⟩)
  have hfresh := h.fresh w
  have hnone : s.directories.count w = 0 := by omega
  exact ⟨hnone, if_neg (List.count_eq_zero.mp hnone)⟩

/-- What a turn that makes its directory does to the counts, and to those of the directories. -/
theorem Counts.making (h : Counts s) {w : String} (hcall : s.calls[i]? = some x) (hx : x.makes = [w])
    (hxkeeps : x.keeps = []) (hymakes : y.makes = []) (hykeeps : y.keeps = [w]) (v : String) :
    (s.directories ++ [w]).count v =
      (s.nodes.map fun e => e.2.workspace).count v + ((s.calls.set i y).flatMap keeps).count v ∧
    (s.directories ++ [w]).count v + ((s.calls.set i y).flatMap makes).count v ≤ 1 := by
  have hkept := Holdings.count_set keeps hcall y v
  have hmaking := Holdings.count_set makes hcall y v
  have hdirs := h.directories v
  have hfresh := h.fresh v
  rw [hxkeeps, hykeeps, List.count_nil] at hkept
  rw [hx, hymakes, List.count_nil] at hmaking
  rw [State.kept] at hdirs
  rw [State.making] at hfresh
  rw [List.count_append]
  omega

theorem Account.makeDir (h : Account s) {spec : NodeSpec} {w : String} (hcall : s.calls[i]? = some (.creating spec w))
    (outcome : Outcome) (hmade : (Phase.finished outcome none (some w)).made = none) :
    Account ((s.makeDir w).become i (.finished outcome none (some w))) := by
  obtain ⟨-, hdir⟩ := h.makeDir_eq hcall rfl
  have hframes (pid : Pid) : ((s.makeDir w).become i (.finished outcome none (some w))).frames pid = s.frames pid := by
    rw [hdir]
    exact Holdings.count_set frame hcall (.finished outcome none (some w)) pid
  rw [hdir] at hframes ⊢
  refine ⟨?_, ⟨h.alone, ?_, ?_, ?_, ?_, ?_⟩⟩
  · refine h.standing hcall rfl (fun _ _ _ => rfl) h.sorted (fun e he => Or.inl he) (fun e he => Or.inl he)
      (List.nil_subset _) ?_ ?_
    · cases outcome <;> trivial
    · intro node hsome
      rw [hmade] at hsome
      cases hsome
  · intro pid
    rw [hframes]
    exact h.children pid
  · intro p hp
    rw [hframes]
    exact h.killed p hp
  · intro n
    have hcount := Holdings.count_set owns hcall (.finished outcome none (some w)) n
    rw [State.owned, State.become]
    exact (congrArg (s.listed.count n + ·) hcount).trans (h.owners n)
  · intro v
    exact (h.making hcall rfl rfl rfl rfl v).1
  · intro v
    exact (h.making hcall rfl rfl rfl rfl v).2

/-! ### A child is spawned -/

theorem State.cell_concat (s : State) (cell : Cell) :
    (s.cells ++ [cell]).getD s.cells.length ⟨none, .exited⟩ = cell := by
  rw [List.getD_eq_getElem?_getD, List.getElem?_concat_length, Option.getD_some]

theorem State.cell_append (hn : n < s.cells.length) (cell : Cell) :
    (s.cells ++ [cell]).getD n ⟨none, .exited⟩ = s.cell n := by
  rw [List.getD_eq_getElem?_getD, List.getElem?_append_left hn, ← List.getD_eq_getElem?_getD]
  rfl

theorem Account.spawned (h : Account s) {spec : NodeSpec} {w : String} (hcall : s.calls[i]? = some (.creating spec w))
    {node : LocalNode} {process : Process} (hpid : pid ∉ s.pids) (hprocess : process.pid = pid)
    (hkilled : process.killed = false) (hcell : node.cell = s.cells.length) (hworkspace : node.workspace = w)
    (hid : node.handle.id = toString pid) :
    Account { s with
      cells := s.cells ++ [⟨some pid, .running⟩], calls := s.calls.set i (.inserting node)
      processes := s.processes ++ [process], directories := s.directories ++ [w] } := by
  have hframes (pid' : Pid) : ((s.calls.set i (.inserting node)).flatMap frame).count pid' = s.frames pid' :=
    Holdings.count_set frame hcall (.inserting node) pid'
  have hnone := List.count_eq_zero.mpr hpid
  have hchildren := h.children pid
  have hcells {n : Nat} (hn : n < s.cells.length) :
      (s.cells ++ [(⟨some pid, .running⟩ : Cell)]).getD n ⟨none, .exited⟩ = s.cell n := State.cell_append hn _
  refine ⟨?_, ⟨?_, ?_, ?_, ?_, ?_, ?_⟩⟩
  · refine h.standing hcall rfl (fun n hn _ => hcells hn) h.sorted (fun e he => Or.inl he) (fun e he => Or.inl he)
      (List.nil_subset _) ?_ fun _ hsome => by cases hsome
    refine ⟨pid, ?_, hid⟩
    rw [hcell]
    exact s.cell_concat _
  · rw [State.pids, List.map_append, List.map_singleton]
    exact List.nodup_append.mpr ⟨h.alone, List.nodup_singleton _, fun a ha b hb => by
      rw [List.mem_singleton.mp hb, hprocess]
      exact fun heq => hpid (heq ▸ ha)⟩
  · intro pid'
    have hold := h.children pid'
    rw [State.pids, List.map_append, List.count_append, State.kids, Holdings.count_concat, State.frames, hframes]
    rw [State.pids, State.kids] at hold
    show (s.processes.map Process.pid).count pid' + [process.pid].count pid' =
      (s.cells.flatMap Cell.kids).count pid' + [pid].count pid' + s.frames pid' + s.orphans.count pid'
    rw [hprocess]
    omega
  · intro p hp
    rw [State.frames, hframes]
    rcases List.mem_append.mp hp with hp | hp
    · exact h.killed p hp
    · rw [List.mem_singleton.mp hp, hkilled, hprocess]
      simp only [Bool.false_eq_true, false_iff, not_lt]
      omega
  · intro n
    have hcount := Holdings.count_set owns hcall (.inserting node) n
    have hold := h.owners n
    rw [State.owned] at hold ⊢
    rw [List.length_append, List.length_singleton]
    show s.listed.count n + ((s.calls.set i (.inserting node)).flatMap owns).count n = _
    have howns : owns (.inserting node) = [s.cells.length] := by rw [owns, hcell]
    have hnil : owns (.creating spec w) = [] := rfl
    rw [howns, hnil, List.count_nil, List.count_singleton] at hcount
    simp only [beq_iff_eq] at hcount
    split_ifs at hold hcount ⊢ <;> omega
  · intro v
    exact (h.making hcall rfl rfl rfl (by rw [keeps, hworkspace]) v).1
  · intro v
    exact (h.making hcall rfl rfl rfl (by rw [keeps, hworkspace]) v).2

theorem spawn_inv {p : LocalProvider} {spec : NodeSpec} {w : String} {spawned : Spawned} (h : Account s)
    (hkept : Kept s) (hcall : s.calls[i]? = some (.creating spec w)) (hspawn : spawn p s i spec w spawned = some t) :
    Account t ∧ Kept t := by
  obtain ⟨-, hdir⟩ := h.makeDir_eq hcall rfl
  cases spawned with
  | failed error =>
      obtain rfl := Option.some.inj hspawn
      refine ⟨h.makeDir hcall _ rfl, ?_⟩
      rw [hdir]
      exact hkept.turn' hcall rfl (fun _ hm => Or.inl hm) (fun _ hm => Or.inl hm)
        (fun _ hm => absurd hm List.not_mem_nil)
  | child pid now =>
      rw [spawn] at hspawn
      split_ifs at hspawn with hpid
      obtain rfl := Option.some.inj hspawn
      rw [hdir]
      refine ⟨h.spawned hcall hpid rfl rfl rfl rfl rfl, ?_⟩
      refine hkept.turn' hcall rfl ?_ (fun _ hm => Or.inl hm) (fun _ hm => absurd hm List.not_mem_nil)
      intro m hchild
      by_cases hm : m < s.cells.length
      · left
        rw [← State.cell_append hm]
        exact hchild
      · right
        have hlt := State.lt_of_child hchild
        simp only [List.length_append, List.length_singleton] at hlt
        refine List.mem_singleton.mpr ?_
        show m = s.cells.length
        omega

/-! ### A node changes hands -/

/-- What the table gives the call gets, or the other way round. -/
theorem Counts.owners_of_perm (h : Counts s) (hcall : s.calls[i]? = some x) (hcalls : t.calls = s.calls.set i y)
    (hcells : t.cells = s.cells) (hperm : (t.listed ++ y.owns).Perm (s.listed ++ x.owns)) (n : Nat) :
    t.listed.count n + t.owned n = if n < t.cells.length then 1 else 0 := by
  have hcount := Holdings.count_set owns hcall y n
  have hboth := hperm.count_eq n
  rw [List.count_append, List.count_append] at hboth
  rw [hcells, ← h.owners n, State.owned, State.owned, hcalls]
  omega

theorem Counts.directories_of_perm (h : Counts s) (hcall : s.calls[i]? = some x) (hcalls : t.calls = s.calls.set i y)
    (hdirs : t.directories = s.directories)
    (hperm : ((t.nodes.map fun e => e.2.workspace) ++ y.keeps).Perm ((s.nodes.map fun e => e.2.workspace) ++ x.keeps))
    (w : String) : t.directories.count w = (t.nodes.map fun e => e.2.workspace).count w + t.kept w := by
  have hcount := Holdings.count_set keeps hcall y w
  have hboth := hperm.count_eq w
  have hold := h.directories w
  rw [List.count_append, List.count_append] at hboth
  rw [State.kept] at hold
  rw [hdirs, State.kept, hcalls]
  omega

/-! ### A node is listed -/

theorem toString_injective : Function.Injective (toString : Pid → String) := by
  intro m n h
  have hdigits : Nat.toDigits 10 m = Nat.toDigits 10 n := String.ofList_injective h
  rw [← Json.Number.natOfDigits_toDigits m, hdigits, Json.Number.natOfDigits_toDigits]

/-- One child has one node. -/
theorem Counts.cell_inj (h : Counts s) {m : Nat} {c c' : Cell} (hn : s.cell n = c) (hm : s.cell m = c')
    (hpid : c.child = some pid) (hpid' : c'.child = some pid) : n = m := by
  have hone : (s.cells.flatMap Cell.kids).count pid ≤ 1 := by
    have hle := List.nodup_iff_count_le_one.mp h.alone pid
    rw [h.children, State.kids] at hle
    omega
  have hlt : n < s.cells.length := State.lt_of_child (by rw [hn, hpid]; exact Option.some_ne_none pid)
  have hlt' : m < s.cells.length := State.lt_of_child (by rw [hm, hpid']; exact Option.some_ne_none pid)
  have hmem : pid ∈ (s.cell n).kids := by rw [Cell.kids, hn, hpid]; exact List.mem_cons_self
  have hmem' : pid ∈ (s.cell m).kids := by rw [Cell.kids, hm, hpid']; exact List.mem_cons_self
  exact Holdings.eq_of_count_le_one Cell.kids hone (State.getElem?_cell hlt) hmem (State.getElem?_cell hlt') hmem'

/-- The id of a child whose node is not listed is no key: an insertion never replaces a node. -/
theorem Account.lookup_eq_none (h : Account s) {node : LocalNode} (hcall : s.calls[i]? = some (.inserting node)) :
    SortedMap.lookup node.handle.id s.nodes = none := by
  obtain ⟨pid, hcell, hid⟩ := h.fits _ (List.mem_of_getElem? hcall)
  rw [SortedMap.lookup_eq_none_iff]
  intro e he hkey
  obtain ⟨hname, pid', hcell', hid'⟩ := h.alive e he
  obtain rfl : pid' = pid := toString_injective (by rw [← hid, ← hid', ← hname, hkey])
  exact h.not_listed (Counts.owned_pos hcall List.mem_cons_self) e he (h.cell_inj hcell' hcell rfl rfl)

theorem insertNode_inv (h : Account s) (hkept : Kept s) {node : LocalNode}
    (hcall : s.calls[i]? = some (.inserting node)) : Account (insertNode s i node) ∧ Kept (insertNode s i node) := by
  have hnone := h.lookup_eq_none hcall
  have hperm := SortedMap.insert_perm (v := node) hnone
  have hframes (pid : Pid) : ((s.calls.set i (.finished (.created node) none none)).flatMap frame).count pid =
      s.frames pid := Holdings.count_set frame hcall _ pid
  have hsub (e : String × LocalNode) (he : e ∈ s.nodes) : e ∈ SortedMap.insert node.handle.id node s.nodes :=
    hperm.mem_iff.mpr (List.mem_cons_of_mem _ he)
  have hnew : (node.handle.id, node) ∈ SortedMap.insert node.handle.id node s.nodes :=
    hperm.mem_iff.mpr List.mem_cons_self
  rw [insertNode, hnone]
  refine ⟨⟨?_, ⟨h.alone, ?_, ?_, ?_, ?_, ?_⟩⟩, ?_⟩
  · refine h.standing hcall rfl (fun _ _ _ => rfl) h.sorted.insert ?_ (fun e he => Or.inl (hsub e he))
      (List.nil_subset _) trivial ?_
    · intro e he
      rcases SortedMap.mem_insert he with rfl | hold
      · exact Or.inr ⟨rfl, h.fits _ (List.mem_of_getElem? hcall)⟩
      · exact Or.inl hold
    · rintro made ⟨⟩
      exact hnew
  · intro pid
    rw [State.frames, hframes]
    exact h.children pid
  · intro p hp
    rw [State.frames, hframes]
    exact h.killed p hp
  · refine h.owners_of_perm hcall rfl rfl ?_
    show (List.map (fun e : String × LocalNode => e.2.cell) (SortedMap.insert node.handle.id node s.nodes) ++ []).Perm _
    rw [List.append_nil]
    exact (hperm.map fun e : String × LocalNode => e.2.cell).trans (List.perm_append_singleton _ _).symm
  · refine h.directories_of_perm hcall rfl rfl ?_
    show (List.map (fun e : String × LocalNode => e.2.workspace) (SortedMap.insert node.handle.id node s.nodes) ++
      []).Perm _
    rw [List.append_nil]
    exact (hperm.map fun e : String × LocalNode => e.2.workspace).trans (List.perm_append_singleton _ _).symm
  · intro w
    have hcount := Holdings.count_set makes hcall (.finished (.created node) none none) w
    have hold := h.fresh w
    rw [State.making] at hold ⊢
    exact (congrArg (s.directories.count w + ·) hcount).trans_le hold
  · refine hkept.turn' hcall rfl (fun _ hm => Or.inl hm) ?_ ?_
    · intro m hm
      obtain ⟨e, he, rfl⟩ := List.mem_map.mp hm
      exact Or.inl (List.mem_map.mpr ⟨e, hsub e he, rfl⟩)
    · intro m hm _
      exact Or.inl (List.mem_map.mpr ⟨_, hnew, (List.mem_singleton.mp hm).symm⟩)

/-! ### A node is taken off the list -/

theorem remove_inv (h : Account s) (hkept : Kept s) {id : String} {node : LocalNode}
    (hcall : s.calls[i]? = some (.deleting id)) (hlookup : SortedMap.lookup id s.nodes = some node) :
    let t := { s with nodes := SortedMap.remove id s.nodes, calls := s.calls.set i (.removed node) }
    Account t ∧ Kept t := by
  intro t
  have hmem := SortedMap.mem_of_lookup hlookup
  have hperm := h.sorted.perm_remove hmem
  have hframes (pid : Pid) : t.frames pid = s.frames pid := Holdings.count_set frame hcall (.removed node) pid
  have hsplit (e : String × LocalNode) (he : e ∈ s.nodes) : e = (id, node) ∨ e ∈ t.nodes :=
    List.mem_cons.mp (hperm.mem_iff.mp he)
  refine ⟨⟨?_, ⟨h.alone, ?_, ?_, ?_, ?_, ?_⟩⟩, ?_⟩
  · refine h.standing hcall rfl (fun _ _ _ => rfl) h.sorted.remove (fun e he => Or.inl (List.mem_of_mem_filter he)) ?_
      (List.nil_subset _) (h.alive _ hmem).2 fun _ hsome => by cases hsome
    intro e he
    rcases hsplit e he with rfl | hstays
    · exact Or.inr List.mem_cons_self
    · exact Or.inl hstays
  · intro pid
    rw [hframes]
    exact h.children pid
  · intro p hp
    rw [hframes]
    exact h.killed p hp
  · refine h.owners_of_perm hcall rfl rfl ?_
    show (_ ++ [node.cell]).Perm (s.listed ++ [])
    rw [List.append_nil]
    exact (List.perm_append_singleton _ _).trans (hperm.map fun e : String × LocalNode => e.2.cell).symm
  · refine h.directories_of_perm hcall rfl rfl ?_
    show (_ ++ [node.workspace]).Perm (List.map (fun e => e.2.workspace) s.nodes ++ [])
    rw [List.append_nil]
    exact (List.perm_append_singleton _ _).trans (hperm.map fun e : String × LocalNode => e.2.workspace).symm
  · intro w
    have hcount := Holdings.count_set makes hcall (.removed node) w
    have hold := h.fresh w
    rw [State.making] at hold ⊢
    exact (congrArg (s.directories.count w + ·) hcount).trans_le hold
  · refine hkept.turn' hcall rfl (fun _ hm => Or.inl hm) ?_ (fun _ hm => absurd hm List.not_mem_nil)
    intro m hm
    obtain ⟨e, he, rfl⟩ := List.mem_map.mp hm
    rcases hsplit e he with rfl | hstays
    · exact Or.inr List.mem_cons_self
    · exact Or.inl (List.mem_map.mpr ⟨e, hstays, rfl⟩)

/-! ### A child is killed, and waited for -/

theorem killNode_inv (h : Account s) (hkept : Kept s) {node : LocalNode} (hcall : s.calls[i]? = some (.removed node)) :
    Account (killNode s i node) ∧ Kept (killNode s i node) := by
  obtain ⟨pid, hcell, hid⟩ := h.fits _ (List.mem_of_getElem? hcall)
  have hlt : node.cell < s.cells.length := h.lt_of_owned (Counts.owned_pos hcall List.mem_cons_self)
  rw [killNode, hcell]
  have hself := State.cell_setCell_self hlt ⟨none, .running⟩
  have hkids (pid' : Pid) := s.kids_setCell hlt ⟨none, .running⟩ pid'
  have hframes (pid' : Pid) := Holdings.count_set frame hcall (.reaping node pid) pid'
  rw [hcell] at hkids
  refine ⟨⟨?_, ?_⟩, ?_⟩
  · refine h.standing hcall rfl ?_ h.sorted (fun e he => Or.inl he) (fun e he => Or.inl he) (fun _ hm => hm) hself
      fun _ hsome => by cases hsome
    exact fun n _ hn => State.cell_setCell_ne (fun heq => hn (List.mem_singleton.mpr heq)) _
  · refine h.turn hcall rfl rfl List.length_set rfl rfl rfl (fun _ => Nat.le_refl _) ?_ ?_ ?_
    · show (((s.setCell node.cell ⟨none, .running⟩).kill pid).pids).Nodup
      rw [State.pids_kill]
      exact h.alone
    · intro pid'
      have hold := h.children pid'
      have hmoved := hkids pid'
      have hframed : ((s.calls.set i (.reaping node pid)).flatMap frame).count pid' =
          s.frames pid' + [pid].count pid' := hframes pid'
      show (((s.setCell node.cell ⟨none, .running⟩).kill pid).pids).count pid' =
        (s.setCell node.cell ⟨none, .running⟩).kids pid' +
          ((s.calls.set i (.reaping node pid)).flatMap frame).count pid' + s.orphans.count pid'
      rw [State.pids_kill, hframed]
      show s.pids.count pid' = _
      have hone : (Cell.kids ⟨some pid, .running⟩).count pid' = [pid].count pid' := rfl
      have hnone : (Cell.kids ⟨none, .running⟩).count pid' = 0 := rfl
      omega
    · intro p hp
      obtain ⟨p₀, hmem, hpid, hiff⟩ := State.mem_kill hp
      have hframed : ((s.calls.set i (.reaping node pid)).flatMap frame).count p₀.pid =
          s.frames p₀.pid + [pid].count p₀.pid := hframes p₀.pid
      rw [hiff, h.killed p₀ hmem, hpid]
      show _ ↔ 0 < ((s.calls.set i (.reaping node pid)).flatMap frame).count p₀.pid + s.orphans.count p₀.pid
      rw [hframed, ← List.mem_singleton, ← List.count_pos_iff]
      omega
  · refine hkept.turn' hcall rfl ?_ (fun _ hm => Or.inl hm) fun _ hm _ => Or.inr hm
    intro m hchild
    by_cases hm : m = node.cell
    · exact Or.inr (List.mem_singleton.mpr hm)
    · exact Or.inl (State.cell_setCell_ne hm ⟨none, .running⟩ ▸ hchild)

/-- The child of the call has exited; after this its id is free. -/
theorem waitFor_inv (h : Account s) (hkept : Kept s) {node : LocalNode}
    (hcall : s.calls[i]? = some (.reaping node pid)) :
    Account ((s.waitFor pid).become i (.reaped node)) ∧ Kept ((s.waitFor pid).become i (.reaped node)) := by
  have hframes (pid' : Pid) : ((s.calls.set i (.reaped node)).flatMap frame).count pid' + [pid].count pid' =
      s.frames pid' := Holdings.count_set frame hcall (.reaped node) pid'
  have hone : s.pids.count pid = 1 := by
    have hle := List.nodup_iff_count_le_one.mp h.alone pid
    have hold := h.children pid
    have hframed := hframes pid
    rw [List.count_singleton_self] at hframed
    omega
  have hpids := Holdings.count_filter_ne hone
  refine ⟨⟨?_, ?_⟩, ?_⟩
  · exact h.standing hcall rfl (fun _ _ _ => rfl) h.sorted (fun e he => Or.inl he) (fun e he => Or.inl he)
      (fun _ hm => hm) (h.fits _ (List.mem_of_getElem? hcall)) fun _ hsome => by cases hsome
  · refine h.turn hcall rfl rfl rfl rfl rfl rfl (fun _ => Nat.le_refl _) ?_ ?_ ?_
    · show (s.waitFor pid).pids.Nodup
      rw [State.pids_waitFor]
      exact h.alone.filter _
    · intro pid'
      have hold := h.children pid'
      have hframed := hframes pid'
      have hgone := hpids pid'
      show (s.waitFor pid).pids.count pid' =
        s.kids pid' + ((s.calls.set i (.reaped node)).flatMap frame).count pid' + s.orphans.count pid'
      rw [State.pids_waitFor]
      omega
    · intro p hp
      obtain ⟨hmem, hne⟩ := List.mem_filter.mp hp
      have hframed := hframes p.pid
      have hother : [pid].count p.pid = 0 :=
        List.count_eq_zero.mpr fun hin => of_decide_eq_true hne (List.mem_singleton.mp hin)
      rw [h.killed p hmem, ← hframed, hother]
      rfl
  · exact hkept.turn' hcall rfl (fun _ hm => Or.inl hm) (fun _ hm => Or.inl hm) fun _ hm _ => Or.inr hm

theorem setExited_inv (h : Account s) (hkept : Kept s) {node : LocalNode} (hcall : s.calls[i]? = some (.reaped node)) :
    let t := (s.setCell node.cell { s.cell node.cell with status := .exited }).become i (.clearing node)
    Account t ∧ Kept t := by
  intro t
  have hcell : s.cell node.cell = ⟨none, .running⟩ := h.fits _ (List.mem_of_getElem? hcall)
  have hlt : node.cell < s.cells.length := h.lt_of_owned (Counts.owned_pos hcall List.mem_cons_self)
  have hself : t.cell node.cell = ⟨none, .exited⟩ := by
    refine (State.cell_setCell_self hlt _).trans ?_
    rw [hcell]
  have hother {m : Nat} (hm : m ≠ node.cell) : t.cell m = s.cell m := State.cell_setCell_ne hm _
  have hframes (pid : Pid) : t.frames pid = s.frames pid := Holdings.count_set frame hcall (.clearing node) pid
  have hkids (pid : Pid) : t.kids pid = s.kids pid := by
    have hcount := s.kids_setCell hlt { s.cell node.cell with status := .exited } pid
    rw [hcell] at hcount
    exact (congrArg (fun cell => (s.setCell node.cell cell).kids pid) (by rw [hcell])).trans hcount
  refine ⟨⟨?_, ?_⟩, ?_⟩
  · refine h.standing hcall rfl (fun n _ hn => hother fun heq => hn (List.mem_singleton.mpr heq)) h.sorted
      (fun e he => Or.inl he) (fun e he => Or.inl he) (fun _ hm => hm) hself fun _ hsome => by cases hsome
  · refine h.turn hcall rfl rfl List.length_set rfl rfl rfl (fun _ => Nat.le_refl _) h.alone ?_ ?_
    · intro pid
      rw [hframes, hkids]
      exact h.children pid
    · intro p hp
      rw [hframes]
      exact h.killed p hp
  · refine hkept.turn' hcall rfl ?_ (fun _ hm => Or.inl hm) fun _ hm _ => Or.inr hm
    intro m hchild
    by_cases hm : m = node.cell
    · exact Or.inr (List.mem_singleton.mpr hm)
    · rw [hother hm] at hchild
      exact Or.inl hchild

/-! ### A reference is let go of -/

/-- What was kept by one reference alone goes with it. -/
theorem release_inv (h : Account s) (hkept : ∀ m, (s.cell m).child ≠ none → s.held m = true ∨ m = n) :
    Account (s.release n) ∧ Kept (s.release n) := by
  rw [State.release]
  split_ifs with hheld
  · refine ⟨h, fun m hchild => ?_⟩
    rcases hkept m hchild with hm | rfl
    · exact hm
    · exact hheld
  split
  · rename_i hnone
    refine ⟨h, fun m hchild => (hkept m hchild).resolve_right ?_⟩
    rintro rfl
    exact hchild hnone
  rename_i pid hsome
  have hlt : n < s.cells.length := State.lt_of_child (by rw [hsome]; exact Option.some_ne_none pid)
  have hnot : n ∉ s.listed ∧ ∀ call ∈ s.calls, n ∉ call.holds := by
    rw [State.held_iff, not_or] at hheld
    exact ⟨hheld.1, fun call hmem hin => hheld.2 ⟨call, hmem, hin⟩⟩
  generalize hcell : ({ s.cell n with child := none } : Cell) = cell
  have hself : ((s.setCell n cell).dropChild pid).cell n = cell := State.cell_setCell_self hlt cell
  have hother {m : Nat} (hm : m ≠ n) : ((s.setCell n cell).dropChild pid).cell m = s.cell m :=
    State.cell_setCell_ne hm cell
  refine ⟨⟨⟨h.sorted, ?_, ?_, h.created⟩, ⟨?_, ?_, ?_, ?_, h.directories, h.fresh⟩⟩, ?_⟩
  · intro e he
    obtain ⟨hid, halive⟩ := h.alive e he
    exact ⟨hid, halive.congr (hother fun heq => hnot.1 (List.mem_map.mpr ⟨e, he, heq⟩))⟩
  · intro call hmem
    refine (h.fits call hmem).keep fun m hm => hother ?_
    rintro rfl
    rcases hm with hm | hnone
    · exact hnot.2 call hmem hm
    · rw [hsome] at hnone
      cases hnone
  · show ((s.setCell n cell).kill pid).pids.Nodup
    rw [State.pids_kill]
    exact h.alone
  · intro pid'
    have hold := h.children pid'
    have hmoved := s.kids_setCell hlt cell pid'
    have hone : (s.cell n).kids = [pid] := by rw [Cell.kids, hsome, Option.toList_some]
    have hnone : cell.kids = [] := by rw [← hcell]; rfl
    rw [hone, hnone, List.count_nil] at hmoved
    show ((s.setCell n cell).kill pid).pids.count pid' =
      (s.setCell n cell).kids pid' + s.frames pid' + (s.orphans ++ [pid]).count pid'
    rw [State.pids_kill, List.count_append]
    show s.pids.count pid' = _
    omega
  · intro p hp
    obtain ⟨p₀, hmem, hpid, hiff⟩ := State.mem_kill hp
    rw [hiff, h.killed p₀ hmem, hpid]
    show _ ↔ 0 < s.frames p₀.pid + (s.orphans ++ [pid]).count p₀.pid
    rw [List.count_append, ← List.mem_singleton, ← List.count_pos_iff]
    omega
  · intro m
    show s.listed.count m + s.owned m = if m < (s.cells.set n cell).length then 1 else 0
    rw [List.length_set]
    exact h.owners m
  · intro m hchild
    by_cases hm : m = n
    · rw [hm, hself, ← hcell] at hchild
      exact absurd rfl hchild
    · rw [hother hm] at hchild
      exact (hkept m hchild).resolve_right hm

/-! ### A call is over, or dropped -/

theorem Account.removeDir (h : Account s) {node : LocalNode} (hcall : s.calls[i]? = some (.clearing node))
    {outcome : Outcome} (hfits : (Phase.finished outcome (some node.cell) none).Fits s)
    (hmade : (Phase.finished outcome (some node.cell) none).made = none) :
    Account ((s.removeDir node.workspace).become i (.finished outcome (some node.cell) none)) := by
  have hframes (pid : Pid) :
      ((s.removeDir node.workspace).become i (.finished outcome (some node.cell) none)).frames pid = s.frames pid :=
    Holdings.count_set frame hcall (.finished outcome (some node.cell) none) pid
  have hkeeps (w : String) : ((s.calls.set i (.finished outcome (some node.cell) none)).flatMap keeps).count w +
      [node.workspace].count w = s.kept w := Holdings.count_set keeps hcall (.finished outcome (some node.cell) none) w
  have hone : s.directories.count node.workspace = 1 := by
    have hdirs := h.directories node.workspace
    have hfresh := h.fresh node.workspace
    have hkept := hkeeps node.workspace
    rw [List.count_singleton_self] at hkept
    omega
  have hgone := Holdings.count_filter_ne hone
  refine ⟨?_, ⟨h.alone, ?_, ?_, ?_, ?_, ?_⟩⟩
  · refine h.standing hcall rfl (fun _ _ _ => rfl) h.sorted (fun e he => Or.inl he) (fun e he => Or.inl he)
      (fun _ hm => hm) (hfits.congr fun _ _ => rfl) ?_
    intro made hsome
    rw [hmade] at hsome
    cases hsome
  · intro pid
    rw [hframes]
    exact h.children pid
  · intro p hp
    rw [hframes]
    exact h.killed p hp
  · exact h.owners_of_perm hcall rfl rfl (.refl _)
  · intro w
    have hdirs := h.directories w
    have hkept := hkeeps w
    have hw := hgone w
    show (s.directories.filter fun v => v ≠ node.workspace).count w = (s.nodes.map fun e => e.2.workspace).count w +
      ((s.calls.set i (.finished outcome (some node.cell) none)).flatMap keeps).count w
    omega
  · intro w
    have hmaking := Holdings.count_set makes hcall (.finished outcome (some node.cell) none) w
    have hfresh := h.fresh w
    have hw := hgone w
    rw [State.making] at hfresh
    show (s.directories.filter fun v => v ≠ node.workspace).count w +
      ((s.calls.set i (.finished outcome (some node.cell) none)).flatMap makes).count w ≤ 1
    have hnil : makes (.clearing node) = [] := rfl
    have hnone : makes (.finished outcome (some node.cell) none) = [] := rfl
    rw [hnil, hnone, List.count_nil] at hmaking
    omega

/-- The call lets go of its node, and leaves the directory. -/
theorem clear_false_inv (h : Account s) (hkept : Kept s) (hcall : s.calls[i]? = some x) {node : LocalNode}
    {outcome : Outcome} (hframe : x.frame = []) (howns : x.owns = [node.cell]) (hkeeps : x.keeps = [node.workspace])
    (htakes : x.takes ⊆ [node.cell]) (hholds : x.holds = [node.cell])
    (hfits : (Phase.finished outcome (some node.cell) (some node.workspace)).Fits s)
    (hmade : (Phase.finished outcome (some node.cell) (some node.workspace)).made = none) :
    Account (clear s i node outcome false) ∧ Kept (clear s i node outcome false) := by
  refine release_inv (h.become hcall hframe.symm howns.symm htakes hkeeps.symm (fun _ => Nat.zero_le _) hfits hmade)
    fun _ hchild => ?_
  have hturn := hkept.turn hchild hcall rfl (fun _ hm => Or.inl hm) (fun _ hm => Or.inl hm)
  rw [hholds, List.mem_singleton] at hturn
  exact hturn

theorem clear_true_inv (h : Account s) (hkept : Kept s) {node : LocalNode}
    (hcall : s.calls[i]? = some (.clearing node)) {outcome : Outcome}
    (hfits : (Phase.finished outcome (some node.cell) none).Fits s)
    (hmade : (Phase.finished outcome (some node.cell) none).made = none) :
    Account (clear s i node outcome true) ∧ Kept (clear s i node outcome true) := by
  refine release_inv (h.removeDir hcall hfits hmade) fun _ hchild => ?_
  have hturn := hkept.turn hchild hcall rfl (fun _ hm => Or.inl hm) (fun _ hm => Or.inl hm)
  exact hturn.imp_right List.mem_singleton.mp

/-- A call that waits for its child leaves it to the runtime. -/
theorem drop_reaping_inv (h : Account s) (hkept : Kept s) {node : LocalNode}
    (hcall : s.calls[i]? = some (.reaping node pid)) :
    Account (clear (s.dropChild pid) i node .dropped false) ∧ Kept (clear (s.dropChild pid) i node .dropped false) := by
  have hframes (pid' : Pid) :
      ((s.calls.set i (.finished .dropped (some node.cell) (some node.workspace))).flatMap frame).count pid' +
        [pid].count pid' = s.frames pid' := Holdings.count_set frame hcall _ pid'
  refine release_inv ⟨?_, ?_⟩ fun m hchild => ?_
  · exact h.standing hcall rfl (fun _ _ _ => rfl) h.sorted (fun e he => Or.inl he) (fun e he => Or.inl he)
      (fun _ hm => hm) trivial fun _ hsome => by cases hsome
  · refine h.turn hcall rfl rfl rfl rfl rfl rfl (fun _ => Nat.le_refl _) ?_ ?_ ?_
    · show (s.kill pid).pids.Nodup
      rw [State.pids_kill]
      exact h.alone
    · intro pid'
      have hold := h.children pid'
      have hframed := hframes pid'
      show (s.kill pid).pids.count pid' = s.kids pid' +
        ((s.calls.set i (.finished .dropped (some node.cell) (some node.workspace))).flatMap frame).count pid' +
          (s.orphans ++ [pid]).count pid'
      rw [State.pids_kill, List.count_append]
      omega
    · intro p hp
      obtain ⟨p₀, hmem, hpid, hiff⟩ := State.mem_kill hp
      have hframed := hframes p₀.pid
      rw [hiff, h.killed p₀ hmem, hpid]
      show _ ↔ 0 <
        ((s.calls.set i (.finished .dropped (some node.cell) (some node.workspace))).flatMap frame).count p₀.pid +
          (s.orphans ++ [pid]).count p₀.pid
      rw [List.count_append, ← List.mem_singleton, ← List.count_pos_iff]
      omega
  · have hturn := hkept.turn hchild hcall rfl (fun _ hm => Or.inl hm) (fun _ hm => Or.inl hm)
    exact hturn.imp_right List.mem_singleton.mp

/-! ### Processes exit -/

theorem exit_inv (h : Account s) (hkept : Kept s) (pid : Pid) :
    let t := { s with processes := s.processes.map fun p => if p.pid = pid then { p with exited := true } else p }
    Account t ∧ Kept t := by
  intro t
  have hpids : t.pids = s.pids := by
    rw [State.pids, State.pids, List.map_map]
    refine List.map_congr_left fun p _ => ?_
    simp only [Function.comp_apply]
    split_ifs
    · rfl
    · rfl
  refine ⟨⟨⟨h.sorted, h.alive, fun call hmem => (h.fits call hmem).congr fun _ _ => rfl, h.created⟩,
    ⟨?_, ?_, ?_, h.owners, h.directories, h.fresh⟩⟩, hkept⟩
  · rw [hpids]
    exact h.alone
  · intro pid'
    rw [hpids]
    exact h.children pid'
  · intro p hp
    obtain ⟨p₀, hmem, rfl⟩ := List.mem_map.mp hp
    have hold := h.killed p₀ hmem
    split_ifs
    · exact hold
    · exact hold

theorem reap_inv (h : Account s) (hkept : Kept s) (hmem : pid ∈ s.orphans) :
    let t := { s.waitFor pid with orphans := s.orphans.erase pid }
    Account t ∧ Kept t := by
  intro t
  have hpos := List.count_pos_iff.mpr hmem
  have hone : s.pids.count pid = 1 := by
    have hle := List.nodup_iff_count_le_one.mp h.alone pid
    have hold := h.children pid
    omega
  have hgone := Holdings.count_filter_ne hone
  have hpids : t.pids = s.pids.filter fun p => p ≠ pid := s.pids_waitFor pid
  have herase (pid' : Pid) : (s.orphans.erase pid).count pid' + [pid].count pid' = s.orphans.count pid' := by
    have hperm := (List.perm_cons_erase hmem).count_eq pid'
    rw [List.count_cons, ← List.count_singleton] at hperm
    exact hperm.symm
  refine ⟨⟨⟨h.sorted, h.alive, fun call hmem => (h.fits call hmem).congr fun _ _ => rfl, h.created⟩,
    ⟨?_, ?_, ?_, h.owners, h.directories, h.fresh⟩⟩, hkept⟩
  · rw [hpids]
    exact h.alone.filter _
  · intro pid'
    have hold := h.children pid'
    have hw := hgone pid'
    have herased := herase pid'
    rw [hpids]
    show _ = s.kids pid' + s.frames pid' + (s.orphans.erase pid).count pid'
    omega
  · intro p hp
    obtain ⟨hold, hne⟩ := List.mem_filter.mp hp
    have herased := herase p.pid
    have hother : [pid].count p.pid = 0 :=
      List.count_eq_zero.mpr fun hin => of_decide_eq_true hne (List.mem_singleton.mp hin)
    rw [hother] at herased
    rw [h.killed p hold, ← herased]
    rfl

end Compute

end Overacp
