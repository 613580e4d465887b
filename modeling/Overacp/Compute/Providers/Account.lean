import Overacp.Compute.Providers.Local
import Overacp.Lib.Slots

/-!
# Every node and every process is in one place

Each node there ever was is listed, or in the hands of one call. A child stands in its node until the call that
removed the node takes it, then in the frame of that call, and last with the runtime if it was dropped. So no
process is forgotten, none is killed while its node is listed, and an id that comes again never meets the node that
had it before.
-/

namespace Overacp

namespace Compute

/-! ### Who has what -/

def Cell.kids (cell : Cell) : List Pid := cell.child.toList

namespace Phase

/-- The node that is in the hands of the call, or was to its end. -/
def owns : Phase → List Nat
  | .inserting node | .removed node | .reaping node _ | .reaped node | .clearing node => [node.cell]
  | .finished _ took _ => took.toList
  | _ => []

/-- And the call has taken it off the list. -/
def takes : Phase → List Nat
  | .removed node | .reaping node _ | .reaped node | .clearing node => [node.cell]
  | .finished _ took _ => took.toList
  | _ => []

/-- The directory that is about to be made. -/
def makes : Phase → List String
  | .creating _ workspace => [workspace]
  | _ => []

/-- The directory that is there and is no listed node's. -/
def keeps : Phase → List String
  | .inserting node | .removed node | .reaping node _ | .reaped node | .clearing node => [node.workspace]
  | .finished _ _ left => left.toList
  | _ => []

/-- The node that a call has made and listed. -/
def made : Phase → Option LocalNode
  | .finished (.created node) _ _ => some node
  | _ => none

end Phase

open Phase

namespace State

def listed (s : State) : List Nat := s.nodes.map fun e => e.2.cell

def kids (s : State) (pid : Pid) : Nat := (s.cells.flatMap Cell.kids).count pid

def frames (s : State) (pid : Pid) : Nat := (s.calls.flatMap frame).count pid

def owned (s : State) (n : Nat) : Nat := (s.calls.flatMap owns).count n

def taken (s : State) (n : Nat) : Nat := (s.calls.flatMap takes).count n

def kept (s : State) (w : String) : Nat := (s.calls.flatMap keeps).count w

def making (s : State) (w : String) : Nat := (s.calls.flatMap makes).count w

/-- The node has its child, runs, and goes by the id of the child. -/
def Alive (s : State) (node : LocalNode) : Prop :=
  ∃ pid, s.cell node.cell = ⟨some pid, .running⟩ ∧ node.handle.id = toString pid

end State

/-- What a call relies on about its node. -/
def Phase.Fits (s : State) : Phase → Prop
  | .inserting node | .removed node => s.Alive node
  | .reaping node _ | .reaped node => s.cell node.cell = ⟨none, .running⟩
  | .clearing node => s.cell node.cell = ⟨none, .exited⟩
  | .finished .deleted (some n) _ => s.cell n = ⟨none, .exited⟩
  | _ => True

/-- What is listed runs, what a call has in hand is as the call left it, and a node that was created is listed until
a call takes it. -/
structure Standing (s : State) : Prop where
  sorted : SortedMap.Sorted s.nodes
  alive : ∀ e ∈ s.nodes, e.1 = e.2.handle.id ∧ s.Alive e.2
  fits : ∀ call ∈ s.calls, call.Fits s
  created : ∀ call ∈ s.calls, ∀ node, call.made = some node →
    (node.handle.id, node) ∈ s.nodes ∨ 0 < s.taken node.cell

/-- Where the processes, the nodes and the directories are. -/
structure Counts (s : State) : Prop where
  alone : s.pids.Nodup
  children : ∀ pid, s.pids.count pid = s.kids pid + s.frames pid + s.orphans.count pid
  killed : ∀ p ∈ s.processes, p.killed = true ↔ 0 < s.frames p.pid + s.orphans.count p.pid
  owners : ∀ n, s.listed.count n + s.owned n = if n < s.cells.length then 1 else 0
  directories : ∀ w, s.directories.count w = (s.nodes.map fun e => e.2.workspace).count w + s.kept w
  fresh : ∀ w, s.directories.count w + s.making w ≤ 1

structure Account (s : State) : Prop extends Standing s, Counts s

/-- A node that nothing refers to has no child any more. -/
def Kept (s : State) : Prop := ∀ n, (s.cell n).child ≠ none → s.held n = true

namespace State

variable {s : State} {i n m : Nat} {x : Phase} {pid : Pid}

theorem cell_setCell_self (h : n < s.cells.length) (cell : Cell) : (s.setCell n cell).cell n = cell := by
  rw [State.cell, setCell, List.getD_eq_getElem?_getD, List.getElem?_set_self h]
  rfl

theorem cell_setCell_ne (h : m ≠ n) (cell : Cell) : (s.setCell n cell).cell m = s.cell m := by
  rw [State.cell, setCell, List.getD_eq_getElem?_getD, List.getElem?_set_ne (Ne.symm h),
    ← List.getD_eq_getElem?_getD]
  rfl

theorem getElem?_cell (h : n < s.cells.length) : s.cells[n]? = some (s.cell n) := by
  rw [State.cell, List.getD_eq_getElem?_getD, List.getElem?_eq_getElem h, Option.getD_some]

theorem lt_of_child (h : (s.cell n).child ≠ none) : n < s.cells.length := by
  by_contra hge
  rw [State.cell, List.getD_eq_getElem?_getD, List.getElem?_eq_none (Nat.le_of_not_lt hge)] at h
  exact h rfl

theorem kids_setCell (h : n < s.cells.length) (cell : Cell) (pid : Pid) :
    (s.setCell n cell).kids pid + (s.cell n).kids.count pid = s.kids pid + cell.kids.count pid :=
  Holdings.count_set Cell.kids (getElem?_cell h) cell pid

@[simp] theorem pids_kill (s : State) (pid : Pid) : (s.kill pid).pids = s.pids := by
  simp only [pids, kill, List.map_map]
  refine List.map_congr_left fun p _ => ?_
  simp only [Function.comp_apply]
  split_ifs
  · rfl
  · rfl

theorem pids_waitFor (s : State) (pid : Pid) : (s.waitFor pid).pids = s.pids.filter fun p => p ≠ pid := by
  rw [pids, waitFor, pids, List.filter_map]
  rfl

theorem held_iff : s.held n = true ↔ n ∈ s.listed ∨ ∃ call ∈ s.calls, n ∈ call.holds := by
  simp [held, listed]

theorem mem_kill {p : Process} (h : p ∈ (s.kill pid).processes) :
    ∃ p₀ ∈ s.processes, p.pid = p₀.pid ∧ (p.killed = true ↔ p₀.killed = true ∨ p₀.pid = pid) := by
  obtain ⟨p₀, hmem, rfl⟩ := List.mem_map.mp h
  refine ⟨p₀, hmem, ?_⟩
  split_ifs with heq
  · simp [heq]
  · simp [heq]

theorem Alive.congr {t : State} {node : LocalNode} (hcell : t.cell node.cell = s.cell node.cell)
    (h : s.Alive node) : t.Alive node := by
  obtain ⟨pid, hchild, hid⟩ := h
  exact ⟨pid, hcell.trans hchild, hid⟩

end State

variable {s t : State} {i n : Nat} {x y : Phase} {pid : Pid}

theorem Phase.Fits.congr (hcells : ∀ n ∈ x.owns, t.cell n = s.cell n) (h : x.Fits s) : x.Fits t := by
  cases x with
  | inserting node | removed node => exact State.Alive.congr (hcells _ List.mem_cons_self) h
  | reaping node _ | reaped node | clearing node => exact (hcells _ List.mem_cons_self).trans h
  | finished outcome took left =>
      cases outcome with
      | deleted =>
          cases took with
          | none => trivial
          | some n => exact (hcells n List.mem_cons_self).trans h
      | _ => trivial
  | _ => trivial

/-- A cell without a child, or one that the call keeps alive, is all that it may rely on. -/
theorem Phase.Fits.keep (hcells : ∀ n, n ∈ x.holds ∨ (s.cell n).child = none → t.cell n = s.cell n) (h : x.Fits s) :
    x.Fits t := by
  cases x with
  | inserting node | removed node => exact State.Alive.congr (hcells _ (Or.inl List.mem_cons_self)) h
  | reaping node _ | reaped node | clearing node => exact (hcells _ (Or.inl List.mem_cons_self)).trans h
  | finished outcome took left =>
      cases outcome with
      | deleted =>
          cases took with
          | none => trivial
          | some n => exact (hcells n (Or.inr (congrArg Cell.child h))).trans h
      | _ => trivial
  | _ => trivial

/-! ### Where a node is, no other one is -/

namespace Counts

theorem lt_of_owned (h : Counts s) (howned : 0 < s.owned n) : n < s.cells.length := by
  by_contra hge
  have howner := h.owners n
  rw [if_neg hge] at howner
  omega

theorem not_listed (h : Counts s) (howned : 0 < s.owned n) : ∀ e ∈ s.nodes, e.2.cell ≠ n := by
  intro e he heq
  have hcount : 0 < s.listed.count n := List.count_pos_iff.mpr (List.mem_map.mpr ⟨e, he, heq⟩)
  have howner := h.owners n
  rw [if_pos (h.lt_of_owned howned)] at howner
  omega

theorem owned_pos (hcall : s.calls[i]? = some x) (hx : n ∈ x.owns) : 0 < s.owned n :=
  List.count_pos_iff.mpr (List.mem_flatMap.mpr ⟨x, List.mem_of_getElem? hcall, hx⟩)

/-- No other call has a node that one has. -/
theorem not_owned (h : Counts s) (hcall : s.calls[i]? = some x) (hx : n ∈ x.owns) {j : Nat} (hj : j ≠ i)
    (hother : s.calls[j]? = some y) : n ∉ y.owns := by
  intro hy
  have howner := h.owners n
  rw [if_pos (h.lt_of_owned (owned_pos hcall hx))] at howner
  have hone : (s.calls.flatMap owns).count n ≤ 1 := by
    rw [← howner]
    exact Nat.le_add_left _ _
  exact hj (Holdings.eq_of_count_le_one owns hone hother hy hcall hx)

theorem listed_lt (h : Counts s) {e : String × LocalNode} (he : e ∈ s.nodes) : e.2.cell < s.cells.length := by
  have hcount : 0 < s.listed.count e.2.cell := List.count_pos_iff.mpr (List.mem_map.mpr ⟨e, he, rfl⟩)
  by_contra hge
  have howner := h.owners e.2.cell
  rw [if_neg hge] at howner
  omega

end Counts

/-! ### The turn of one call -/

/-- A turn that changes the cell of its own node at most leaves what stands, if what it unlists it takes, and what
it lists runs. -/
theorem Account.standing (h : Account s) (hcall : s.calls[i]? = some x) (hcalls : t.calls = s.calls.set i y)
    (hcells : ∀ n < s.cells.length, n ∉ x.owns → t.cell n = s.cell n) (hsorted : SortedMap.Sorted t.nodes)
    (hnodes : ∀ e ∈ t.nodes, e ∈ s.nodes ∨ e.1 = e.2.handle.id ∧ t.Alive e.2)
    (hunlisted : ∀ e ∈ s.nodes, e ∈ t.nodes ∨ e.2.cell ∈ y.takes) (htakes : x.takes ⊆ y.takes) (hfits : y.Fits t)
    (hmade : ∀ node, y.made = some node → (node.handle.id, node) ∈ t.nodes) : Standing t := by
  have htaken {n : Nat} (hn : 0 < s.taken n) : 0 < t.taken n := by
    have hcount := Holdings.count_set takes hcall y n
    rw [State.taken, hcalls]
    rw [State.taken] at hn
    by_cases hx : n ∈ x.takes
    · have hy := List.count_pos_iff.mpr (htakes hx)
      have hle : (x.takes).count n ≤ (s.calls.flatMap takes).count n :=
        List.Sublist.count_le n (List.sublist_flatten_of_mem (List.mem_map_of_mem (List.mem_of_getElem? hcall)))
      omega
    · rw [List.count_eq_zero.mpr hx] at hcount
      omega
  have hyown {n : Nat} (hn : n ∈ y.takes) : 0 < t.taken n := by
    refine List.count_pos_iff.mpr (List.mem_flatMap.mpr ⟨y, ?_, hn⟩)
    rw [hcalls]
    exact List.mem_set (List.getElem?_eq_some_iff.mp hcall).1 y
  constructor
  · exact hsorted
  · intro e he
    rcases hnodes e he with hold | hnew
    · obtain ⟨hid, halive⟩ := h.alive e hold
      refine ⟨hid, halive.congr (hcells _ (h.listed_lt hold) fun hx => ?_)⟩
      exact h.not_listed (Counts.owned_pos hcall hx) e hold rfl
    · exact hnew
  · intro call hmem
    rw [hcalls] at hmem
    obtain ⟨j, hj⟩ := List.mem_iff_getElem?.mp hmem
    rcases Slots.of_getElem?_set hj with ⟨rfl, rfl⟩ | ⟨hne, hj⟩
    · exact hfits
    · refine (h.fits call (List.mem_of_getElem? hj)).congr fun n hn => ?_
      exact hcells n (h.lt_of_owned (Counts.owned_pos hj hn)) fun hx => h.not_owned hcall hx hne hj hn
  · intro call hmem node hsome
    rw [hcalls] at hmem
    obtain ⟨j, hj⟩ := List.mem_iff_getElem?.mp hmem
    rcases Slots.of_getElem?_set hj with ⟨rfl, rfl⟩ | ⟨hne, hj⟩
    · exact Or.inl (hmade node hsome)
    · rcases h.created call (List.mem_of_getElem? hj) node hsome with hold | htook
      · exact (hunlisted _ hold).imp id hyown
      · exact Or.inr (htaken htook)

/-- A reference that a turn lets go of is the only one by which a node may have been kept. -/
theorem Kept.turn (h : Kept s) {m : Nat} (hchild : (t.cell m).child ≠ none) (hcall : s.calls[i]? = some x)
    (hcalls : t.calls = s.calls.set i y)
    (hcells : ∀ m, (t.cell m).child ≠ none → (s.cell m).child ≠ none ∨ m ∈ y.holds)
    (hlisted : ∀ m ∈ s.listed, m ∈ t.listed ∨ m ∈ y.holds) : t.held m = true ∨ m ∈ x.holds := by
  have hy (hm : m ∈ y.holds) : t.held m = true := by
    refine State.held_iff.mpr (Or.inr ⟨y, ?_, hm⟩)
    rw [hcalls]
    exact List.mem_set (List.getElem?_eq_some_iff.mp hcall).1 y
  rcases hcells m hchild with hold | hm
  · rcases State.held_iff.mp (h m hold) with hmem | ⟨call, hmem, hm⟩
    · rcases hlisted m hmem with hmem | hm
      · exact Or.inl (State.held_iff.mpr (Or.inl hmem))
      · exact Or.inl (hy hm)
    · obtain ⟨j, hj⟩ := List.mem_iff_getElem?.mp hmem
      by_cases hne : j = i
      · obtain rfl : call = x := Option.some.inj (hj.symm.trans (hne ▸ hcall))
        exact Or.inr hm
      · refine Or.inl (State.held_iff.mpr (Or.inr ⟨call, List.mem_iff_getElem?.mpr ⟨j, ?_⟩, hm⟩))
        rw [hcalls, List.getElem?_set_ne (Ne.symm hne)]
        exact hj
  · exact Or.inl (hy hm)

theorem Kept.turn' (h : Kept s) (hcall : s.calls[i]? = some x) (hcalls : t.calls = s.calls.set i y)
    (hcells : ∀ m, (t.cell m).child ≠ none → (s.cell m).child ≠ none ∨ m ∈ y.holds)
    (hlisted : ∀ m ∈ s.listed, m ∈ t.listed ∨ m ∈ y.holds)
    (hholds : ∀ m ∈ x.holds, (t.cell m).child ≠ none → m ∈ t.listed ∨ m ∈ y.holds) : Kept t := by
  intro m hchild
  rcases h.turn hchild hcall hcalls hcells hlisted with hheld | hm
  · exact hheld
  · rcases hholds m hm hchild with hm | hm
    · exact State.held_iff.mpr (Or.inl hm)
    · refine State.held_iff.mpr (Or.inr ⟨y, ?_, hm⟩)
      rw [hcalls]
      exact List.mem_set (List.getElem?_eq_some_iff.mp hcall).1 y

end Compute

end Overacp
