import Mathlib.Data.List.Count
import Mathlib.Logic.Function.Basic

/-!
# Items and the places they stand at

Items stand in line at places. An item arrives at the end of a line, is passed from the head of one line to
the end of another, or a whole line is; and a line may be cleared. What arrives once is afterwards at one
place and at no other, until its line is cleared.
-/

namespace Custody

variable {ι α : Type*}

/-- What stands at each place, oldest first. -/
abbrev Ledger (ι α : Type*) := ι → List α

namespace Ledger

variable {c : Ledger ι α} {p q : ι} {x y : α}

/-- The item stands nowhere. -/
def Absent (c : Ledger ι α) (x : α) : Prop := ∀ q, x ∉ c q

theorem Absent.count [DecidableEq α] (h : Absent c x) (q : ι) : (c q).count x = 0 :=
  List.count_eq_zero.mpr (h q)

theorem Absent.of_count [DecidableEq α] {c' : Ledger ι α}
    (hcount : ∀ r, (c' r).count x = (c r).count x) (h : Absent c x) : Absent c' x :=
  fun r => List.count_eq_zero.mp ((hcount r).trans (h.count r))

variable [DecidableEq ι]

/-- The head of one line goes to the end of another. -/
def pass (c : Ledger ι α) (p q : ι) : Ledger ι α :=
  match c p with
  | [] => c
  | x :: rest => Function.update (Function.update c p rest) q (c q ++ [x])

def passAll (c : Ledger ι α) (p q : ι) : Ledger ι α :=
  Function.update (Function.update c p []) q (c q ++ c p)

def arrive (c : Ledger ι α) (q : ι) (x : α) : Ledger ι α := Function.update c q (c q ++ [x])

def clear (c : Ledger ι α) (p : ι) : Ledger ι α := Function.update c p []

theorem pass_nil (h : c p = []) : c.pass p q = c := by
  rw [pass, h]

theorem pass_cons {rest : List α} (h : c p = y :: rest) :
    c.pass p q = Function.update (Function.update c p rest) q (c q ++ [y]) := by
  rw [pass, h]

theorem pass_apply {rest : List α} (h : c p = y :: rest) (r : ι) :
    c.pass p q r = if r = q then c q ++ [y] else if r = p then rest else c r := by
  rw [pass_cons h]
  by_cases hq : r = q
  · rw [hq, Function.update_self, if_pos rfl]
  · rw [Function.update_of_ne hq, if_neg hq]
    by_cases hp : r = p
    · rw [hp, Function.update_self, if_pos rfl]
    · rw [Function.update_of_ne hp, if_neg hp]

theorem passAll_apply (r : ι) :
    c.passAll p q r = if r = q then c q ++ c p else if r = p then [] else c r := by
  rw [passAll]
  by_cases hq : r = q
  · rw [hq, Function.update_self, if_pos rfl]
  · rw [Function.update_of_ne hq, if_neg hq]
    by_cases hp : r = p
    · rw [hp, Function.update_self, if_pos rfl]
    · rw [Function.update_of_ne hp, if_neg hp]

theorem arrive_apply (r : ι) : c.arrive q y r = if r = q then c q ++ [y] else c r := by
  rw [arrive]
  by_cases hq : r = q
  · rw [hq, Function.update_self, if_pos rfl]
  · rw [Function.update_of_ne hq, if_neg hq]

theorem clear_apply (r : ι) : c.clear p r = if r = p then [] else c r := by
  rw [clear]
  by_cases hp : r = p
  · rw [hp, Function.update_self, if_pos rfl]
  · rw [Function.update_of_ne hp, if_neg hp]

/-! ### One place, and no other -/

variable [DecidableEq α]

/-- The item stands at one place, once. -/
def Once (c : Ledger ι α) (x : α) : Prop := ∃ p, ∀ q, (c q).count x = if q = p then 1 else 0

theorem Once.not_absent (h : Once c x) : ¬ Absent c x := by
  obtain ⟨p, hp⟩ := h
  intro habsent
  have hone := hp p
  rw [habsent.count, if_pos rfl] at hone
  exact absurd hone (by decide)

/-- What counts the same everywhere stands where it stood. -/
theorem Once.of_count {c' : Ledger ι α} (hcount : ∀ r, (c' r).count x = (c r).count x) (h : Once c x) :
    Once c' x := by
  obtain ⟨p, hp⟩ := h
  exact ⟨p, fun r => (hcount r).trans (hp r)⟩

/-! ### Passing on -/

/-- An item that is passed on leaves one line and joins the other. -/
theorem count_pass {rest : List α} (h : c p = y :: rest) (x : α) (r : ι) :
    (c.pass p q r).count x =
      if r = q then (c q).count x + [y].count x else if r = p then rest.count x else (c r).count x := by
  rw [pass_apply h]
  split_ifs with hq hp
  · rw [List.count_append]
  · rfl
  · rfl

theorem count_pass_ne {rest : List α} (h : c p = y :: rest) (hne : y ≠ x) (r : ι) :
    (c.pass p q r).count x = (c r).count x := by
  rw [count_pass h, List.count_cons_of_ne hne, List.count_nil, Nat.add_zero]
  split_ifs with hq hp
  · rw [hq]
  · rw [hp, h, List.count_cons_of_ne hne]
  · rfl

theorem Once.pass (hpq : p ≠ q) (h : Once c x) : Once (c.pass p q) x := by
  cases hline : c p with
  | nil =>
      rw [pass_nil hline]
      exact h
  | cons y rest =>
      by_cases hyx : y = x
      · subst hyx
        obtain ⟨p', hp'⟩ := h
        have hpos : p = p' := by
          by_contra hne
          have hzero := hp' p
          rw [hline, if_neg hne, List.count_cons_self] at hzero
          omega
        subst hpos
        refine ⟨q, fun r => ?_⟩
        have hself := hp' p
        rw [hline, List.count_cons_self, if_pos rfl] at hself
        rw [count_pass hline, List.count_cons_self, List.count_nil]
        split_ifs with hq hp
        · rw [hp' q, if_neg (Ne.symm hpq)]
        · omega
        · rw [hp' r, if_neg hp]
      · exact h.of_count (count_pass_ne hline hyx)

theorem Absent.pass (h : Absent c x) (p q : ι) : Absent (c.pass p q) x := by
  cases hline : c p with
  | nil =>
      rw [pass_nil hline]
      exact h
  | cons y rest =>
      refine h.of_count (count_pass_ne hline ?_)
      rintro rfl
      exact h p (hline ▸ List.mem_cons_self)

theorem count_passAll (x : α) (r : ι) :
    (c.passAll p q r).count x =
      if r = q then (c q).count x + (c p).count x else if r = p then 0 else (c r).count x := by
  rw [passAll_apply]
  split_ifs with hq hp
  · rw [List.count_append]
  · rw [List.count_nil]
  · rfl

theorem Once.passAll (hpq : p ≠ q) (h : Once c x) : Once (c.passAll p q) x := by
  obtain ⟨p', hp'⟩ := h
  by_cases hpos : p = p'
  · subst hpos
    refine ⟨q, fun r => ?_⟩
    rw [count_passAll, hp' p, if_pos rfl, hp' q, if_neg (Ne.symm hpq)]
    split_ifs with hq hp
    · rfl
    · rfl
    · rw [hp' r, if_neg hp]
  · refine Once.of_count (fun r => ?_) ⟨p', hp'⟩
    rw [count_passAll, hp' p, if_neg hpos, Nat.add_zero]
    split_ifs with hq hp
    · rw [hq]
    · rw [hp, hp' p, if_neg hpos]
    · rfl

theorem Absent.passAll (h : Absent c x) (p q : ι) : Absent (c.passAll p q) x := by
  refine h.of_count fun r => ?_
  rw [count_passAll, h.count, h.count, h.count]
  split_ifs <;> rfl

/-- Nothing arrives and nothing is cleared: items stay where they are, or are passed on. -/
inductive Moved (c c' : Ledger ι α) : Prop where
  | same (h : c' = c)
  | pass (p q : ι) (hpq : p ≠ q) (h : c' = c.pass p q)
  | passAll (p q : ι) (hpq : p ≠ q) (h : c' = c.passAll p q)

theorem Once.moved {c' : Ledger ι α} (h : Once c x) (hmoved : Moved c c') : Once c' x := by
  cases hmoved with
  | same heq => rwa [heq]
  | pass p q hpq heq =>
      rw [heq]
      exact h.pass hpq
  | passAll p q hpq heq =>
      rw [heq]
      exact h.passAll hpq

theorem Absent.moved {c' : Ledger ι α} (h : Absent c x) (hmoved : Moved c c') : Absent c' x := by
  cases hmoved with
  | same heq => rwa [heq]
  | pass p q _ heq =>
      rw [heq]
      exact h.pass p q
  | passAll p q _ heq =>
      rw [heq]
      exact h.passAll p q

/-! ### Arriving -/

theorem count_arrive (x : α) (r : ι) :
    (c.arrive q y r).count x = if r = q then (c q).count x + [y].count x else (c r).count x := by
  rw [arrive_apply]
  split_ifs with hq
  · rw [List.count_append]
  · rfl

theorem count_arrive_ne (hne : y ≠ x) (r : ι) : (c.arrive q y r).count x = (c r).count x := by
  rw [count_arrive, List.count_cons_of_ne hne, List.count_nil, Nat.add_zero]
  split_ifs with hq
  · rw [hq]
  · rfl

theorem Absent.arrive_self (h : Absent c x) (q : ι) : Once (c.arrive q x) x := by
  refine ⟨q, fun r => ?_⟩
  rw [count_arrive, h.count, h.count, List.count_cons_self, List.count_nil]

/-! ### Clearing -/

theorem count_clear (x : α) (r : ι) : (c.clear p r).count x = if r = p then 0 else (c r).count x := by
  rw [clear_apply]
  split_ifs with hp
  · rw [List.count_nil]
  · rfl

theorem Absent.clear (h : Absent c x) (p : ι) : Absent (c.clear p) x := by
  refine h.of_count fun r => ?_
  rw [count_clear, h.count]
  split_ifs <;> rfl

/-- What is cleared away is gone, and what stood elsewhere stays. -/
theorem Once.clear (h : Once c x) (p : ι) : Once (c.clear p) x ∨ Absent (c.clear p) x := by
  obtain ⟨p', hp'⟩ := h
  by_cases hpos : p = p'
  · right
    intro r
    rw [← List.count_eq_zero, count_clear]
    split_ifs with hr
    · rfl
    · rw [hp' r, if_neg fun hr' => hr (hr'.trans hpos.symm)]
  · left
    refine ⟨p', fun r => ?_⟩
    rw [count_clear]
    split_ifs with hr hr'
    · exact absurd (hr.symm.trans hr') hpos
    · rfl
    · rw [hp' r, if_pos ‹_›]
    · rw [hp' r, if_neg ‹_›]

/-- Only what stood in the line is gone. -/
theorem Once.clear_iff (h : Once c x) (p : ι) : Once (c.clear p) x ↔ x ∉ c p := by
  obtain ⟨p', hp'⟩ := h
  constructor
  · rintro hkept hmem
    have hpos : p = p' := by
      by_contra hne
      have hzero := hp' p
      rw [if_neg hne] at hzero
      exact List.count_eq_zero.mp hzero hmem
    subst hpos
    refine hkept.not_absent fun r => List.count_eq_zero.mp ?_
    rw [count_clear]
    split_ifs with hr
    · rfl
    · rw [hp' r, if_neg hr]
  · intro hmem
    refine Once.of_count (fun r => ?_) ⟨p', hp'⟩
    rw [count_clear]
    split_ifs with hr
    · rw [hr, List.count_eq_zero.mpr hmem]
    · rfl

end Ledger

end Custody
