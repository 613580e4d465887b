import Mathlib.Order.Basic
import Overacp.Lib.Custody

/-!
# Lines in order

Some places are ahead of others: an item is on its way from the places behind to the places ahead. The
lines are in order when every line is, and whatever stands ahead comes before whatever stands behind.
Passing the head of a line on keeps the order if nothing that stands behind its new place comes before it;
an item that comes after all others may arrive where nothing stands behind.
-/

namespace Custody

namespace Ledger

variable {ι α : Type*} [Preorder α] {ahead : ι → ι → Prop} {c c' : Ledger ι α} {p q : ι} {x : α}

structure Ordered (ahead : ι → ι → Prop) (c : Ledger ι α) : Prop where
  line : ∀ p, (c p).Pairwise (· < ·)
  ahead : ∀ p q, ahead p q → ∀ x ∈ c p, ∀ y ∈ c q, x < y

/-- Whatever is taken away leaves the rest in order. -/
theorem Ordered.mono (h : Ordered ahead c) (hsub : ∀ p, (c' p).Sublist (c p)) : Ordered ahead c' where
  line p := (h.line p).sublist (hsub p)
  ahead p q hpq x hx y hy := h.ahead p q hpq x ((hsub p).subset hx) y ((hsub q).subset hy)

variable [DecidableEq ι]

theorem Ordered.clear (h : Ordered ahead c) (p : ι) : Ordered ahead (c.clear p) := by
  refine h.mono fun r => ?_
  rw [clear_apply]
  split_ifs with hr
  · exact List.nil_sublist _
  · exact List.Sublist.refl _

/-- The end of a line takes what comes after the line. -/
theorem pairwise_concat {xs : List α} (h : xs.Pairwise (· < ·)) (hlast : ∀ y ∈ xs, y < x) :
    (xs ++ [x]).Pairwise (· < ·) := by
  rw [List.pairwise_append]
  refine ⟨h, List.pairwise_singleton _ _, fun y hy z hz => ?_⟩
  rw [List.mem_singleton.mp hz]
  exact hlast y hy

/-- What comes after everything may arrive where nothing stands behind. -/
theorem Ordered.arrive (h : Ordered ahead c) (hself : ¬ ahead q q) (hlast : ∀ p, ∀ y ∈ c p, y < x)
    (hbehind : ∀ r, ahead q r → c r = []) : Ordered ahead (c.arrive q x) where
  line p := by
    rw [arrive_apply]
    split_ifs with hp
    · exact pairwise_concat (h.line q) (hlast q)
    · exact h.line p
  ahead p r hpr y hy z hz := by
    rw [arrive_apply] at hy hz
    by_cases hp : p = q
    · subst hp
      have hr : r ≠ p := fun hr => hself (hr ▸ hpr)
      rw [if_neg hr, hbehind r hpr] at hz
      cases hz
    · rw [if_neg hp] at hy
      split_ifs at hz with hr
      · subst hr
        rcases List.mem_append.mp hz with hold | hnew
        · exact h.ahead p r hpr y hy z hold
        · rw [List.mem_singleton.mp hnew]
          exact hlast p y hy
      · exact h.ahead p r hpr y hy z hz

/-- The head of a line may go on to the place ahead if it comes before what stands behind that place. -/
theorem Ordered.pass {rest : List α} (h : Ordered ahead c) (hline : c p = x :: rest) (hqp : ahead q p)
    (hpq : ¬ ahead p q) (hself : ¬ ahead q q) (hbefore : ∀ r, ahead r q → ahead r p)
    (hbehind : ∀ r, r ≠ p → ahead q r → ∀ y ∈ c r, x < y) : Ordered ahead (c.pass p q) where
  line r := by
    rw [pass_apply hline]
    split_ifs with hrq hrp
    · exact pairwise_concat (h.line q) fun y hy => h.ahead q p hqp y hy x (hline ▸ List.mem_cons_self)
    · exact ((hline ▸ h.line p : (x :: rest).Pairwise (· < ·))).of_cons
    · exact h.line r
  ahead r t hrt y hy z hz := by
    have hrest : ∀ y ∈ rest, y ∈ c p := fun y hy => hline ▸ List.mem_cons_of_mem x hy
    have hx : x ∈ c p := hline ▸ List.mem_cons_self
    rw [pass_apply hline] at hy hz
    by_cases hrq : r = q
    · subst hrq
      rw [if_pos rfl] at hy
      have htq : t ≠ r := fun ht => hself (ht ▸ hrt)
      rw [if_neg htq] at hz
      rcases List.mem_append.mp hy with hold | hnew
      · split_ifs at hz with htp
        · exact h.ahead r p hqp y hold z (hrest z hz)
        · exact h.ahead r t hrt y hold z hz
      · rw [List.mem_singleton.mp hnew]
        split_ifs at hz with htp
        · exact List.rel_of_pairwise_cons (hline ▸ h.line p) hz
        · exact hbehind t htp hrt z hz
    · rw [if_neg hrq] at hy
      have hy' : y ∈ c r := by
        split_ifs at hy with hrp
        · exact hrp ▸ hrest y hy
        · exact hy
      split_ifs at hz with htq htp
      · subst htq
        rcases List.mem_append.mp hz with hold | hnew
        · exact h.ahead r t hrt y hy' z hold
        · rw [List.mem_singleton.mp hnew]
          have hrp : r ≠ p := fun hr => hpq (hr ▸ hrt)
          exact h.ahead r p (hbefore r hrt) y hy' x hx
      · exact h.ahead r t hrt y hy' z (htp ▸ hrest z hz)
      · exact h.ahead r t hrt y hy' z hz

/-- A whole line may take the empty place ahead of it. -/
theorem Ordered.passAll (h : Ordered ahead c) (hempty : c q = []) (hbefore : ∀ r, ahead r q → ahead r p)
    (hbehind : ∀ r, ahead q r → r = p) (hpq : p ≠ q) : Ordered ahead (c.passAll p q) where
  line r := by
    rw [passAll_apply, hempty, List.nil_append]
    split_ifs with hrq hrp
    · exact h.line p
    · exact List.Pairwise.nil
    · exact h.line r
  ahead r t hrt y hy z hz := by
    rw [passAll_apply, hempty, List.nil_append] at hy hz
    by_cases hrq : r = q
    · subst hrq
      obtain rfl := hbehind t hrt
      rw [if_neg hpq, if_pos rfl] at hz
      cases hz
    · rw [if_neg hrq] at hy
      split_ifs at hy with hrp
      · cases hy
      · split_ifs at hz with htq htp
        · exact h.ahead r p (hbefore r (htq ▸ hrt)) y hy z hz
        · cases hz
        · exact h.ahead r t hrt y hy z hz

end Ledger

end Custody
