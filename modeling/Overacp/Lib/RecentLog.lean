import Mathlib.Data.Finset.Card
import Mathlib.Data.List.Dedup

/-!
# Logs of the most recent keys

A log remembers the keys that were noted most recently, oldest first, up to a capacity and each once;
a key can also be taken out. Beside it stands the history of all that was noted, newest first. What is
proved here is that a key falls out of the log only when as many others as the log can hold were noted
after it.
-/

namespace RecentLog

variable {κ : Type*} [DecidableEq κ]

def purge (log : List κ) (k : κ) : List κ := log.filter fun k' => k' ≠ k

/-- Note a key: it goes to the end, and the oldest one makes room. -/
def push (capacity : Nat) (log : List κ) (k : κ) : List κ :=
  (if (purge log k).length = capacity then (purge log k).drop 1 else purge log k) ++ [k]

/-- What was noted after a key was noted last. -/
def since (history : List κ) (k : κ) : List κ := history.takeWhile fun k' => k' ≠ k

theorem mem_purge {log : List κ} {k k' : κ} : k' ∈ purge log k ↔ k' ∈ log ∧ k' ≠ k := by
  simp [purge]

theorem since_cons_ne (history : List κ) {k k' : κ} (hne : k ≠ k') :
    since (k :: history) k' = k :: since history k' := by
  simp [since, hne]

/-- How many different keys were noted after a key was noted last. -/
def others (history : List κ) (k : κ) : Nat := (since history k).toFinset.card

theorem others_le_cons (history : List κ) {k k' : κ} (hne : k ≠ k') :
    others history k' ≤ others (k :: history) k' := by
  rw [others, others, since_cons_ne history hne, List.toFinset_cons]
  exact Finset.card_le_card (Finset.subset_insert _ _)

/-- The log is within its capacity, and everything behind a key in it was noted after that key. -/
structure Follows (capacity : Nat) (history log : List κ) : Prop where
  bounded : log.length ≤ capacity
  nodup : log.Nodup
  noted : ∀ k ∈ log, k ∈ history
  order : log.Pairwise fun k k' => k' ∈ since history k

namespace Follows

variable {capacity : Nat} {history log : List κ}

theorem nil : Follows capacity history ([] : List κ) where
  bounded := Nat.zero_le _
  nodup := List.nodup_nil
  noted := by simp
  order := List.Pairwise.nil

theorem sublist {log' : List κ} (h : Follows capacity history log) (hsub : log'.Sublist log) :
    Follows capacity history log' where
  bounded := hsub.length_le.trans h.bounded
  nodup := h.nodup.sublist hsub
  noted := fun k hk => h.noted k (hsub.subset hk)
  order := h.order.sublist hsub

theorem purge (h : Follows capacity history log) (k : κ) : Follows capacity history (purge log k) :=
  h.sublist List.filter_sublist

/-- The keys that stay when another one is noted. -/
theorem kept_sublist (log : List κ) (k : κ) :
    (if (RecentLog.purge log k).length = capacity then (RecentLog.purge log k).drop 1
      else RecentLog.purge log k).Sublist (RecentLog.purge log k) := by
  split
  · exact List.drop_sublist _ _
  · exact List.Sublist.refl _

theorem push (h : Follows capacity history log) (hcapacity : 0 < capacity) (k : κ) :
    Follows capacity (k :: history) (push capacity log k) := by
  have hkept := (h.purge k).sublist (@kept_sublist _ _ capacity log k)
  have hne : ∀ k' ∈ (if (RecentLog.purge log k).length = capacity then (RecentLog.purge log k).drop 1
      else RecentLog.purge log k), k ≠ k' := by
    intro k' hk' heq
    exact (mem_purge.mp ((kept_sublist log k).subset hk')).2 heq.symm
  rw [RecentLog.push]
  refine ⟨?_, ?_, ?_, ?_⟩
  · have hbounded := (h.purge k).bounded
    rw [List.length_append, List.length_singleton]
    split
    · rw [List.length_drop]
      omega
    · omega
  · refine hkept.nodup.append (List.nodup_singleton k) ?_
    intro k' hk' hself
    exact hne k' hk' (List.mem_singleton.mp hself).symm
  · intro k' hk'
    rcases List.mem_append.mp hk' with hold | hnew
    · exact List.mem_cons_of_mem _ (hkept.noted k' hold)
    · rw [List.mem_singleton.mp hnew]
      exact List.mem_cons_self
  · refine List.pairwise_append.mpr ⟨?_, List.pairwise_singleton _ _, ?_⟩
    · refine hkept.order.imp_of_mem ?_
      intro k₁ k₂ hk₁ _ hafter
      rw [since_cons_ne history (hne k₁ hk₁)]
      exact List.mem_cons_of_mem _ hafter
    · intro k' hk' last hlast
      rw [List.mem_singleton.mp hlast, since_cons_ne history (hne k' hk')]
      exact List.mem_cons_self

/-- A key falls out only when the log is full of others that were noted after it. -/
theorem evicted (h : Follows capacity history log) {k k' : κ} (hk' : k' ∈ log)
    (hne : k ≠ k') (hout : k' ∉ RecentLog.push capacity log k) : capacity ≤ others (k :: history) k' := by
  have hpurge : k' ∈ RecentLog.purge log k := mem_purge.mpr ⟨hk', hne.symm⟩
  rw [RecentLog.push, List.mem_append, not_or] at hout
  have hfull : (RecentLog.purge log k).length = capacity := by
    by_contra hroom
    rw [if_neg hroom] at hout
    exact hout.1 hpurge
  rw [if_pos hfull] at hout
  obtain ⟨first, rest, hlog⟩ : ∃ first rest, RecentLog.purge log k = first :: rest :=
    List.exists_cons_of_ne_nil (List.ne_nil_of_mem hpurge)
  rw [hlog, List.drop_one, List.tail_cons] at hout
  rw [hlog] at hpurge hfull
  obtain rfl : k' = first := by
    rcases List.mem_cons.mp hpurge with heq | hrest
    · exact heq
    · exact absurd hrest hout.1
  have hpurged := h.purge k
  rw [hlog] at hpurged
  have hafter := (List.pairwise_cons.mp hpurged.order).1
  have hrest : rest.Nodup := (List.nodup_cons.mp hpurged.nodup).2
  have hfresh : k ∉ rest := by
    intro hmem
    have hself : k ∈ RecentLog.purge log k := by
      rw [hlog]
      exact List.mem_cons_of_mem _ hmem
    exact (mem_purge.mp hself).2 rfl
  rw [others, since_cons_ne history hne]
  have hsubset : (k :: rest).toFinset ⊆ (k :: since history k').toFinset := by
    intro x hx
    simp only [List.mem_toFinset, List.mem_cons] at hx ⊢
    exact hx.imp_right (hafter x)
  have hcard : (k :: rest).toFinset.card = capacity := by
    rw [List.toFinset_card_of_nodup (List.nodup_cons.mpr ⟨hfresh, hrest⟩), List.length_cons]
    simpa using hfull
  rw [← hcard]
  exact Finset.card_le_card hsubset

end Follows

end RecentLog
