import Overacp.Lib.RecentLog
import Overacp.Lib.Redis

/-!
# Ranks in a sorted set

Which member of a sorted set ranks first, and what a trim to the highest ranks takes out.
-/

namespace Redis

namespace ZSet

/-- What a trim to the `capacity` highest ranks takes out. -/
theorem rankRange_trim {α : Type} (ranked : List α) (capacity : Nat) :
    rankRange ranked 0 (-(capacity + 1)) = ranked.take (ranked.length - capacity) := by
  have hstop : (min ((ranked.length : ℤ) + -(capacity + 1)) (ranked.length - 1) + 1).toNat =
      ranked.length - capacity := by omega
  have hneg : (-(capacity + 1) : ℤ) < 0 := by omega
  simp only [rankRange, lt_irrefl, if_false, if_pos hneg, max_self, Int.toNat_zero, List.drop_zero, Int.sub_zero, hstop]

variable {α : Type} [LE α]

/-- The order of the ranks: by score, and for equal scores by member. -/
def Precedes (x y : (_ : α) × ℤ) : Prop := x.2 < y.2 ∨ (x.2 = y.2 ∧ x.1 ≤ y.1)

variable [DecidableLE α]

theorem length_ranked (z : ZSet α) : z.ranked.length = z.entries.length := by
  rw [ranked, List.length_map, List.length_insertionSort]

variable [DecidableEq α] {z : ZSet α} {capacity : Nat}

/-- No other member precedes this one. -/
def RanksFirst (z : ZSet α) (x : α) : Prop :=
  ∀ s y t, z.lookup x = some s → z.lookup y = some t → Precedes ⟨x, s⟩ ⟨y, t⟩

theorem zremrangebyrank_of_le (h : z.entries.length ≤ capacity) : z.zremrangebyrank 0 (-(capacity + 1)) = z := by
  rw [zremrangebyrank, rankRange_trim, length_ranked, Nat.sub_eq_zero_of_le h, List.take_zero, List.foldl_nil]

omit [LE α] [DecidableLE α] in
theorem lookup_of_lookup_erase {x y : α} {score : ℤ} (h : (z.erase y).lookup x = some score) :
    z.lookup x = some score := by
  by_cases heq : x = y
  · rw [heq, AList.lookup_erase] at h
    cases h
  · rwa [AList.lookup_erase_ne heq] at h

/-- Whoever is left after a trim keeps its score. -/
theorem lookup_of_lookup_zremrangebyrank {x : α} {score start stop : ℤ}
    (h : (z.zremrangebyrank start stop).lookup x = some score) : z.lookup x = some score := by
  have herased (out : List α) : ∀ z : ZSet α,
      (out.foldl (fun z member => z.erase member) z).lookup x = some score → z.lookup x = some score := by
    induction out with
    | nil => exact fun _ hlookup => hlookup
    | cons y ys ih => exact fun z hlookup => lookup_of_lookup_erase (ih (z.erase y) hlookup)
  exact herased _ z h

theorem mem_of_mem_zremrangebyrank {x : α} {start stop : ℤ} (h : x ∈ z.zremrangebyrank start stop) : x ∈ z := by
  obtain ⟨score, hscore⟩ := Option.isSome_iff_exists.mp (AList.lookup_isSome.mpr h)
  exact AList.lookup_isSome.mp (Option.isSome_iff_exists.mpr ⟨score, lookup_of_lookup_zremrangebyrank hscore⟩)

/-- One member too many: the first in rank goes. -/
theorem zremrangebyrank_of_succ (h : z.entries.length = capacity + 1) :
    ∃ x, z.ranked.head? = some x ∧ z.zremrangebyrank 0 (-(capacity + 1)) = z.erase x := by
  have hlength := (length_ranked z).trans h
  obtain ⟨x, rest, hranked⟩ : ∃ x rest, z.ranked = x :: rest := by
    refine List.exists_cons_of_ne_nil fun hnil => ?_
    rw [hnil] at hlength
    cases hlength
  refine ⟨x, by rw [hranked]; rfl, ?_⟩
  rw [zremrangebyrank, rankRange_trim, hlength, Nat.add_sub_cancel_left, hranked]
  rfl

section Order

variable (htotal : ∀ x y : α, x ≤ y ∨ y ≤ x) (htrans : ∀ x y w : α, x ≤ y → y ≤ w → x ≤ w)
  (hantisymm : ∀ x y : α, x ≤ y → y ≤ x → x = y)

omit [DecidableEq α] in
include htotal htrans in
theorem pairwise_sorted (z : ZSet α) :
    (z.entries.insertionSort fun x y => x.2 < y.2 ∨ (x.2 = y.2 ∧ x.1 ≤ y.1)).Pairwise Precedes := by
  have _ : Std.Total fun x y : (_ : α) × ℤ => x.2 < y.2 ∨ (x.2 = y.2 ∧ x.1 ≤ y.1) := by
    refine ⟨fun x y => ?_⟩
    rcases lt_trichotomy x.2 y.2 with hlt | heq | hgt
    · exact .inl (.inl hlt)
    · exact (htotal x.1 y.1).imp (fun h => .inr ⟨heq, h⟩) fun h => .inr ⟨heq.symm, h⟩
    · exact .inr (.inl hgt)
  have _ : IsTrans _ fun x y : (_ : α) × ℤ => x.2 < y.2 ∨ (x.2 = y.2 ∧ x.1 ≤ y.1) := by
    refine ⟨fun x y w hxy hyw => ?_⟩
    rcases hxy with hlt | ⟨heq, hle⟩
    · rcases hyw with hlt' | ⟨heq', hle'⟩
      · exact .inl (hlt.trans hlt')
      · exact .inl (heq' ▸ hlt)
    · rcases hyw with hlt' | ⟨heq', hle'⟩
      · exact .inl (heq ▸ hlt')
      · exact .inr ⟨heq.trans heq', htrans _ _ _ hle hle'⟩
  exact List.pairwise_insertionSort (fun x y : (_ : α) × ℤ => x.2 < y.2 ∨ (x.2 = y.2 ∧ x.1 ≤ y.1)) _

include htotal htrans hantisymm in
/-- The first in rank is the member that no other precedes. -/
theorem head_ranked_iff {x : α} (hmem : x ∈ z) : z.ranked.head? = some x ↔ RanksFirst z x := by
  have hsorted := pairwise_sorted htotal htrans z
  obtain ⟨s, hs⟩ := Option.isSome_iff_exists.mp (AList.lookup_isSome.mpr hmem)
  have hsx : (⟨x, s⟩ : (_ : α) × ℤ) ∈ z.entries := AList.mem_lookup_iff.mp hs
  rw [← List.mem_insertionSort fun x y => x.2 < y.2 ∨ (x.2 = y.2 ∧ x.1 ≤ y.1)] at hsx
  have hlookup (e : (_ : α) × ℤ) :
      e ∈ z.entries.insertionSort (fun x y => x.2 < y.2 ∨ (x.2 = y.2 ∧ x.1 ≤ y.1)) ↔ z.lookup e.1 = some e.2 := by
    rw [List.mem_insertionSort, ← AList.mem_lookup_iff, Option.mem_def]
  rw [ranked]
  cases hlist : z.entries.insertionSort fun x y => x.2 < y.2 ∨ (x.2 = y.2 ∧ x.1 ≤ y.1) with
  | nil =>
      rw [hlist] at hsx
      cases hsx
  | cons head rest =>
      rw [hlist] at hsorted hsx
      simp only [hlist, List.mem_cons] at hlookup
      obtain ⟨hfirst, -⟩ := List.pairwise_cons.mp hsorted
      rw [List.map_cons, List.head?_cons, Option.some_inj]
      constructor
      · rintro rfl s y t hs ht
        have hhead : z.lookup head.1 = some head.2 := (hlookup head).mp (.inl rfl)
        obtain rfl := Option.some.inj (hhead.symm.trans hs)
        rcases (hlookup ⟨y, t⟩).mpr ht with heq | hrest
        · subst heq
          exact .inr ⟨rfl, (htotal y y).elim id id⟩
        · exact hfirst _ hrest
      · intro hranks
        rcases List.mem_cons.mp hsx with heq | hrest
        · rw [← heq]
        · have hback := hranks s head.1 head.2 hs ((hlookup head).mp (.inl rfl))
          rcases hfirst _ hrest with hlt | ⟨heq, hle⟩
          · rcases hback with hlt' | ⟨heq', -⟩
            · exact absurd hlt' (not_lt_of_gt hlt)
            · exact absurd heq'.symm (ne_of_lt hlt)
          · rcases hback with hlt' | ⟨-, hle'⟩
            · exact absurd heq.symm (ne_of_lt hlt')
            · exact hantisymm _ _ hle hle'

include htotal htrans hantisymm in
/-- A sorted set that is trimmed and a log of recent keys, with the same members before a new one is added, have
the same members after it just if the oldest of a full log ranks first. -/
theorem trim_push_iff {log : List α} {new : α} (hcapacity : 0 < capacity) (hsame : ∀ x, x ∈ z ↔ x ∈ log)
    (hnodup : log.Nodup) (hbounded : log.length ≤ capacity) (hnew : new ∉ log) (score : ℤ) :
    (∀ x, x ∈ (z.zadd score new).zremrangebyrank 0 (-(capacity + 1)) ↔ x ∈ RecentLog.push capacity log new) ↔
      (log.length = capacity → ∀ oldest ∈ log.head?, (z.zadd score new).RanksFirst oldest) := by
  have hpurge : RecentLog.purge log new = log := by
    refine List.filter_eq_self.mpr fun x hx => decide_eq_true ?_
    rintro rfl
    exact hnew hx
  have hperm : z.keys.Perm log := (List.perm_ext_iff_of_nodup z.nodupKeys hnodup).mpr hsame
  have hlength : (z.zadd score new).entries.length = log.length + 1 := by
    rw [zadd, AList.entries_insert_of_notMem (mt (hsame new).mp hnew), List.length_cons, ← hperm.length_eq]
    exact congrArg (· + 1) (List.length_map _).symm
  have hadd (x : α) : x ∈ z.zadd score new ↔ x = new ∨ x ∈ log := by
    rw [zadd, AList.mem_insert, hsame]
  rw [RecentLog.push, hpurge]
  by_cases hfull : log.length = capacity
  · obtain ⟨first, rest, rfl⟩ := List.exists_cons_of_ne_nil fun hnil : log = [] => by
      rw [hnil] at hfull
      exact absurd hfull (Nat.ne_of_lt hcapacity)
    obtain ⟨out, hout, htrim⟩ := zremrangebyrank_of_succ (hlength.trans (congrArg (· + 1) hfull))
    obtain ⟨hfirst, -⟩ := List.nodup_cons.mp hnodup
    have hne : first ≠ new := by
      rintro rfl
      exact hnew List.mem_cons_self
    have hranks : (z.zadd score new).RanksFirst first ↔ out = first := by
      rw [← head_ranked_iff htotal htrans hantisymm ((hadd first).mpr (.inr List.mem_cons_self)), hout,
        Option.some_inj]
    rw [if_pos hfull, List.drop_one, List.tail_cons, htrim]
    simp only [hfull, List.head?_cons, Option.mem_some_iff, forall_eq', forall_const, hranks]
    constructor
    · intro hmem
      by_contra hstays
      have hin : first ∈ (z.zadd score new).erase out :=
        AList.mem_erase.mpr ⟨Ne.symm hstays, (hadd first).mpr (.inr List.mem_cons_self)⟩
      rcases List.mem_append.mp ((hmem first).mp hin) with hrest | hself
      · exact hfirst hrest
      · exact hne (List.mem_singleton.mp hself)
    · rintro rfl x
      rw [AList.mem_erase, hadd, List.mem_cons, List.mem_append, List.mem_singleton]
      constructor
      · rintro ⟨hout, hnew | hself | hrest⟩
        · exact .inr hnew
        · exact absurd hself hout
        · exact .inl hrest
      · rintro (hrest | rfl)
        · exact ⟨fun heq => hfirst (heq ▸ hrest), .inr (.inr hrest)⟩
        · exact ⟨hne.symm, .inl rfl⟩
  · have hroom : log.length + 1 ≤ capacity := Nat.lt_of_le_of_ne hbounded hfull
    rw [if_neg hfull, zremrangebyrank_of_le (hlength.trans_le hroom)]
    refine iff_of_true (fun x => ?_) fun heq => absurd heq hfull
    rw [hadd, List.mem_append, List.mem_singleton]
    exact or_comm

end Order

end ZSet

end Redis
