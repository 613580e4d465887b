import Overacp.Lib.Prog

/-!
# Programs with checks added

A program beside the same program with checks in it that panic. Where a condition on the state holds the checks
pass, and the two are the same and do not panic; where it does not, the program with the checks panics. The
condition of a composition is that of its parts, each at the state the unchecked program brings it to.
-/

namespace Prog

variable {σ ε α β : Type}

/-! ### Programs without a panic -/

/-- From no state does the program panic. -/
def Unpanicking (m : Prog σ ε α) : Prop := ∀ s t, m s ≠ .panic t

theorem unpanicking_pure (a : α) : Unpanicking (Pure.pure a : Prog σ ε α) := fun _ _ => nofun

theorem unpanicking_stop : Unpanicking (Prog.stop : Prog σ ε α) := fun _ _ => nofun

theorem unpanicking_fail (e : ε) : Unpanicking (Prog.fail e : Prog σ ε α) := fun _ _ => nofun

theorem unpanicking_get : Unpanicking (Prog.get : Prog σ ε σ) := fun _ _ => nofun

theorem unpanicking_modify (f : σ → σ) : Unpanicking (Prog.modify f : Prog σ ε Unit) := fun _ _ => nofun

theorem Unpanicking.bind {m : Prog σ ε α} {f : α → Prog σ ε β} (hm : Unpanicking m)
    (hf : ∀ a, Unpanicking (f a)) : Unpanicking (m >>= f) := by
  intro s t
  rw [run_bind]
  cases houtcome : m s with
  | next a s' => exact hf a s' t
  | stop s' | fail _ s' => exact nofun
  | panic s' => exact absurd houtcome (hm s s')

theorem Unpanicking.forEach (xs : List β) {body : β → Prog σ ε Unit} (hbody : ∀ x, Unpanicking (body x)) :
    Unpanicking (Prog.forEach xs body) := by
  induction xs with
  | nil => exact unpanicking_pure ()
  | cons x xs ih => exact (hbody x).bind fun _ => ih

end Prog

/-! ### Programs with checks -/

/-- The outcome with the checks, the outcome without, and whether the checks pass. -/
structure Outcome.Guarded {σ ε α : Type} (o' o : Outcome σ ε α) (C : Prop) : Prop where
  agrees : C → o' = o
  goes : C → ∀ t, o ≠ .panic t
  panics : ¬ C → ∃ t, o' = .panic t

namespace Outcome.Guarded

variable {σ ε α β : Type} {o' o : Outcome σ ε α} {C : Prop}

/-- The outcome with the checks is a panic just where they do not pass. -/
theorem panics_iff (h : o'.Guarded o C) : (∃ t, o' = .panic t) ↔ ¬ C := by
  constructor
  · rintro ⟨t, hpanic⟩ hC
    exact h.goes hC t (h.agrees hC ▸ hpanic)
  · exact h.panics

theorem congr {D : Prop} (h : o'.Guarded o C) (hiff : C ↔ D) : o'.Guarded o D where
  agrees hD := h.agrees (hiff.mpr hD)
  goes hD := h.goes (hiff.mpr hD)
  panics hD := h.panics fun hC => hD (hiff.mp hC)

theorem andThen {f' f : α → σ → Outcome σ ε β} {D : α → σ → Prop} (h : o'.Guarded o C)
    (hf : ∀ a t, (f' a t).Guarded (f a t) (D a t)) :
    (o'.andThen f').Guarded (o.andThen f) (C ∧ ∀ a t, o = .next a t → D a t) where
  agrees hC := by
    rw [h.agrees hC.1]
    cases houtcome : o with
    | next a t => exact (hf a t).agrees (hC.2 a t houtcome)
    | stop t | fail _ t | panic t => rfl
  goes hC u := by
    cases houtcome : o with
    | next a t => exact (hf a t).goes (hC.2 a t houtcome) u
    | stop t | fail _ t => exact nofun
    | panic t => exact absurd houtcome (h.goes hC.1 t)
  panics hnot := by
    by_cases hC : C
    · have hlater : ¬ ∀ a t, o = .next a t → D a t := fun hlater => hnot ⟨hC, hlater⟩
      rw [h.agrees hC]
      cases houtcome : o with
      | next a t =>
          rw [houtcome] at hlater
          refine (hf a t).panics fun hD => hlater fun b u heq => ?_
          cases heq
          exact hD
      | stop t | fail _ t | panic t =>
          rw [houtcome] at hlater
          exact absurd nofun hlater
    · obtain ⟨t, hpanic⟩ := h.panics hC
      rw [hpanic]
      exact ⟨t, rfl⟩

end Outcome.Guarded

namespace Prog

/-- The program with the checks, the program without, and the states in which the checks pass. -/
def Guarded {σ ε α : Type} (m' m : Prog σ ε α) (C : σ → Prop) : Prop := ∀ s, (m' s).Guarded (m s) (C s)

namespace Guarded

variable {σ ε α β : Type} {m' m : Prog σ ε α} {C : σ → Prop}

theorem of_unpanicking (h : Unpanicking m) : Guarded m m fun _ => True := fun s =>
  ⟨fun _ => rfl, fun _ => h s, fun hnot => absurd trivial hnot⟩

theorem bind {f' f : α → Prog σ ε β} {D : α → σ → Prop} (hm : Guarded m' m C)
    (hf : ∀ a, Guarded (f' a) (f a) (D a)) :
    Guarded (m' >>= f') (m >>= f) fun s => C s ∧ ∀ a t, m s = .next a t → D a t := fun s =>
  (hm s).andThen hf

/-- An unchecked part before one with checks. -/
theorem after {f' f : α → Prog σ ε β} {D : α → σ → Prop} (hm : Unpanicking m)
    (hf : ∀ a, Guarded (f' a) (f a) (D a)) :
    Guarded (m >>= f') (m >>= f) fun s => ∀ a t, m s = .next a t → D a t := fun s =>
  ((of_unpanicking hm).bind hf s).congr (and_iff_right trivial)

/-- A part with checks before an unchecked one. -/
theorem before {f : α → Prog σ ε β} (hm : Guarded m' m C) (hf : ∀ a, Unpanicking (f a)) :
    Guarded (m' >>= f) (m >>= f) C := fun s =>
  (hm.bind (fun a => of_unpanicking (hf a)) s).congr (and_iff_left fun _ _ _ => trivial)

end Guarded

end Prog
