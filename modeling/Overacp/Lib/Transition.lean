import Mathlib.Data.List.Basic

/-!
# Runs of a deterministic labelled system

A system starts in one state and takes events. An event is either enabled, and then leads to one
state, or it is not. Everything here is about finite runs: what one step preserves, what a run
preserves, and how a condition on every step of a run is turned into a property of every step.
-/

namespace Transition

/-- A start state and a partial step: `none` where the event is not enabled. -/
structure System (σ ε : Type*) where
  init : σ
  step : σ → ε → Option σ

namespace System

variable {σ ε : Type*} (M : System σ ε)

/-- The state a sequence of events leads to, if every one of them is enabled in turn. -/
def run : σ → List ε → Option σ
  | s, [] => some s
  | s, e :: es => (M.step s e).bind fun t => run t es

/-- `P before event after` at every step the events take from a state. -/
def EveryStep (P : σ → ε → σ → Prop) : σ → List ε → Prop
  | _, [] => True
  | s, e :: es => ∀ t, M.step s e = some t → P s e t ∧ EveryStep P t es

@[simp] theorem run_nil (s : σ) : M.run s [] = some s := rfl

theorem run_cons (s : σ) (e : ε) (es : List ε) :
    M.run s (e :: es) = (M.step s e).bind fun t => M.run t es := rfl

theorem run_cons_eq_some {s u : σ} {e : ε} {es : List ε} :
    M.run s (e :: es) = some u ↔ ∃ t, M.step s e = some t ∧ M.run t es = some u := by
  rw [run_cons, Option.bind_eq_some_iff]

theorem run_append (s : σ) (es es' : List ε) :
    M.run s (es ++ es') = (M.run s es).bind fun t => M.run t es' := by
  induction es generalizing s with
  | nil => rfl
  | cons e es ih =>
      rw [List.cons_append, run_cons, run_cons, Option.bind_assoc]
      exact Option.bind_congr fun t _ => ih t

/-- What every step preserves, a run preserves. -/
theorem run_invariant {I : σ → Prop} (hstep : ∀ s e t, M.step s e = some t → I s → I t)
    {s t : σ} {es : List ε} (hrun : M.run s es = some t) (hs : I s) : I t := by
  induction es generalizing s with
  | nil =>
      cases hrun
      exact hs
  | cons e es ih =>
      obtain ⟨u, hu, hrest⟩ := M.run_cons_eq_some.mp hrun
      exact ih hrest (hstep s e u hu hs)

/-- A state the system reaches from its start. -/
def Reachable (s : σ) : Prop := ∃ es, M.run M.init es = some s

variable {M} in
theorem Reachable.invariant {I : σ → Prop} (hinit : I M.init)
    (hstep : ∀ s e t, M.step s e = some t → I s → I t) {s : σ} (hs : M.Reachable s) : I s := by
  obtain ⟨es, hrun⟩ := hs
  exact M.run_invariant hstep hrun hinit

/-! ### Conditions on the steps of a run -/

/-- A decidable condition on steps can be checked along a run. -/
def decideEveryStep (P : σ → ε → σ → Prop) [∀ s e t, Decidable (P s e t)] :
    ∀ (s : σ) (es : List ε), Decidable (M.EveryStep P s es)
  | _, [] => .isTrue trivial
  | s, e :: es =>
      match hstep : M.step s e with
      | none => .isTrue fun t ht => absurd (hstep.symm.trans ht) nofun
      | some t =>
          have _ := decideEveryStep P t es
          decidable_of_iff (P s e t ∧ M.EveryStep P t es) <| by
            simp only [EveryStep, hstep, Option.some.injEq, forall_eq']

instance (P : σ → ε → σ → Prop) [∀ s e t, Decidable (P s e t)] (s : σ) (es : List ε) :
    Decidable (M.EveryStep P s es) := M.decideEveryStep P s es

theorem everyStep_cons {P : σ → ε → σ → Prop} {s t : σ} {e : ε} {es : List ε}
    (h : M.EveryStep P s (e :: es)) (hstep : M.step s e = some t) :
    P s e t ∧ M.EveryStep P t es := h t hstep

variable {M} in
theorem everyStep_of_step {P : σ → ε → σ → Prop} {s t : σ} {e : ε} {es : List ε} (hstep : M.step s e = some t)
    (hP : P s e t) (hrest : M.EveryStep P t es) : M.EveryStep P s (e :: es) := by
  intro u hu
  obtain rfl : t = u := Option.some.inj (hstep.symm.trans hu)
  exact ⟨hP, hrest⟩

variable {M} in
theorem everyStep_cons_iff {P : σ → ε → σ → Prop} {s t : σ} {e : ε} {es : List ε} (hstep : M.step s e = some t) :
    M.EveryStep P s (e :: es) ↔ P s e t ∧ M.EveryStep P t es :=
  ⟨fun h => M.everyStep_cons h hstep, fun h => everyStep_of_step hstep h.1 h.2⟩

theorem everyStep_and {P Q : σ → ε → σ → Prop} {s : σ} {es : List ε} (hP : M.EveryStep P s es)
    (hQ : M.EveryStep Q s es) : M.EveryStep (fun s e t => P s e t ∧ Q s e t) s es := by
  induction es generalizing s with
  | nil => trivial
  | cons e es ih =>
      intro t ht
      obtain ⟨hPstep, hPrest⟩ := M.everyStep_cons hP ht
      obtain ⟨hQstep, hQrest⟩ := M.everyStep_cons hQ ht
      exact ⟨⟨hPstep, hQstep⟩, ih hPrest hQrest⟩

/-- A run keeps what its steps preserve under the condition that all of them meet. -/
theorem run_invariant_of_everyStep {I : σ → Prop} {C : σ → ε → σ → Prop}
    (hstep : ∀ s e t, M.step s e = some t → C s e t → I s → I t)
    {s t : σ} {es : List ε} (hrun : M.run s es = some t) (hC : M.EveryStep C s es) (hs : I s) :
    I t := by
  induction es generalizing s with
  | nil =>
      cases hrun
      exact hs
  | cons e es ih =>
      obtain ⟨u, hu, hrest⟩ := M.run_cons_eq_some.mp hrun
      obtain ⟨hCstep, hCrest⟩ := M.everyStep_cons hC hu
      exact ih hrest hCrest (hstep s e u hu hCstep hs)

/-- Under an invariant that both sides of a step keep, a condition on the steps of a run may be
replaced by another that agrees with it wherever the invariant holds, in a run of a certain kind. -/
theorem everyStep_congr_of {I : σ → Prop} {C P Q : σ → ε → σ → Prop}
    (hiff : ∀ s e t, M.step s e = some t → I s → C s e t → (P s e t ↔ Q s e t))
    (hkeep : ∀ s e t, M.step s e = some t → I s → C s e t → Q s e t → I t)
    {s : σ} (hs : I s) {es : List ε} (hC : M.EveryStep C s es) :
    M.EveryStep P s es ↔ M.EveryStep Q s es := by
  induction es generalizing s with
  | nil => exact Iff.rfl
  | cons e es ih =>
      refine forall₂_congr fun t ht => ?_
      obtain ⟨hCstep, hCrest⟩ := M.everyStep_cons hC ht
      rw [hiff s e t ht hs hCstep]
      exact and_congr_right fun hQ => ih (hkeep s e t ht hs hCstep hQ) hCrest

theorem everyStep_true (s : σ) (es : List ε) : M.EveryStep (fun _ _ _ => True) s es := by
  induction es generalizing s with
  | nil => trivial
  | cons e es ih => exact fun t _ => ⟨trivial, ih t⟩

theorem everyStep_congr {I : σ → Prop} {P Q : σ → ε → σ → Prop}
    (hiff : ∀ s e t, M.step s e = some t → I s → (P s e t ↔ Q s e t))
    (hkeep : ∀ s e t, M.step s e = some t → I s → Q s e t → I t)
    {s : σ} (hs : I s) (es : List ε) : M.EveryStep P s es ↔ M.EveryStep Q s es :=
  M.everyStep_congr_of (fun s e t hstep hI _ => hiff s e t hstep hI)
    (fun s e t hstep hI _ => hkeep s e t hstep hI) hs (M.everyStep_true s es)

/-- What an invariant gives at one step that meets the condition, it gives at every step of a run
whose steps all do. -/
theorem everyStep_of_invariant {I : σ → Prop} {C P : σ → ε → σ → Prop}
    (hkeep : ∀ s e t, M.step s e = some t → C s e t → I s → I t)
    (hP : ∀ s e t, M.step s e = some t → C s e t → I s → P s e t)
    {s : σ} (hs : I s) {es : List ε} (hC : M.EveryStep C s es) : M.EveryStep P s es := by
  induction es generalizing s with
  | nil => trivial
  | cons e es ih =>
      intro t ht
      obtain ⟨hCstep, hCrest⟩ := M.everyStep_cons hC ht
      exact ⟨hP s e t ht hCstep hs, ih (hkeep s e t ht hCstep hs) hCrest⟩

variable {M} in
theorem EveryStep.of_append {P : σ → ε → σ → Prop} {s : σ} {es es' : List ε} (h : M.EveryStep P s (es ++ es')) :
    M.EveryStep P s es ∧ ∀ t, M.run s es = some t → M.EveryStep P t es' := by
  induction es generalizing s with
  | nil =>
      refine ⟨trivial, fun t ht => ?_⟩
      cases ht
      exact h
  | cons e es ih =>
      refine ⟨fun t ht => ⟨(h t ht).1, (ih (h t ht).2).1⟩, fun u hu => ?_⟩
      obtain ⟨t, ht, hrest⟩ := M.run_cons_eq_some.mp hu
      exact (ih (h t ht).2).2 u hrest

variable {M} in
/-- A condition on the steps of a run holds at the last one. -/
theorem EveryStep.last {P : σ → ε → σ → Prop} {s t u : σ} {e : ε} {es : List ε}
    (h : M.EveryStep P s (es ++ [e])) (hrun : M.run s es = some t)
    (hstep : M.step t e = some u) : P t e u := by
  induction es generalizing s with
  | nil =>
      cases hrun
      exact (h u hstep).1
  | cons e' es ih =>
      obtain ⟨v, hv, hrest⟩ := M.run_cons_eq_some.mp hrun
      exact ih (h v hv).2 hrest

/-- A step that breaks the condition leaves its mark on the end of the run. -/
theorem run_invariant_of_not_everyStep {I : σ → Prop} {C : σ → ε → σ → Prop}
    (hbreak : ∀ s e t, M.step s e = some t → ¬ C s e t → I t)
    (hstep : ∀ s e t, M.step s e = some t → I s → I t)
    {s t : σ} {es : List ε} (hrun : M.run s es = some t) (hC : ¬ M.EveryStep C s es) : I t := by
  induction es generalizing s with
  | nil => exact absurd trivial hC
  | cons e es ih =>
      obtain ⟨u, hu, hrest⟩ := M.run_cons_eq_some.mp hrun
      by_cases hclear : C s e u
      · apply ih hrest
        intro hevery
        apply hC
        intro v hv
        obtain rfl : u = v := Option.some.inj (hu.symm.trans hv)
        exact ⟨hclear, hevery⟩
      · exact M.run_invariant hstep hrest (hbreak s e u hu hclear)

/-! ### Two systems that agree where a condition holds -/

section

variable {M} {M' : System σ ε} {C : σ → ε → Prop}

/-- Where every step meets the condition the two run alike. -/
theorem run_congr (hagree : ∀ s e, C s e → M'.step s e = M.step s e) {s : σ} {es : List ε}
    (hC : M.EveryStep (fun s e _ => C s e) s es) (hstuck : ∀ s e, M.step s e = none → M'.step s e = none) :
    M'.run s es = M.run s es := by
  induction es generalizing s with
  | nil => rfl
  | cons e es ih =>
      rw [run_cons, run_cons]
      cases hstep : M.step s e with
      | none => rw [hstuck s e hstep]; rfl
      | some t =>
          obtain ⟨hhere, hrest⟩ := M.everyStep_cons hC hstep
          rw [hagree s e hhere, hstep]
          exact ih hrest

/-- So they meet the condition on the same runs. -/
theorem everyStep_iff_of_agree (hagree : ∀ s e, C s e → M'.step s e = M.step s e)
    (henabled : ∀ s e, (M'.step s e).isSome = (M.step s e).isSome) (s : σ) (es : List ε) :
    M'.EveryStep (fun s e _ => C s e) s es ↔ M.EveryStep (fun s e _ => C s e) s es := by
  induction es generalizing s with
  | nil => exact Iff.rfl
  | cons e es ih =>
      by_cases hC : C s e
      · unfold EveryStep
        rw [hagree s e hC]
        exact forall₂_congr fun t _ => and_congr_right fun _ => ih t
      · have hblocked {N : System σ ε} (hsome : (N.step s e).isSome = true) :
            ¬ N.EveryStep (fun s e _ => C s e) s (e :: es) := by
          intro hevery
          obtain ⟨t, ht⟩ := Option.isSome_iff_exists.mp hsome
          exact hC (hevery t ht).1
        cases hsome : (M.step s e).isSome with
        | true => exact iff_of_false (hblocked ((henabled s e).trans hsome)) (hblocked hsome)
        | false =>
            have hnone {N : System σ ε} (hnot : (N.step s e).isSome = false) :
                N.EveryStep (fun s e _ => C s e) s (e :: es) := by
              intro t ht
              rw [ht] at hnot
              cases hnot
            exact iff_of_true (hnone ((henabled s e).trans hsome)) (hnone hsome)

end

/-! ### A system seen through a projection -/

/-- A run of a system whose steps project to those of another projects to a run of it. -/
theorem run_map {σ' : Type*} (M' : System σ' ε) (f : σ' → σ)
    (hstep : ∀ s e, (M'.step s e).map f = M.step (f s) e) (s : σ') (es : List ε) :
    (M'.run s es).map f = M.run (f s) es := by
  induction es generalizing s with
  | nil => rfl
  | cons e es ih =>
      rw [run_cons, run_cons, ← hstep s e]
      cases M'.step s e with
      | none => rfl
      | some t => exact ih t

end System

end Transition
