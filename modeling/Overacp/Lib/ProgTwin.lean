import Overacp.Lib.Prog

/-!
# Two runs of a program

Two runs side by side, from related states. Each learns things from outside on its way, and they stay related as
long as what one has learnt by its end is possible beside what the other has. A pair of endings that is possible
was possible all along, so where two runs would part it is enough that their endings are impossible.
-/

namespace Outcome

variable {σ ε α : Type}

/-- The state, and whether it is that of a panic, which nothing comes after. -/
def ending : Outcome σ ε α → σ × Bool
  | next _ s | stop s | fail _ s => (s, false)
  | panic s => (s, true)

@[simp] theorem ending_fst (o : Outcome σ ε α) : o.ending.1 = o.state := by
  cases o <;> rfl

/-- Two ends of one kind, with one value or error, in related states. -/
inductive Alike (R : σ → σ → Prop) : Outcome σ ε α → Outcome σ ε α → Prop
  | next {s t : σ} (value : α) (hstate : R s t) : Alike R (.next value s) (.next value t)
  | stop {s t : σ} (hstate : R s t) : Alike R (.stop s) (.stop t)
  | fail {s t : σ} (error : ε) (hstate : R s t) : Alike R (.fail error s) (.fail error t)
  | panic {s t : σ} (hstate : R s t) : Alike R (.panic s) (.panic t)

theorem Alike.state {R : σ → σ → Prop} {o o' : Outcome σ ε α} (h : Alike R o o') : R o.state o'.state := by
  cases h <;> assumption

end Outcome

namespace Prog

/-- How two runs are held together. A state that has grown from another knows at least as much, so that what is
possible beside it is possible beside the other, and `false` says that a run may still go on from there. -/
structure Coupling (σ : Type) where
  related : σ → σ → Prop
  grows : σ → σ → Prop
  possible : σ × Bool → σ × Bool → Prop
  refl : ∀ s, related s s
  frame : Frame grows
  left : ∀ {s s' : σ} {b : Bool} {e : σ × Bool}, grows s s' → possible (s', b) e → possible (s, false) e
  right : ∀ {t t' : σ} {b : Bool} {e : σ × Bool}, grows t t' → possible e (t', b) → possible e (t, false)

variable {σ ε α β : Type} {C : Coupling σ}

/-- From related states to outcomes that are alike, if the endings are possible side by side. -/
structure Twin (C : Coupling σ) (m m' : Prog σ ε α) : Prop where
  growsLeft : Relates C.grows m
  growsRight : Relates C.grows m'
  alike : ∀ {s t : σ}, C.related s t → C.possible (m s).ending (m' t).ending →
    Outcome.Alike C.related (m s) (m' t)

namespace Twin

theorem pure (a : α) : Twin C (Pure.pure a : Prog σ ε α) (Pure.pure a) where
  growsLeft := C.frame.pure a
  growsRight := C.frame.pure a
  alike h _ := .next a h

theorem stop : Twin C (Prog.stop : Prog σ ε α) Prog.stop where
  growsLeft := C.frame.stop
  growsRight := C.frame.stop
  alike h _ := .stop h

theorem fail (e : ε) : Twin C (Prog.fail e : Prog σ ε α) (Prog.fail e) where
  growsLeft := C.frame.fail e
  growsRight := C.frame.fail e
  alike h _ := .fail e h

theorem modify {f f' : σ → σ} (hf : ∀ s, C.grows s (f s)) (hf' : ∀ s, C.grows s (f' s))
    (h : ∀ {s t}, C.related s t → C.related (f s) (f' t)) :
    Twin C (Prog.modify f : Prog σ ε Unit) (Prog.modify f') where
  growsLeft := relates_modify hf
  growsRight := relates_modify hf'
  alike hrelated _ := .next () (h hrelated)

/-- A program that goes on ends where its first part did, or in a state that has grown from there. -/
theorem ending_bind {m : Prog σ ε α} {f : α → Prog σ ε β} (hf : ∀ a, Relates C.grows (f a)) (s : σ) :
    ((m >>= f) s).ending = (m s).ending ∨
      ∃ s', (m s).ending = (s', false) ∧ C.grows s' ((m >>= f) s).ending.1 := by
  rw [run_bind]
  cases m s with
  | next a s' =>
      right
      refine ⟨s', rfl, ?_⟩
      have hgrows := hf a s'
      show C.grows s' (f a s').ending.1
      cases hlast : f a s' with
      | next _ u | stop u | fail _ u | panic u =>
          rw [hlast] at hgrows
          exact hgrows
  | stop s' | fail e s' | panic s' => exact .inl rfl

theorem possible_of_bind {m m' : Prog σ ε α} {f f' : α → Prog σ ε β} {s t : σ}
    (hf : ∀ a, Relates C.grows (f a)) (hf' : ∀ a, Relates C.grows (f' a))
    (h : C.possible ((m >>= f) s).ending ((m' >>= f') t).ending) : C.possible (m s).ending (m' t).ending := by
  have hleft : C.possible (m s).ending ((m' >>= f') t).ending := by
    rcases @ending_bind σ ε α β C m f hf s with heq | ⟨s', hend, hgrows⟩
    · rw [← heq]
      exact h
    · rw [hend]
      exact C.left hgrows h
  rcases @ending_bind σ ε α β C m' f' hf' t with heq | ⟨t', hend, hgrows⟩
  · rw [← heq]
    exact hleft
  · rw [hend]
    exact C.right hgrows hleft

theorem bind {m m' : Prog σ ε α} {f f' : α → Prog σ ε β} (hm : Twin C m m') (hf : ∀ a, Twin C (f a) (f' a)) :
    Twin C (m >>= f) (m' >>= f') where
  growsLeft := C.frame.bind hm.growsLeft fun a => (hf a).growsLeft
  growsRight := C.frame.bind hm.growsRight fun a => (hf a).growsRight
  alike := by
    intro s t hrelated hpossible
    have hfirst := hm.alike hrelated (possible_of_bind (fun a => (hf a).growsLeft)
      (fun a => (hf a).growsRight) hpossible)
    rw [run_bind, run_bind] at hpossible ⊢
    cases hleft : m s <;> cases hright : m' t <;> rw [hleft, hright] at hfirst hpossible <;> cases hfirst
    · rename_i a s' t' hstate
      exact (hf a).alike hstate hpossible
    · rename_i hstate
      exact .stop hstate
    · rename_i hstate
      exact .fail _ hstate
    · rename_i hstate
      exact .panic hstate

/-- What is read of the state may differ, within what is related. -/
theorem get {f f' : σ → Prog σ ε α} (h : ∀ s t, C.related s t → Twin C (f s) (f' t)) :
    Twin C (Prog.get >>= f) (Prog.get >>= f') where
  growsLeft s := (h s s (C.refl s)).growsLeft s
  growsRight t := (h t t (C.refl t)).growsRight t
  alike {s t} hrelated hpossible := (h s t hrelated).alike hrelated hpossible

theorem forEach {body body' : β → Prog σ ε Unit} (xs : List β) (h : ∀ x, Twin C (body x) (body' x)) :
    Twin C (Prog.forEach xs body) (Prog.forEach xs body') := by
  induction xs with
  | nil => exact pure ()
  | cons x xs ih => exact (h x).bind fun _ => ih

end Twin

end Prog
