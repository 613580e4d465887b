import Overacp.Lib.Prog

/-!
# Counted loops, and programs followed by a ghost

A loop runs its body for as many iterations as are left. When the body is a first part, a middle and a
last part, the states in which a run of the loop comes to the middle are a relation of their own, and
what the outer parts respect everywhere and the middle part at those states, the loop respects.

A ghost is a second component of the state that a program does not see. It is updated beside the program,
from the states before and after, and forgetting it gives the program back.
-/

namespace Prog

variable {σ γ ε α β : Type}

/-! ### Loops -/

/-- The iterations from one on, as many as are left. -/
def loop (body : Nat → Prog σ ε Unit) : Nat → Nat → Prog σ ε Unit
  | 0, _ => pure ()
  | left + 1, i => do
      body i
      loop body left (i + 1)

/-- A run of the loop comes through the first part of an iteration in this state. -/
inductive Reaches (first : Prog σ ε Unit) (body : Nat → Prog σ ε Unit) : Nat → Nat → σ → σ → Prop where
  | here {left i : Nat} {s s' : σ} (h : first s = .next () s') : Reaches first body (left + 1) i s s'
  | later {left i : Nat} {s t s' : σ} (h : body i s = .next () t)
      (hrest : Reaches first body left (i + 1) t s') : Reaches first body (left + 1) i s s'

section

variable {R : σ → σ → Prop} {first middle : Prog σ ε Unit} {last body : Nat → Prog σ ε Unit}

/-- One iteration, where the middle part is known to respect the relation if it is come to. -/
theorem iteration_relates (hR : Frame R) (hfirst : Relates R first) {i : Nat} (hlast : Relates R (last i))
    {s : σ} (hmiddle : ∀ s', first s = .next () s' → R s' (middle s').state) :
    R s ((first >>= fun _ => middle >>= fun _ => last i) s).state := by
  have hbefore := hfirst s
  show R s ((first s).andThen _).state
  cases houtcome : first s with
  | next value s' =>
      rw [houtcome] at hbefore
      have hmid := hmiddle s' houtcome
      refine hR.trans s s' _ hbefore ?_
      show R s' ((middle s').andThen fun _ => last i).state
      cases hout : middle s' with
      | next value t =>
          rw [hout] at hmid
          exact hR.trans s' t _ hmid (hlast t)
      | stop t | fail _ t | panic t =>
          rw [hout] at hmid
          exact hmid
  | stop s' | fail _ s' | panic s' =>
      rw [houtcome] at hbefore
      exact hbefore

variable (hbody : ∀ i, body i = first >>= fun _ => middle >>= fun _ => last i)
include hbody

theorem loop_relates (hR : Frame R) (hfirst : Relates R first) (hlast : ∀ i, Relates R (last i))
    {left i : Nat} {s : σ} (hmiddle : ∀ s', Reaches first body left i s s' → R s' (middle s').state) :
    R s (loop body left i s).state := by
  induction left generalizing i s with
  | zero => exact hR.refl s
  | succ left ih =>
      have hiteration : R s (body i s).state := by
        rw [hbody]
        exact iteration_relates hR hfirst (hlast i) fun s' hs' => hmiddle s' (.here hs')
      show R s ((body i s).andThen _).state
      cases houtcome : body i s with
      | next value t =>
          rw [houtcome] at hiteration
          exact hR.trans s t _ hiteration (ih fun s' hs' => hmiddle s' (.later houtcome hs'))
      | stop t | fail _ t | panic t =>
          rw [houtcome] at hiteration
          exact hiteration

/-- What is respected all along relates the start to a middle part, and its end to the end. -/
theorem Reaches.relates (hR : Frame R) (hfirst : Relates R first) (hmiddle : Relates R middle)
    (hlast : ∀ i, Relates R (last i)) {left i : Nat} {s s' : σ} (h : Reaches first body left i s s') :
    R s s' ∧ R (middle s').state (loop body left i s).state := by
  have hloop (left i : Nat) : Relates R (loop body left i) :=
    fun s => loop_relates hbody hR hfirst hlast fun s' _ => hmiddle s'
  induction h with
  | @here left i s s' houtcome =>
      have hbefore := hfirst s
      rw [houtcome] at hbefore
      refine ⟨hbefore, ?_⟩
      have hafter := hR.bind (hlast i) fun _ => hloop left (i + 1)
      have heq : loop body (left + 1) i s =
          (middle s').andThen fun _ => last i >>= fun _ => loop body left (i + 1) := by
        show (body i >>= fun _ => loop body left (i + 1)) s = _
        rw [hbody, bind_assoc, run_bind, houtcome]
        exact congrFun (bind_assoc _ _ _) s'
      rw [heq]
      cases middle s' with
      | next value t => exact hafter t
      | stop t | fail _ t | panic t => exact hR.refl t
  | @later left i s t s' houtcome _ ih =>
      have hbefore : R s (body i s).state := by
        rw [hbody]
        exact iteration_relates hR hfirst (hlast i) fun s' _ => hmiddle s'
      rw [houtcome] at hbefore
      refine ⟨hR.trans s t s' hbefore ih.1, ?_⟩
      show R _ ((body i s).andThen _).state
      rw [houtcome]
      exact ih.2

end

/-! ### Ghosts -/

end Prog

/-- An outcome with a ghost, and without it. -/
def Outcome.withGhost {σ γ ε α : Type} (ghost : γ) : Outcome σ ε α → Outcome (σ × γ) ε α
  | .next a s => .next a (s, ghost)
  | .stop s => .stop (s, ghost)
  | .fail e s => .fail e (s, ghost)
  | .panic s => .panic (s, ghost)

def Outcome.forget {σ γ ε α : Type} : Outcome (σ × γ) ε α → Outcome σ ε α
  | .next a s => .next a s.1
  | .stop s => .stop s.1
  | .fail e s => .fail e s.1
  | .panic s => .panic s.1

namespace Prog

variable {σ γ ε α β : Type}

/-- Run a program, and the ghost beside it. -/
def follow (m : Prog σ ε α) (update : σ → γ → σ → γ) : Prog (σ × γ) ε α := fun s =>
  (m s.1).withGhost (update s.1 s.2 (m s.1).state)

/-- Without its ghost, the first program is the second. -/
def Follows (m' : Prog (σ × γ) ε α) (m : Prog σ ε α) : Prop := ∀ s, (m' s).forget = m s.1

theorem follows_follow (m : Prog σ ε α) (update : σ → γ → σ → γ) : Follows (follow m update) m := by
  intro s
  show ((m s.1).withGhost _).forget = m s.1
  cases m s.1 <;> rfl

theorem follow_state (m : Prog σ ε α) (update : σ → γ → σ → γ) (s : σ × γ) :
    (follow m update s).state = ((m s.1).state, update s.1 s.2 (m s.1).state) := by
  show ((m s.1).withGhost _).state = _
  cases m s.1 <;> rfl

theorem relates_follow {R : σ × γ → σ × γ → Prop} {m : Prog σ ε α} {update : σ → γ → σ → γ}
    (h : ∀ s ghost, R (s, ghost) ((m s).state, update s ghost (m s).state)) :
    Relates R (follow m update) := by
  intro s
  rw [follow_state]
  exact h s.1 s.2

theorem follows_pure (a : α) : Follows (Pure.pure a : Prog (σ × γ) ε α) (Pure.pure a) := fun _ => rfl

theorem Follows.bind {m' : Prog (σ × γ) ε α} {m : Prog σ ε α} {f' : α → Prog (σ × γ) ε β}
    {f : α → Prog σ ε β} (hm : Follows m' m) (hf : ∀ a, Follows (f' a) (f a)) :
    Follows (m' >>= f') (m >>= f) := by
  intro s
  show ((m' s).andThen f').forget = (m s.1).andThen f
  rw [← hm s]
  cases m' s with
  | next a t => exact hf a t
  | stop t | fail _ t | panic t => rfl

theorem Follows.loop {body' : Nat → Prog (σ × γ) ε Unit} {body : Nat → Prog σ ε Unit}
    (h : ∀ i, Follows (body' i) (body i)) (left i : Nat) :
    Follows (Prog.loop body' left i) (Prog.loop body left i) := by
  induction left generalizing i with
  | zero => exact follows_pure ()
  | succ left ih => exact (h i).bind fun _ => ih (i + 1)

end Prog
