import Overacp.Lib.Prog

/-!
# Conditions before and after a program

What holds before a program, and what then holds after it, for each way it may end: going on with a value,
leaving its loop, an error or a panic. The rules go by the construction of the program.
-/

/-- What is to hold at each end of a program. -/
structure Prog.Post (σ α : Type) where
  next : α → σ → Prop
  stop : σ → Prop
  fail : σ → Prop
  panic : σ → Prop

namespace Outcome

variable {σ ε α β : Type}

def Meets (post : Prog.Post σ α) : Outcome σ ε α → Prop
  | next a s => post.next a s
  | stop s => post.stop s
  | fail _ s => post.fail s
  | panic s => post.panic s

end Outcome

namespace Prog

variable {σ ε α β : Type}

/-- To go on with this, and otherwise to end as before. -/
def Post.andThen (post : Post σ α) (next : β → σ → Prop) : Post σ β := { post with next := next }

/-- From a state with the one, the program ends with the other. -/
def Ensures (pre : σ → Prop) (m : Prog σ ε α) (post : Post σ α) : Prop := ∀ s, pre s → (m s).Meets post

namespace Ensures

variable {pre : σ → Prop} {post : Post σ α}

theorem pure {a : α} (h : ∀ s, pre s → post.next a s) : Ensures pre (Pure.pure a : Prog σ ε α) post := h

theorem stop (h : ∀ s, pre s → post.stop s) : Ensures pre (Prog.stop : Prog σ ε α) post := h

theorem fail (e : ε) (h : ∀ s, pre s → post.fail s) : Ensures pre (Prog.fail e : Prog σ ε α) post := h

theorem modify {f : σ → σ} {post : Post σ Unit} (h : ∀ s, pre s → post.next () (f s)) :
    Ensures pre (Prog.modify f : Prog σ ε Unit) post := h

/-- The state that is looked at is the one before. -/
theorem get {f : σ → Prog σ ε α} (h : ∀ s, pre s → (f s s).Meets post) : Ensures pre (Prog.get >>= f) post := h

theorem bind {m : Prog σ ε α} {f : α → Prog σ ε β} {post : Post σ β} (mid : α → σ → Prop)
    (hm : Ensures pre m (post.andThen mid)) (hf : ∀ a, Ensures (mid a) (f a) post) :
    Ensures pre (m >>= f) post := by
  intro s hs
  have hmid := hm s hs
  rw [run_bind]
  cases houtcome : m s with
  | next a t =>
      rw [houtcome] at hmid
      exact hf a t hmid
  | stop t | fail _ t | panic t =>
      rw [houtcome] at hmid
      exact hmid

/-- What the body keeps for every element, the loop over them keeps. -/
theorem forEach {post : Post σ Unit} {body : β → Prog σ ε Unit} (xs : List β)
    (hbody : ∀ x ∈ xs, Ensures (post.next ()) (body x) post) :
    Ensures (post.next ()) (Prog.forEach xs body) post := by
  induction xs with
  | nil => exact .pure fun _ hs => hs
  | cons x xs ih =>
      refine .bind (fun _ => post.next ()) (hbody x List.mem_cons_self) fun _ => ?_
      exact ih fun y hy => hbody y (List.mem_cons_of_mem _ hy)

/-- A program that does to the state only what leads from the one to the other. -/
theorem of_relates {R : σ → σ → Prop} {m : Prog σ ε α} (h : Relates R m)
    (hnext : ∀ a s t, pre s → R s t → post.next a t) (hstop : ∀ s t, pre s → R s t → post.stop t)
    (hfail : ∀ s t, pre s → R s t → post.fail t) (hpanic : ∀ s t, pre s → R s t → post.panic t) :
    Ensures pre m post := by
  intro s hs
  have hstate := h s
  cases houtcome : m s with
  | next a t =>
      rw [houtcome] at hstate
      exact hnext a s t hs hstate
  | stop t =>
      rw [houtcome] at hstate
      exact hstop s t hs hstate
  | fail e t =>
      rw [houtcome] at hstate
      exact hfail s t hs hstate
  | panic t =>
      rw [houtcome] at hstate
      exact hpanic s t hs hstate

end Ensures

end Prog
