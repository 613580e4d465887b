import Mathlib.Data.List.Forall2
import Overacp.Lib.Transition

/-!
# One call at a time

A client and a server with a queue each way. The client makes a call only when no other is open, and sends
notices in between; the server answers the calls it can and pushes what nobody asked for. No answer says which
call it belongs to, and none has to.
-/

namespace Rpc

variable {κ ν ς α π : Type*}

inductive Up (κ ν : Type*) where
  | call (c : κ)
  | notice (n : ν)
  deriving DecidableEq, Repr

inductive Down (α π : Type*) where
  | answer (a : α)
  | push (p : π)
  deriving DecidableEq, Repr

def Up.call? : Up κ ν → Option κ
  | call c => some c
  | notice _ => none

def Down.answer? : Down α π → Option α
  | answer a => some a
  | push _ => none

/-- The two queues, the call that is open, and what has come of everything so far: what arrived at the server
and what the server was then, what the client received, and what each call returned. -/
structure State (κ ν ς α π : Type*) where
  up : List (Up κ ν)
  down : List (Down α π)
  waiting : Option κ
  arrived : List (Up κ ν × ς)
  received : List (Down α π)
  returned : List (κ × α)

inductive Event (κ ν ς π : Type*) where
  | call (c : κ)
  | notice (n : ν)
  | serve (server : ς)
  | push (p : π)
  | receive
  deriving DecidableEq, Repr

/-- The calls of what arrived, each with what the server was. -/
def served (arrived : List (Up κ ν × ς)) : List (κ × ς) := arrived.filterMap fun m => m.1.call?.map (·, m.2)

theorem mem_served {arrived : List (Up κ ν × ς)} {m : κ × ς} (h : m ∈ served arrived) :
    (.call m.1, m.2) ∈ arrived := by
  obtain ⟨⟨up, server⟩, hmem, hm⟩ := List.mem_filterMap.mp h
  cases up with
  | notice n => cases hm
  | call c =>
      cases hm
      exact hmem

theorem served_append (arrived arrived' : List (Up κ ν × ς)) :
    served (arrived ++ arrived') = served arrived ++ served arrived' := List.filterMap_append ..

namespace State

/-- All that was sent up, and all that was sent down. -/
def sent (s : State κ ν ς α π) : List (Up κ ν) := s.arrived.map Prod.fst ++ s.up

def replied (s : State κ ν ς α π) : List (Down α π) := s.received ++ s.down

end State

/-- `answer` is what the server answers to a call, if it answers. An answer that nobody waits for cannot be
received. -/
def step (answer : ς → κ → Option α) (s : State κ ν ς α π) : Event κ ν ς π → Option (State κ ν ς α π)
  | .call c => if s.waiting = none then some { s with up := s.up ++ [.call c], waiting := some c } else none
  | .notice n => if s.waiting = none then some { s with up := s.up ++ [.notice n] } else none
  | .serve server =>
      match s.up with
      | [] => none
      | .notice n :: up => some { s with up := up, arrived := s.arrived ++ [(.notice n, server)] }
      | .call c :: up =>
          some { s with
            up := up, arrived := s.arrived ++ [(.call c, server)]
            down := s.down ++ (answer server c).toList.map .answer }
  | .push p => some { s with down := s.down ++ [.push p] }
  | .receive =>
      match s.down with
      | [] => none
      | .push p :: down => some { s with down := down, received := s.received ++ [.push p] }
      | .answer a :: down =>
          s.waiting.map fun c =>
            { s with
              down := down, waiting := none, received := s.received ++ [.answer a]
              returned := s.returned ++ [(c, a)] }

def system (answer : ς → κ → Option α) : Transition.System (State κ ν ς α π) (Event κ ν ς π) where
  init := ⟨[], [], none, [], [], []⟩
  step := step answer

/-- Where the call that is open is: on its way, answered, or dropped. -/
inductive Phase (answer : ς → κ → Option α) : Option κ → List κ → List α → List (κ × ς) → Prop
  | idle : Phase answer none [] [] []
  | sent (c : κ) : Phase answer (some c) [c] [] []
  | answered (c : κ) (server : ς) (a : α) (h : answer server c = some a) : Phase answer (some c) [] [a] [(c, server)]
  | dropped (c : κ) (server : ς) (h : answer server c = none) : Phase answer (some c) [] [] [(c, server)]

/-- At most one call was served and has not returned, and it is the one that waits. -/
theorem Phase.opened {answer : ς → κ → Option α} {waiting : Option κ} {up : List κ} {down : List α}
    {opened : List (κ × ς)} (h : Phase answer waiting up down opened) :
    opened.length ≤ 1 ∧ ∀ m ∈ opened, waiting = some m.1 := by
  cases h with
  | idle => exact ⟨Nat.zero_le 1, nofun⟩
  | sent c => exact ⟨Nat.zero_le 1, nofun⟩
  | answered c server a h => exact ⟨Nat.le_refl _, List.forall_mem_singleton.mpr rfl⟩
  | dropped c server h => exact ⟨Nat.le_refl _, List.forall_mem_singleton.mpr rfl⟩

/-- Every call that returned was served once and returned its own answer, in order; of what is in flight only
the call that is open has a part. -/
def Paired (answer : ς → κ → Option α) (s : State κ ν ς α π) : Prop :=
  ∃ done pending, served s.arrived = done ++ pending ∧
    List.Forall₂ (fun (r : κ × α) (m : κ × ς) => m.1 = r.1 ∧ answer m.2 m.1 = some r.2) s.returned done ∧
    Phase answer s.waiting (s.up.filterMap Up.call?) (s.down.filterMap Down.answer?) pending

variable {answer : ς → κ → Option α} {s t : State κ ν ς α π}

theorem Paired.step {e : Event κ ν ς π} (hstep : step answer s e = some t) (h : Paired answer s) :
    Paired answer t := by
  obtain ⟨done, pending, hserved, hdone, hphase⟩ := h
  cases e with
  | call c =>
      rw [Rpc.step] at hstep
      split_ifs at hstep with hidle
      cases hstep
      rw [hidle] at hphase
      generalize hup : s.up.filterMap Up.call? = up at hphase
      generalize hdown : s.down.filterMap Down.answer? = down at hphase
      cases hphase
      refine ⟨done, [], hserved, hdone, ?_⟩
      rw [List.filterMap_append, hup, hdown]
      exact .sent c
  | notice n =>
      rw [Rpc.step] at hstep
      split_ifs at hstep with hidle
      cases hstep
      refine ⟨done, pending, hserved, hdone, ?_⟩
      rw [List.filterMap_append]
      exact (List.append_nil (s.up.filterMap Up.call?)).symm ▸ hphase
  | serve server =>
      obtain ⟨up, down, waiting, arrived, received, returned⟩ := s
      cases up with
      | nil => cases hstep
      | cons m up =>
          cases m with
          | notice n =>
              cases hstep
              refine ⟨done, pending, ?_, hdone, hphase⟩
              exact (served_append arrived [(.notice n, server)]).trans ((List.append_nil _).trans hserved)
          | call c =>
              cases hstep
              dsimp only at hphase
              rw [List.filterMap_cons_some (show Up.call? (.call c : Up κ ν) = some c from rfl)] at hphase
              generalize hup : up.filterMap Up.call? = calls at hphase
              generalize hdown : down.filterMap Down.answer? = answers at hphase
              cases hphase
              have hserved' := (served_append arrived [(.call c, server)]).trans (congrArg (· ++ [(c, server)]) hserved)
              rw [List.append_nil] at hserved'
              refine ⟨done, [(c, server)], hserved', hdone, ?_⟩
              dsimp only
              rw [hup, List.filterMap_append, hdown]
              cases hanswer : answer server c with
              | none => exact .dropped c server hanswer
              | some a => exact .answered c server a hanswer
  | push p =>
      cases hstep
      refine ⟨done, pending, hserved, hdone, ?_⟩
      rw [List.filterMap_append]
      exact (List.append_nil (s.down.filterMap Down.answer?)).symm ▸ hphase
  | receive =>
      obtain ⟨up, down, waiting, arrived, received, returned⟩ := s
      cases down with
      | nil => cases hstep
      | cons m down =>
          cases m with
          | push p =>
              cases hstep
              exact ⟨done, pending, hserved, hdone, hphase⟩
          | answer a =>
              obtain ⟨c, hc, rfl⟩ := Option.map_eq_some_iff.mp hstep
              dsimp only at hphase hc
              rw [List.filterMap_cons_some (show Down.answer? (.answer a : Down α π) = some a from rfl)] at hphase
              generalize hup : up.filterMap Up.call? = calls at hphase
              generalize hdown : down.filterMap Down.answer? = answers at hphase
              cases hphase with
              | answered c' server a h =>
                  obtain rfl : c' = c := Option.some.inj hc
                  refine ⟨done ++ [(c', server)], [], ?_, ?_, ?_⟩
                  · rw [List.append_nil]
                    exact hserved
                  · exact List.rel_append hdone (.cons ⟨rfl, h⟩ .nil)
                  · dsimp only
                    rw [hup, hdown]
                    exact .idle

theorem Paired.start : Paired answer (system (ν := ν) (π := π) answer).init := ⟨[], [], rfl, .nil, .idle⟩

/-! ### What a run leaves -/

/-- While no call is open, none is on its way up and no answer is on its way down. -/
theorem Paired.answers_of_idle (h : Paired answer s) (hidle : s.waiting = none) :
    s.up.filterMap Up.call? = [] ∧ s.down.filterMap Down.answer? = [] := by
  obtain ⟨done, pending, -, -, hphase⟩ := h
  rw [hidle] at hphase
  generalize s.up.filterMap Up.call? = up at hphase
  generalize s.down.filterMap Down.answer? = down at hphase
  cases hphase
  exact ⟨rfl, rfl⟩

/-- With nothing in flight, a call that is still open was dropped. -/
theorem Paired.dropped_of_drained (h : Paired answer s) {c : κ} (hwaiting : s.waiting = some c) (hup : s.up = [])
    (hdown : s.down = []) : ∃ server, answer server c = none := by
  obtain ⟨done, pending, -, -, hphase⟩ := h
  rw [hwaiting, hup, hdown] at hphase
  cases hphase with
  | dropped c server hanswer => exact ⟨server, hanswer⟩

/-- A call that the server never answers stays open, whatever else is called, served or pushed. -/
theorem Paired.waiting_step {c : κ} (hnone : ∀ server, answer server c = none) {e : Event κ ν ς π}
    (hstep : Rpc.step answer s e = some t) (h : Paired answer s) (hwaiting : s.waiting = some c) :
    t.waiting = some c := by
  cases e with
  | call c' =>
      rw [Rpc.step, if_neg (by rw [hwaiting]; exact Option.some_ne_none c)] at hstep
      cases hstep
  | notice n =>
      rw [Rpc.step, if_neg (by rw [hwaiting]; exact Option.some_ne_none c)] at hstep
      cases hstep
  | serve server =>
      obtain ⟨up, down, waiting, arrived, received, returned⟩ := s
      cases up with
      | nil => cases hstep
      | cons m up =>
          cases m <;> cases hstep <;> exact hwaiting
  | push p =>
      cases hstep
      exact hwaiting
  | receive =>
      obtain ⟨done, pending, -, -, hphase⟩ := h
      obtain ⟨up, down, waiting, arrived, received, returned⟩ := s
      cases down with
      | nil => cases hstep
      | cons m down =>
          cases m with
          | push p =>
              cases hstep
              exact hwaiting
          | answer a =>
              -- an answer on its way down answers the call that waits
              dsimp only at hphase hwaiting
              rw [hwaiting, List.filterMap_cons_some (show Down.answer? (.answer a : Down α π) = some a from rfl)]
                at hphase
              generalize up.filterMap Up.call? = calls at hphase
              generalize down.filterMap Down.answer? = answers at hphase
              cases hphase with
              | answered c server a hanswer =>
                  rw [hnone server] at hanswer
                  cases hanswer

theorem Paired.run {es : List (Event κ ν ς π)} (hrun : (system answer).run s es = some t) (h : Paired answer s) :
    Paired answer t :=
  (system answer).run_invariant (fun _ _ _ hstep hs => hs.step hstep) hrun h

theorem Paired.waiting_run {c : κ} (hnone : ∀ server, answer server c = none) {es : List (Event κ ν ς π)}
    (hrun : (system answer).run s es = some t) (h : Paired answer s) (hwaiting : s.waiting = some c) :
    t.waiting = some c := by
  have hstep : ∀ (s : State κ ν ς α π) (e : Event κ ν ς π) (t : State κ ν ς α π), (system answer).step s e = some t →
      Paired answer s ∧ s.waiting = some c → Paired answer t ∧ t.waiting = some c := by
    rintro s e t hst ⟨hs, hopen⟩
    exact ⟨hs.step hst, hs.waiting_step hnone hst hopen⟩
  exact ((system answer).run_invariant hstep hrun ⟨h, hwaiting⟩).2

end Rpc
