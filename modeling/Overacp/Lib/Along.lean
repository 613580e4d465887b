import Mathlib.Data.List.Infix

/-!
# Along a sequence of events

A condition on each event of a sequence, given the events before it.
-/

variable {ε : Type}

/-- Every event is as the condition says, with those before it. -/
def Along (P : List ε → ε → Prop) (events : List ε) : Prop :=
  ∀ n e, events[n]? = some e → P (events.take n) e

namespace Along

variable {P : List ε → ε → Prop} {events : List ε}

instance [∀ before e, Decidable (P before e)] : Decidable (Along P events) :=
  decidable_of_iff (∀ i : Fin events.length, P (events.take i) events[i]) <| by
    constructor
    · intro h n e he
      obtain ⟨hn, he⟩ := List.getElem?_eq_some_iff.mp he
      have hi := h ⟨n, hn⟩
      rwa [Fin.getElem_fin, he] at hi
    · intro h i
      exact h i events[i] (List.getElem?_eq_getElem i.isLt)

theorem nil : Along P [] := nofun

theorem concat_iff {e : ε} : Along P (events ++ [e]) ↔ Along P events ∧ P events e := by
  constructor
  · intro h
    constructor
    · intro n e' he'
      have hn := (List.getElem?_eq_some_iff.mp he').1
      have hlater := h n e' (by rw [List.getElem?_append_left hn, he'])
      rwa [List.take_append_of_le_length (Nat.le_of_lt hn)] at hlater
    · have hlast := h events.length e List.getElem?_concat_length
      rwa [List.take_left] at hlast
  · intro h n e' he'
    obtain ⟨hevents, he⟩ := h
    rcases Nat.lt_or_ge n events.length with hn | hn
    · rw [List.getElem?_append_left hn] at he'
      rw [List.take_append_of_le_length (Nat.le_of_lt hn)]
      exact hevents n e' he'
    · rw [List.getElem?_append_right hn] at he'
      have hlast := (List.getElem?_eq_some_iff.mp he').1
      rw [List.length_singleton] at hlast
      have heq : n = events.length := by omega
      subst heq
      rw [Nat.sub_self, List.getElem?_cons_zero] at he'
      rw [List.take_left, ← Option.some.inj he']
      exact he

theorem append {more : List ε} (h : Along P events) (hmore : ∀ e ∈ more, ∀ before, P before e) :
    Along P (events ++ more) := by
  intro n e he
  rcases Nat.lt_or_ge n events.length with hn | hn
  · rw [List.getElem?_append_left hn] at he
    rw [List.take_append_of_le_length (Nat.le_of_lt hn)]
    exact h n e he
  · rw [List.getElem?_append_right hn] at he
    exact hmore e (List.mem_of_getElem? he) _

theorem of_append {more : List ε} (h : Along P (events ++ more)) : Along P events := by
  intro n e he
  have hn := (List.getElem?_eq_some_iff.mp he).1
  have hlater := h n e (by rw [List.getElem?_append_left hn, he])
  rwa [List.take_append_of_le_length (Nat.le_of_lt hn)] at hlater

end Along
