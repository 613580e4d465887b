import Overacp.Loop.Arithmetic

/-!
# The totals of a turn

Each total of a turn is what the provider reports for its streaming calls, summed up. So the arithmetic of a turn
fits where its compaction checks fit and these sums do.
-/

namespace Overacp

namespace AgenticLoop

open Llm Tally

/-! ### What the provider reports -/

def Count.reported (count : Count) (usage : Option Usage) : Nat := (usage.map count.ofUsage).getD 0

/-- What the provider reports for a streaming call. -/
def streamCount (env : Environment) (count : Count) (before : List Event) : Event → Nat
  | .streamCompletion messages tools =>
      match (env.streamCompletion (before ++ [.streamCompletion messages tools])).2 with
      | .ok streamed => count.reported streamed.usage
      | .error _ => 0
  | _ => 0

/-- The total has grown by what was reported between two states, except for this many tokens. -/
def Totalled (env : Environment) (count : Count) (debt : Nat) (s t : State) : Prop :=
  ∃ events, t.trace = s.trace ++ events ∧
    count.ofUsage t.totalUsage + debt = count.ofUsage s.totalUsage + tally (streamCount env count) s.trace events

variable {env : Environment} {config : LoopConfig} {count : Count}

theorem Totalled.trans {n m : Nat} {s t u : State} (hst : Totalled env count n s t) (htu : Totalled env count m t u) :
    Totalled env count (n + m) s u := by
  obtain ⟨es, htrace, htotal⟩ := hst
  obtain ⟨es', htrace', htotal'⟩ := htu
  rw [htrace] at htrace' htotal'
  refine ⟨es ++ es', by rw [htrace', List.append_assoc], ?_⟩
  rw [tally_append]
  omega

theorem frame_totalled (env : Environment) (count : Count) : Prog.Frame (Totalled env count 0) where
  refl _ := ⟨[], by simp, rfl⟩
  trans _ _ _ := Totalled.trans

theorem Totalled.le {s t : State} (h : Totalled env count 0 s t) :
    count.ofUsage s.totalUsage ≤ count.ofUsage t.totalUsage := by
  obtain ⟨_, _, htotal⟩ := h
  omega

theorem Unmetered.totalled {s t : State} (h : Unmetered s t) : Totalled env count 0 s t := by
  obtain ⟨events, htrace, hevents⟩ := h.emits
  refine ⟨events, htrace, ?_⟩
  rw [h.totalUsage, tally_eq_zero]
  intro e he _
  have hunmetered := hevents e he
  cases e <;> first | rfl | exact absurd hunmetered nofun

theorem relates_totalled {α : Type} {m : Loop α} (h : Prog.Relates Unmetered m) :
    Prog.Relates (Totalled env count 0) m := Prog.relates_mono (fun _ _ => Unmetered.totalled) h

/-! ### A call and its report -/

theorem callLlm_totalled :
    Prog.Owes (Totalled env count) (fun streamed => count.reported streamed.usage) (callLlm env config) := by
  intro s
  have hasked : Totalled env count ((callLlm env config s).worth fun streamed => count.reported streamed.usage) s
      (streaming env s) := by
    refine ⟨[.streamCompletion s.messages (env.definitions s.trace)], rfl, ?_⟩
    rw [callLlm_worth, tally_singleton]
    rfl
  exact hasked.trans (callLlm_unmetered s).totalled

theorem trackUsage_adds (usage : Option Usage) (s : State) : ∃ t, trackUsage usage s = .next () t ∧
    t.totalUsage = usage.elim s.totalUsage (addUsage s.totalUsage) := by
  cases usage with
  | none => exact ⟨s, rfl, rfl⟩
  | some usage => exact ⟨_, rfl, rfl⟩

theorem trackUsage_totalled (usage : Option Usage) {s t : State}
    (h : Totalled env count (count.reported usage) s t) : Totalled env count 0 s (trackUsage usage t).state := by
  cases usage with
  | none => exact h
  | some usage =>
      obtain ⟨events, htrace, htotal⟩ := h
      let update := Event.quotaUpdate usage.promptTokens usage.completionTokens
      refine ⟨events ++ [update], ?_, ?_⟩
      · rw [← List.append_assoc, ← htrace]
        rfl
      · rw [tally_append]
        show count.ofUsage (addUsage t.totalUsage usage) + 0 = _ + (_ + 0)
        rw [Count.ofUsage_add]
        exact htotal

theorem afterUsage_unmetered (streamed : StreamedResponse) : Prog.Relates Unmetered (afterUsage env streamed) :=
  (steps_unmetered env).afterUsage (fun _ _ _ => ask_unmetered rfl _) (fun _ _ _ => ask_unmetered rfl _) streamed

theorem rest_totalled (iteration : Nat) : Prog.Relates (Totalled env count 0) (rest env config iteration) := by
  have hframe := frame_totalled env count
  apply hframe.bind (relates_totalled ((steps_unmetered env).windDown iteration))
  intro _
  apply hframe.bind (relates_totalled (steps_unmetered env).nudge)
  intro _
  apply callLlm_totalled.relates
  intro streamed s t howing
  obtain ⟨u, hnext, _⟩ := trackUsage_adds streamed.usage t
  have htracked : Totalled env count 0 s (trackUsage streamed.usage t).state := trackUsage_totalled _ howing
  show Totalled env count 0 s ((trackUsage streamed.usage t).andThen fun _ => afterUsage env streamed).state
  rw [hnext] at htracked ⊢
  exact htracked.trans (relates_totalled (afterUsage_unmetered streamed) u)

theorem iterations_totalled (left iteration : Nat) :
    Prog.Relates (Totalled env count 0) (iterations env config left iteration) := fun _ =>
  iterations_relates (frame_totalled env count) (relates_totalled (steps_unmetered env).preamble) rest_totalled
    fun s' _ => (checkCompaction_unmetered s').totalled

/-! ### What fits, by the totals -/

theorem called_totalUsage (iteration : Nat) (s : State) :
    (called env config iteration s).state.totalUsage = s.totalUsage := by
  have hkeeps : Prog.Relates (fun s t : State => t.totalUsage = s.totalUsage) (called env config iteration) := by
    have hframe : Prog.Frame fun s t : State => t.totalUsage = s.totalUsage :=
      ⟨fun _ => rfl, fun _ _ _ hst htu => htu.trans hst⟩
    have hunmetered {α : Type} {m : Loop α} (h : Prog.Relates Unmetered m) :
        Prog.Relates (fun s t : State => t.totalUsage = s.totalUsage) m :=
      Prog.relates_mono (fun _ _ h => h.totalUsage) h
    apply hframe.bind (hunmetered ((steps_unmetered env).windDown iteration))
    intro _
    apply hframe.bind (hunmetered (steps_unmetered env).nudge)
    intro _ s
    exact (callLlm_unmetered s).totalUsage
  exact hkeeps s

theorem restFits_iff {iteration : Nat} {s : State} (hbounded : Bounded s.totalUsage) :
    RestFits env config iteration s ↔ Bounded (rest env config iteration s).state.totalUsage := by
  have hcalled := @called_totalUsage env config iteration s
  rw [rest_eq_called, Prog.run_bind, RestFits]
  cases houtcome : called env config iteration s with
  | next streamed t =>
      rw [houtcome] at hcalled
      have hcalled : t.totalUsage = s.totalUsage := hcalled
      obtain ⟨u, hnext, htotal⟩ := trackUsage_adds streamed.usage t
      have hafter : ((trackUsage streamed.usage t).andThen fun _ => afterUsage env streamed).state.totalUsage =
          streamed.usage.elim t.totalUsage (addUsage t.totalUsage) := by
        rw [hnext, ← htotal]
        exact (afterUsage_unmetered streamed u).totalUsage
      show _ ↔ Bounded ((trackUsage streamed.usage t).andThen fun _ => afterUsage env streamed).state.totalUsage
      rw [hafter]
      cases husage : streamed.usage with
      | none =>
          constructor
          · intro _
            rw [← hcalled] at hbounded
            exact hbounded
          · intro _ streamed' t' heq
            cases heq
            intro u hu
            rw [husage] at hu
            cases hu
      | some usage =>
          constructor
          · intro hfits
            exact hfits streamed t rfl usage husage
          · intro hsum streamed' t' heq
            cases heq
            intro u hu
            obtain rfl : usage = u := Option.some.inj (husage.symm.trans hu)
            exact hsum
  | stop t | fail _ t | panic t =>
      rw [houtcome] at hcalled
      have hcalled : t.totalUsage = s.totalUsage := hcalled
      rw [← hcalled] at hbounded
      refine ⟨fun _ => hbounded, fun _ streamed t' heq => ?_⟩
      cases heq

theorem iterationFits_iff {iteration : Nat} {s : State} (hbounded : Bounded s.totalUsage) :
    IterationFits env config iteration s ↔
      (∀ u s', preamble env config s = .next u s' → CheckFits env config s') ∧
        Bounded (iterate env config iteration s).state.totalUsage := by
  have hpreamble : (preamble env config s).state.totalUsage = s.totalUsage :=
    ((steps_unmetered env).preamble s).totalUsage
  show _ ↔ _ ∧ Bounded ((preamble env config s).andThen fun _ =>
    checkCompaction env config >>= fun _ => rest env config iteration).state.totalUsage
  rw [IterationFits]
  cases houtcome : preamble env config s with
  | next u s' =>
      rw [houtcome] at hpreamble
      have hcheck := (@checkCompaction_unmetered env config s').totalUsage
      have hrest : (∀ v t, checkCompaction env config s' = .next v t → RestFits env config iteration t) ↔
          Bounded ((checkCompaction env config s').andThen fun _ => rest env config iteration).state.totalUsage := by
        cases hout : checkCompaction env config s' with
        | next v t =>
            rw [hout] at hcheck
            have htotal : t.totalUsage = s.totalUsage := hcheck.trans hpreamble
            rw [← htotal] at hbounded
            show _ ↔ Bounded (rest env config iteration t).state.totalUsage
            rw [← restFits_iff hbounded]
            constructor
            · intro hfits
              exact hfits v t rfl
            · intro hfits v' t' heq
              cases heq
              exact hfits
        | stop t | fail _ t | panic t =>
            rw [hout] at hcheck
            have htotal : t.totalUsage = s.totalUsage := hcheck.trans hpreamble
            rw [← htotal] at hbounded
            refine ⟨fun _ => hbounded, fun _ v t' heq => ?_⟩
            cases heq
      show _ ↔ _ ∧ Bounded ((checkCompaction env config s').andThen fun _ =>
        rest env config iteration).state.totalUsage
      rw [← hrest]
      constructor
      · intro hfits
        refine ⟨?_, (hfits u s' rfl).2⟩
        intro u' t' heq
        exact (hfits u' t' heq).1
      · intro hfits u' t' heq
        cases heq
        exact ⟨hfits.1 u s' rfl, hfits.2⟩
  | stop s' | fail _ s' | panic s' =>
      rw [houtcome] at hpreamble
      have hpreamble : s'.totalUsage = s.totalUsage := hpreamble
      rw [← hpreamble] at hbounded
      exact ⟨fun _ => ⟨nofun, hbounded⟩, fun _ => nofun⟩

theorem iterationsFit_iff {left iteration : Nat} {s : State} (hbounded : Bounded s.totalUsage) :
    IterationsFit env config left iteration s ↔
      (∀ s', CheckedAt env config left iteration s s' → CheckFits env config s') ∧
        Bounded (iterations env config left iteration s).state.totalUsage := by
  induction left generalizing iteration s with
  | zero => exact ⟨fun _ => ⟨nofun, hbounded⟩, fun _ => trivial⟩
  | succ left ih =>
      rw [IterationsFit, iterationFits_iff hbounded]
      show _ ↔ _ ∧ Bounded ((iterate env config iteration s).andThen fun _ =>
        iterations env config left (iteration + 1)).state.totalUsage
      constructor
      · intro hfits
        obtain ⟨⟨hcheck, hiterate⟩, hlater⟩ := hfits
        cases houtcome : iterate env config iteration s with
        | next u t =>
            rw [houtcome] at hiterate
            obtain ⟨hchecks, htotal⟩ := (ih hiterate).mp (hlater u t houtcome)
            refine ⟨?_, htotal⟩
            intro s' hchecked
            cases hchecked with
            | here hs' => exact hcheck _ s' hs'
            | later hout hrest =>
                cases houtcome.symm.trans hout
                exact hchecks s' hrest
        | stop t | fail _ t | panic t =>
            rw [houtcome] at hiterate
            refine ⟨?_, hiterate⟩
            intro s' hchecked
            cases hchecked with
            | here hs' => exact hcheck _ s' hs'
            | later hout hrest => cases houtcome.symm.trans hout
      · intro hfits
        obtain ⟨hchecks, htotal⟩ := hfits
        have hcheck : ∀ u s', preamble env config s = .next u s' → CheckFits env config s' :=
          fun _ s' hs' => hchecks s' (.here hs')
        cases houtcome : iterate env config iteration s with
        | next u t =>
            rw [houtcome] at htotal
            -- The totals only grow, so the last of them bounds the one here.
            have hiterate : Bounded t.totalUsage := fun count =>
              Nat.lt_of_le_of_lt (@iterations_totalled env config count left (iteration + 1) t).le (htotal count)
            refine ⟨⟨hcheck, hiterate⟩, ?_⟩
            intro u' t' heq
            cases heq
            exact (ih hiterate).mpr ⟨fun s' hs' => hchecks s' (.later houtcome hs'), htotal⟩
        | stop t | fail _ t | panic t =>
            rw [houtcome] at htotal
            exact ⟨⟨hcheck, htotal⟩, nofun⟩

/-! ### The whole run -/

theorem run_totalUsage (env : Environment) (config : LoopConfig) (trace : List Event) (messages : List Message) :
    (run env config trace messages).state.totalUsage =
      (iterations env config config.maxIterations 0 (initial env trace messages)).state.totalUsage := by
  rcases run_state env config trace messages with hstate | hstate
  · rw [hstate]
  · rw [hstate]
    exact (epilogue_unmetered _).totalUsage

/-- The total of a run is what the provider reports for its streaming calls. -/
theorem run_total (env : Environment) (config : LoopConfig) (count : Count) (trace : List Event)
    (messages : List Message) : count.ofUsage (run env config trace messages).state.totalUsage =
      tally (streamCount env count) trace (runEvents env config trace messages) := by
  have hinitial : Totalled env count 0 (before env trace messages) (initial env trace messages) :=
    Unmetered.totalled (before_unmetered env trace messages)
  have hloop := run_relates (frame_totalled env count) (relates_totalled (steps_unmetered env).preamble)
    rest_totalled (relates_totalled epilogue_unmetered)
    fun s' (_ : Checks env config trace messages s') => (checkCompaction_unmetered s').totalled
  obtain ⟨events, htrace, htotal⟩ := hinitial.trans hloop
  have hevents : events = runEvents env config trace messages :=
    List.append_cancel_left (htrace.symm.trans (run_trace env config trace messages))
  subst hevents
  have hzero : count.ofUsage (before env trace messages).totalUsage = 0 := by cases count <;> rfl
  have htotal : _ = _ + tally (streamCount env count) trace (runEvents env config trace messages) := htotal
  omega

/-- The arithmetic of a turn fits: in the compaction checks it comes to, and in the sums of what the provider
reports. -/
structure Fits (env : Environment) (config : LoopConfig) (trace : List Event) (messages : List Message) : Prop where
  checks : ∀ s, Checks env config trace messages s → CheckFits env config s
  usage : ∀ count, tally (streamCount env count) trace (runEvents env config trace messages) < 2 ^ 64

theorem fits_iff (env : Environment) (config : LoopConfig) (trace : List Event) (messages : List Message) :
    IterationsFit env config config.maxIterations 0 (initial env trace messages) ↔
      Fits env config trace messages := by
  have hbounded : Bounded (initial env trace messages).totalUsage := by
    intro count
    cases count <;> exact Nat.two_pow_pos 64
  rw [iterationsFit_iff hbounded, ← run_totalUsage]
  constructor
  · intro hfits
    refine ⟨hfits.1, fun count => ?_⟩
    rw [← run_total]
    exact hfits.2 count
  · intro hfits
    refine ⟨hfits.checks, fun count => ?_⟩
    rw [run_total]
    exact hfits.usage count

/-- A turn with checked arithmetic is the turn where it fits, and panics where it does not. -/
theorem guarded_run (env : Environment) (config : LoopConfig) (trace : List Event) (messages : List Message) :
    (Checked.run env config trace messages).Guarded (run env config trace messages)
      (Fits env config trace messages) := by
  have hloop := (@guarded_iterations env config config.maxIterations 0 (initial env trace messages)).congr
    (fits_iff env config trace messages)
  refine ⟨fun hfits => ?_, fun hfits t => ?_, fun hfits => ?_⟩
  · rw [Checked.run, hloop.agrees hfits]
    rfl
  · have hgoes := hloop.goes hfits
    rw [run]
    cases houtcome : iterations env config config.maxIterations 0 (initial env trace messages) with
    | next _ s | stop s => exact epilogue_unpanicking s t
    | fail e s =>
        intro hpanic
        cases hpanic
    | panic s => exact absurd houtcome (hgoes s)
  · obtain ⟨t, hpanic⟩ := hloop.panics hfits
    rw [Checked.run, hpanic]
    exact ⟨t, rfl⟩

end AgenticLoop

end Overacp
