import Overacp.Server.Tunnel.Handover

/-!
# Accepted frames and where they are

Every frame a request was told 202 for is handed from place to place: into the queue or a channel, from the
queue to a tunnel that drains it, into its channel, onto its socket. Nothing is ever at two places. What
waits in a channel whose write task ends, on a socket that fails or with the tunnel, is at none: the exact
condition is that no such frame waits there then.
-/

namespace Overacp

namespace Broker

variable {φ : Type} {s s' : Broker (Frame φ)}

/-! ### Every accepted frame at one place -/

/-- Every accepted frame is at one place of its agent, and no other frame is at any. -/
structure InCustody (s : Broker (Frame φ)) : Prop where
  accepted : ∀ a n, s.Accepted a n → (s.contents a).Once n
  others : ∀ a n, ¬ s.Accepted a n → (s.contents a).Absent n

/-- When a write task ends, no frame of a request is left in its channel. -/
def Lossless (s : Broker (Frame φ)) (e : Event φ) : Prop :=
  ∀ t tunnel, Ends e t → s.tunnels[t]? = some tunnel → labels (s.channels t).waiting = []

theorem inCustody_init (capacity : Nat) : (labelled (φ := φ) capacity).init.InCustody where
  accepted := nofun
  others a n _ place := by
    cases place with
    | _ => exact List.not_mem_nil

/-- For the custody of frames a step passes frames on, accepts one, or loses the line of a channel. -/
inductive Custodial (s s' : Broker (Frame φ)) (e : Event φ) : Prop where
  | moves (hends : ∀ t, ¬ Ends e t) (hbooks : ∀ a, (s.contents a).Moved (s'.contents a))
      (haccepted : ∀ a n, s'.Accepted a n ↔ s.Accepted a n)
  | arrives (hends : ∀ t, ¬ Ends e t) (agentId : Uuid) (q : Place) (n : Nat) (hnew : ¬ s.Accepted agentId n)
      (hbooks : OneBook s s' agentId ((s.contents agentId).arrive q n))
      (haccepted : ∀ a m, s'.Accepted a m ↔ s.Accepted a m ∨ a = agentId ∧ m = n)
  | loses (t : Nat) (tunnel : Tunnel (Frame φ)) (hget : s.tunnels[t]? = some tunnel) (hends : Ends e t)
      (hbooks : OneBook s s' tunnel.agentId ((s.contents tunnel.agentId).clear (.channel t)))
      (haccepted : ∀ a n, s'.Accepted a n ↔ s.Accepted a n)

theorem Handover.custodial {e : Event φ} (h : Handover s s' e) : Custodial s s' e := by
  cases h with
  | quiet hends _ hbooks haccepted => exact .moves hends (fun a => .same (hbooks a)) haccepted
  | drain t agentId _ hbooks haccepted =>
      exact .moves nofun (hbooks.moved (.passAll .queue (.held t) nofun rfl)) haccepted
  | enqueue t agentId n rest _ _ _ hbooks haccepted =>
      exact .moves nofun (hbooks.moved (.pass (.held t) (.channel t) nofun rfl)) haccepted
  | write t agentId n rest _ hbooks haccepted =>
      exact .moves nofun (hbooks.moved (.pass (.channel t) (.written t) nofun rfl)) haccepted
  | live p t agentId hnew _ _ hbooks haccepted =>
      exact .arrives nofun agentId (.channel t) p (hnew.not_accepted agentId) hbooks haccepted
  | queued p agentId hnew hbooks haccepted =>
      exact .arrives nofun agentId .queue p (hnew.not_accepted agentId) hbooks haccepted
  | lose t tunnel hget hends hbooks haccepted => exact .loses t tunnel hget hends hbooks haccepted

/-- A frame that is not accepted is nowhere, whatever is lost. -/
theorem Custodial.others {e : Event φ} (hstep : Custodial s s' e)
    (h : ∀ a n, ¬ s.Accepted a n → (s.contents a).Absent n) (a : Uuid) (n : Nat) (hnot : ¬ s'.Accepted a n) :
    (s'.contents a).Absent n := by
  cases hstep with
  | moves _ hbooks haccepted =>
      rw [haccepted] at hnot
      exact (h a n hnot).moved (hbooks a)
  | arrives _ agentId q m _ hbooks haccepted =>
      rw [haccepted, not_or] at hnot
      rw [hbooks a]
      split_ifs with ha
      · subst ha
        exact (h a n hnot.1).of_count (Custody.Ledger.count_arrive_ne fun hm => hnot.2 ⟨rfl, hm.symm⟩)
      · exact h a n hnot.1
  | loses t tunnel _ _ hbooks haccepted =>
      rw [haccepted] at hnot
      rw [hbooks a]
      split_ifs with ha
      · subst ha
        exact (h _ n hnot).clear _
      · exact h a n hnot

/-- After a step every accepted frame is still at one place exactly if none was left behind. -/
theorem Custodial.accepted_iff {e : Event φ} (hstep : Custodial s s' e) (h : s.InCustody) :
    (∀ a n, s'.Accepted a n → (s'.contents a).Once n) ↔ s.Lossless e := by
  cases hstep with
  | moves hends hbooks haccepted =>
      refine iff_of_true (fun a n haccept => ?_) fun t _ he => absurd he (hends t)
      rw [haccepted] at haccept
      exact (h.accepted a n haccept).moved (hbooks a)
  | arrives hends agentId q m hnew hbooks haccepted =>
      refine iff_of_true (fun a n haccept => ?_) fun t _ he => absurd he (hends t)
      rw [hbooks a]
      rcases (haccepted a n).mp haccept with hold | ⟨rfl, rfl⟩
      · split_ifs with ha
        · subst ha
          have hne : m ≠ n := fun hm => hnew (hm ▸ hold)
          exact (h.accepted a n hold).of_count (Custody.Ledger.count_arrive_ne hne)
        · exact h.accepted a n hold
      · rw [if_pos rfl]
        exact (h.others a n hnew).arrive_self q
  | loses t tunnel hget hends hbooks haccepted =>
      have hchannel := contents_channel hget
      constructor
      · intro hkept t' other hends' hget'
        obtain rfl : t = t' := by cases hends <;> cases hends' <;> rfl
        rw [← hchannel, List.eq_nil_iff_forall_not_mem]
        intro n hn
        -- what waits in the channel was accepted, and would have to be at one place still
        have haccept : s.Accepted tunnel.agentId n := by
          by_contra hnot
          exact h.others _ n hnot _ hn
        have honce := hkept tunnel.agentId n ((haccepted _ n).mpr haccept)
        rw [hbooks tunnel.agentId, if_pos rfl] at honce
        exact ((h.accepted _ n haccept).clear_iff _).mp honce hn
      · intro hlossless a n haccept
        rw [haccepted] at haccept
        rw [hbooks a]
        split_ifs with ha
        · subst ha
          refine ((h.accepted _ n haccept).clear_iff _).mpr ?_
          rw [hchannel, hlossless t tunnel hends hget]
          exact List.not_mem_nil
        · exact h.accepted a n haccept

theorem inCustody_step {e : Event φ} (hconsistent : s.Consistent) (hstep : s.step (s.label e) = some s')
    (hlossless : s.Lossless e) (h : s.InCustody) : s'.InCustody :=
  have hcustodial := (handover_of_step hconsistent hstep).custodial
  ⟨(hcustodial.accepted_iff h).mpr hlossless, hcustodial.others h.others⟩

/-- Every accepted frame is at exactly one place of its agent, after every step of a run, if and only if no
write task of the run ends with the frame of a request in its channel. -/
theorem accepted_at_one_place_iff (capacity : Nat) (es : List (Event φ)) :
    (labelled capacity).EveryStep (fun _ _ s' => ∀ a n, s'.Accepted a n → (s'.contents a).Once n)
        (labelled capacity).init es ↔
      (labelled capacity).EveryStep (fun s e _ => s.Lossless e) (labelled capacity).init es := by
  refine (labelled capacity).everyStep_congr (I := fun s => s.Consistent ∧ s.InCustody) ?_ ?_
    ⟨consistent_init capacity, inCustody_init capacity⟩ es
  · intro s e s' hstep h
    exact (handover_of_step h.1 hstep).custodial.accepted_iff h.2
  · intro s e s' hstep h hlossless
    exact ⟨consistent_step hstep h.1, inCustody_step h.1 hstep hlossless h.2⟩

/-! ### Never at two places -/

/-- What is lost is nowhere from then on; no frame is ever at two places. -/
theorem Custodial.once_or_absent {e : Event φ} (hstep : Custodial s s' e)
    (hothers : ∀ a n, ¬ s.Accepted a n → (s.contents a).Absent n)
    (h : ∀ a n, (s.contents a).Once n ∨ (s.contents a).Absent n) (a : Uuid) (n : Nat) :
    (s'.contents a).Once n ∨ (s'.contents a).Absent n := by
  cases hstep with
  | moves _ hbooks _ => exact (h a n).imp (·.moved (hbooks a)) (·.moved (hbooks a))
  | arrives _ agentId q m hnew hbooks _ =>
      rw [hbooks a]
      split_ifs with ha
      · subst ha
        by_cases hm : m = n
        · subst hm
          exact .inl ((hothers a m hnew).arrive_self q)
        · have hcount := @Custody.Ledger.count_arrive_ne _ _ (s.contents a) q n m _ _ hm
          exact (h a n).imp (·.of_count hcount) (·.of_count hcount)
      · exact h a n
  | loses t tunnel _ _ hbooks _ =>
      rw [hbooks a]
      split_ifs with ha
      · subst ha
        rcases h tunnel.agentId n with honce | habsent
        · exact honce.clear _
        · exact .inr (habsent.clear _)
      · exact h a n

/-- In every run, whatever fails, the frame of a request is at one place of an agent or at none. -/
theorem never_at_two_places {capacity : Nat} {es : List (Event φ)}
    (hrun : (labelled capacity).run (labelled capacity).init es = some s) (a : Uuid) (n : Nat) :
    (s.contents a).Once n ∨ (s.contents a).Absent n := by
  have hall := (labelled capacity).run_invariant (I := fun s : Broker (Frame φ) =>
      s.Consistent ∧ (∀ a n, ¬ s.Accepted a n → (s.contents a).Absent n) ∧
        ∀ a n, (s.contents a).Once n ∨ (s.contents a).Absent n) ?_ hrun
    ⟨consistent_init capacity, (inCustody_init capacity).others,
      fun a n => .inr ((inCustody_init capacity).others a n nofun)⟩
  · exact hall.2.2 a n
  · intro s e s' hstep h
    have hcustodial := (handover_of_step h.1 hstep).custodial
    exact ⟨consistent_step hstep h.1, hcustodial.others h.2.1, hcustodial.once_or_absent h.2.1 h.2.2⟩

/-- A frame is accepted live, and the write task of its tunnel fails before it takes the frame. -/
private def failsAfterLive : List (Event String) :=
  [.connect 7 ⟨7, "agent", none, 60, "overacp"⟩, .acquire 0 0, .drain 0, .enqueue 0, .post 7 "hi",
    .deliver 0, .writeFails 0]

/-- The frame of an accepted request is at none of its places. -/
theorem accepted_frame_lost :
    ¬ ∀ (es : List (Event String)) (s : Broker (Frame String)),
      (labelled defaultPerAgentCapacity).run (labelled defaultPerAgentCapacity).init es = some s →
        ∀ a n, s.Accepted a n → (s.contents a).Once n := by
  intro h
  refine (h failsAfterLive _ rfl 7 0 ⟨_, .live, rfl, rfl, rfl⟩).not_absent fun place => ?_
  cases place with
  | written t | channel t | held t =>
      cases t with
      | zero => decide
      | succ t => exact List.not_mem_nil
  | queue => decide

end Broker

end Overacp
