import Overacp.Lib.CustodyOrder
import Overacp.Server.Tunnel.Custody

/-!
# The order in which frames reach a channel

When the requests to an agent are made one after the other, the number of a request says when it was
accepted. The frames of an agent are on their way from its queue over the drained frames of a tunnel and its
channel to its socket, but a live delivery goes into the channel at once. So they reach the channels in the
order in which they were accepted as long as nothing older is left behind when one goes in.
-/

namespace Overacp

namespace Broker

variable {φ : Type} {s s' : Broker (Frame φ)}

/-- The frame has been put into the channel of a tunnel. -/
def Place.reached : Place → Bool
  | .written _ | .channel _ => true
  | .held _ | .queue => false

/-- The frames at the first place are further on their way than those at the second. -/
inductive Ahead : Place → Place → Prop where
  | channel (t : Nat) : Ahead (.written t) (.channel t)
  | queue (t : Nat) : Ahead (.held t) .queue
  | waits {p q : Place} (hp : p.reached = true) (hq : q.reached = false) : Ahead p q

/-! ### Requests one after the other -/

/-- A request to an agent is made when the earlier requests to it are answered. -/
def Sequential (s : Broker (Frame φ)) : Event φ → Prop
  | .post agentId _ => ∀ post ∈ s.posts, post.agentId = agentId → post.at_.carried.isNone = true
  | _ => True

instance (s : Broker (Frame φ)) (e : Event φ) : Decidable (s.Sequential e) :=
  match e with
  | .post agentId _ =>
      inferInstanceAs (Decidable (∀ post ∈ s.posts, post.agentId = agentId → post.at_.carried.isNone = true))
  | .connect .. | .acquire .. | .drain .. | .enqueue .. | .write .. | .writeFails .. | .respond .. | .close ..
  | .abort .. | .deliver .. | .push .. | .disconnect .. => .isTrue trivial

/-- A request that is not answered is the last one to its agent. -/
def LastUnderWay (s : Broker (Frame φ)) : Prop :=
  ∀ a p, s.UnderWay a p → ∀ n post, s.posts[n]? = some post → post.agentId = a → n ≤ p

/-- What a step does to the requests: one goes on, or one is made. -/
theorem posts_step {ψ : Type} {r r' : Broker ψ} {e : Event ψ} (htaken : r.Taken e r') :
    r'.posts = r.posts ∨
      (∃ p post at_, r.posts[p]? = some post ∧ post.at_.carried ≠ none ∧
        r'.posts = r.posts.set p { post with at_ := at_ }) ∨
      ∃ agentId frame, e = .post agentId frame ∧ r'.posts = r.posts ++ [⟨agentId, .delivering frame⟩] := by
  cases htaken with
  | post agentId frame => exact .inr (.inr ⟨agentId, frame, rfl, rfl⟩)
  | deliverLive hget hat | deliverNone hget hat | pushed hget hat | refused hget hat =>
      refine .inr (.inl ⟨_, _, _, hget, ?_, rfl⟩)
      rw [hat]
      exact Option.some_ne_none _
  | disconnect agentId now =>
      left
      unfold disconnectAgent
      split <;> rfl
  | _ => exact .inl rfl

theorem lastUnderWay_step {e : Event φ} (hstep : s.step (s.label e) = some s') (hsequential : s.Sequential e)
    (h : s.LastUnderWay) : s'.LastUnderWay := by
  rintro a p ⟨other, frame, hother, howner, hcarried⟩ n post hpost hagent
  rcases posts_step (taken_of_step hstep) with hsame | ⟨q, moved, at_, hget, hopen, hset⟩ | ⟨b, new, he, happend⟩
  · rw [hsame] at hother hpost
    exact h a p ⟨other, frame, hother, howner, hcarried⟩ n post hpost hagent
  · -- what was not answered after the step was not answered before it
    have hbefore : s.UnderWay a p := by
      rw [hset] at hother
      rcases Slots.of_getElem?_set hother with ⟨rfl, rfl⟩ | ⟨-, hold⟩
      · obtain ⟨old, hold⟩ := Option.ne_none_iff_exists'.mp hopen
        exact ⟨moved, old, hget, howner, hold⟩
      · exact ⟨other, frame, hold, howner, hcarried⟩
    rw [hset] at hpost
    rcases Slots.of_getElem?_set hpost with ⟨rfl, rfl⟩ | ⟨-, hold⟩
    · exact h a p hbefore n moved hget hagent
    · exact h a p hbefore n post hold hagent
  · rw [happend] at hother hpost
    rcases Slots.of_getElem?_concat hpost with ⟨hn, hnew⟩ | ⟨hn, holdPost⟩
    · rcases Slots.of_getElem?_concat hother with ⟨hp, -⟩ | ⟨-, hold⟩
      · exact Nat.le_of_eq (hn.trans hp.symm)
      · -- a request was made while an earlier one to its agent was not answered
        rw [hnew] at hagent
        cases e with
        | post c body =>
            cases he
            have hanswered := hsequential other (List.mem_of_getElem? hold) (howner.trans hagent.symm)
            rw [hcarried] at hanswered
            cases hanswered
        | _ => cases he
    · rcases Slots.of_getElem?_concat hother with ⟨hp, -⟩ | ⟨-, hold⟩
      · omega
      · exact h a p ⟨other, frame, hold, howner, hcarried⟩ n post holdPost hagent

theorem lt_of_accepted_of_underWay (h : s.LastUnderWay) {a : Uuid} {n p : Nat} (haccepted : s.Accepted a n)
    (hunderWay : s.UnderWay a p) : n < p := by
  have hne : n ≠ p := by
    rintro rfl
    exact hunderWay.not_accepted a haccepted
  obtain ⟨post, _, hget, hagent, _⟩ := haccepted
  have hle := h a p hunderWay n post hget hagent
  omega

/-! ### What goes into a channel is the oldest -/

/-- A live delivery finds nothing of the agent in its queue or drained; a drained frame that goes into a
channel is older than what other tunnels of the agent have drained. -/
def InTurn (s : Broker (Frame φ)) : Event φ → Prop
  | .deliver p => ∀ agentId n, s.Sends (.deliver p) agentId n →
      s.contents agentId .queue = [] ∧ ∀ t, s.contents agentId (.held t) = []
  | .enqueue t => ∀ agentId n, s.Sends (.enqueue t) agentId n →
      ∀ r, r ≠ t → ∀ m ∈ s.contents agentId (.held r), n < m
  | _ => True

theorem inTurn_of_not_sends {e : Event φ} (h : ∀ a n, ¬ s.Sends e a n) : s.InTurn e := by
  cases e with
  | deliver p => exact fun a n hsends => absurd hsends (h a n)
  | enqueue t => exact fun a n hsends => absurd hsends (h a n)
  | _ => trivial

/-- The frames of every agent reach each channel in the order in which they were accepted, and none that has
reached a channel was accepted after one that has not. -/
def ReachInOrder (s : Broker (Frame φ)) : Prop :=
  ∀ a, (∀ t, (s.contents a (.written t) ++ s.contents a (.channel t)).Pairwise (· < ·)) ∧
    ∀ p q, p.reached = true → q.reached = false → ∀ n ∈ s.contents a p, ∀ m ∈ s.contents a q, n < m

/-- The lines of every agent are in order. -/
def Lined (s : Broker (Frame φ)) : Prop := ∀ a, (s.contents a).Ordered Ahead

theorem Lined.reachInOrder (h : s.Lined) : s.ReachInOrder := by
  intro a
  refine ⟨fun t => ?_, fun p q hp hq => (h a).ahead p q (.waits hp hq)⟩
  rw [List.pairwise_append]
  exact ⟨(h a).line _, (h a).line _, (h a).ahead _ _ (.channel t)⟩

theorem lined_init (capacity : Nat) : (labelled (φ := φ) capacity).init.Lined := by
  intro a
  have hempty : ∀ p, (labelled (φ := φ) capacity).init.contents a p = [] := fun p => by
    cases p <;> rfl
  refine ⟨fun p => ?_, fun p q _ x hx => ?_⟩
  · rw [hempty]
    exact List.Pairwise.nil
  · rw [hempty] at hx
    cases hx

/-- A change in one book leaves the lines of the other agents. -/
theorem OneBook.lined {agentId : Uuid} {books : Custody.Ledger Place Nat} (hbooks : OneBook s s' agentId books)
    (h : s.Lined) (hlined : books.Ordered Ahead) : s'.Lined := by
  intro a
  rw [hbooks a]
  split_ifs with ha
  · exact hlined
  · exact h a

section Step

variable {e : Event φ} (hother : ∀ a n, ¬ s.Accepted a n → (s.contents a).Absent n) (hlast : s.LastUnderWay)
include hother hlast

/-- What stands anywhere was accepted before the request that is under way. -/
theorem lt_of_underWay {a : Uuid} {n : Nat} (hunderWay : s.UnderWay a n) (p : Place) (m : Nat)
    (hm : m ∈ s.contents a p) : m < n := by
  have haccepted : s.Accepted a m := by
    by_contra hnot
    exact hother a m hnot p hm
  exact lt_of_accepted_of_underWay hlast haccepted hunderWay

theorem Handover.lined (hstep : Handover s s' e) (hturn : s.InTurn e) (h : s.Lined) : s'.Lined := by
  cases hstep with
  | quiet _ _ hbooks _ =>
      intro a
      rw [hbooks a]
      exact h a
  | drain t agentId hempty hbooks _ =>
      refine hbooks.lined h ((h agentId).passAll hempty ?_ ?_ nofun)
      · rintro r (_ | _ | ⟨hp, _⟩)
        exact .waits hp rfl
      · rintro r (_ | _ | ⟨hp, _⟩)
        · rfl
        · cases hp
  | enqueue t agentId n rest hsends _ hhead hbooks _ =>
      refine hbooks.lined h ((h agentId).pass hhead (.waits rfl rfl) ?_ ?_ ?_ ?_)
      · rintro (_ | _ | ⟨hp, _⟩)
        cases hp
      · rintro (_ | _ | ⟨_, hq⟩)
        cases hq
      · rintro r (_ | _ | ⟨_, hq⟩)
        · exact .waits rfl rfl
        · cases hq
      · rintro r hr (_ | _ | ⟨_, hq⟩) m hm
        cases r with
        | written | channel => cases hq
        | held r =>
            refine hturn agentId n hsends r ?_ m hm
            rintro rfl
            exact hr rfl
        | queue => exact (h agentId).ahead _ _ (.queue t) n (hhead ▸ List.mem_cons_self) m hm
  | write t agentId n rest hhead hbooks _ =>
      refine hbooks.lined h ((h agentId).pass hhead (.channel t) ?_ ?_ ?_ ?_)
      · rintro (_ | _ | ⟨_, hq⟩)
        cases hq
      · rintro (_ | _ | ⟨_, hq⟩)
        cases hq
      · rintro r (_ | _ | ⟨_, hq⟩)
        cases hq
      · rintro r hr (_ | _ | ⟨_, hq⟩) m hm
        · exact absurd rfl hr
        · exact (h agentId).ahead _ _ (.waits rfl hq) n (hhead ▸ List.mem_cons_self) m hm
  | live p t agentId hnew hsends _ hbooks _ =>
      obtain ⟨hqueue, hheld⟩ := hturn agentId p hsends
      refine hbooks.lined h ((h agentId).arrive ?_ (lt_of_underWay hother hlast hnew) ?_)
      · rintro (_ | _ | ⟨_, hq⟩)
        cases hq
      · rintro r (_ | _ | ⟨_, hq⟩)
        cases r with
        | written | channel => cases hq
        | held r => exact hheld r
        | queue => exact hqueue
  | queued p agentId hnew hbooks _ =>
      refine hbooks.lined h ((h agentId).arrive ?_ (lt_of_underWay hother hlast hnew) ?_)
      · rintro (_ | _ | ⟨hp, _⟩)
        cases hp
      · rintro r (_ | _ | ⟨hp, _⟩)
        cases hp
  | lose t tunnel _ _ hbooks _ => exact hbooks.lined h ((h _).clear _)

/-- Where the frames have reached the channels in order, what went in was the oldest. -/
theorem Handover.inTurn (hstep : Handover s s' e) (h : s'.ReachInOrder) : s.InTurn e := by
  cases hstep with
  | quiet _ hsends _ _ => exact inTurn_of_not_sends hsends
  | drain | write | queued => trivial
  | enqueue t agentId n rest _ honly hhead hbooks _ =>
      rintro a m hsends r hr k hk
      obtain ⟨rfl, rfl⟩ := honly a m hsends
      have hbook := hbooks a
      rw [if_pos rfl] at hbook
      refine (h a).2 (.channel t) (.held r) rfl rfl m ?_ k ?_
      · rw [hbook, Custody.Ledger.pass_apply hhead, if_pos rfl]
        exact List.mem_append_right _ (List.mem_singleton_self m)
      · rw [hbook, Custody.Ledger.pass_apply hhead, if_neg nofun, if_neg fun hheld => hr (Place.held.inj hheld)]
        exact hk
  | live p t agentId hnew _ honly hbooks _ =>
      rintro a m hsends
      obtain ⟨rfl, rfl⟩ := honly a m hsends
      have hbook := hbooks a
      rw [if_pos rfl] at hbook
      -- what stands behind came before the delivered frame, and would have to come after it
      have hbehind : ∀ q, q.reached = false → s.contents a q = [] := fun q hq => by
        rw [List.eq_nil_iff_forall_not_mem]
        intro k hk
        have hlt := lt_of_underWay hother hlast hnew q k hk
        have hgt := (h a).2 (.channel t) q rfl hq m ?_ k ?_
        · exact Nat.lt_asymm hlt hgt
        · rw [hbook, Custody.Ledger.arrive_apply, if_pos rfl]
          exact List.mem_append_right _ (List.mem_singleton_self m)
        · rw [hbook, Custody.Ledger.arrive_apply, if_neg]
          · exact hk
          · rintro rfl
            cases hq
      exact ⟨hbehind .queue rfl, fun r => hbehind (.held r) rfl⟩
  | lose t tunnel _ hends _ _ => cases hends <;> trivial

end Step

/-! ### Runs -/

/-- In every run with requests one after the other, the frames reach the channels in the order in which they
were accepted, if and only if every frame that goes into a channel is in turn. -/
theorem reach_in_order_iff (capacity : Nat) (es : List (Event φ))
    (hsequential : (labelled capacity).EveryStep (fun s e _ => s.Sequential e) (labelled capacity).init es) :
    (labelled capacity).EveryStep (fun _ _ s' => s'.ReachInOrder) (labelled capacity).init es ↔
      (labelled capacity).EveryStep (fun s e _ => s.InTurn e) (labelled capacity).init es := by
  refine (labelled capacity).everyStep_congr_of (I := fun s =>
    s.Consistent ∧ (∀ a n, ¬ s.Accepted a n → (s.contents a).Absent n) ∧ s.LastUnderWay ∧ s.Lined)
    ?_ ?_ ⟨consistent_init capacity, (inCustody_init capacity).others, nofun, lined_init capacity⟩ hsequential
  · rintro s e s' hstep ⟨hconsistent, hother, hlast, hlined⟩ _
    have hhandover := handover_of_step hconsistent hstep
    exact ⟨hhandover.inTurn hother hlast, fun hturn => (hhandover.lined hother hlast hturn hlined).reachInOrder⟩
  · rintro s e s' hstep ⟨hconsistent, hother, hlast, hlined⟩ hsequential hturn
    have hhandover := handover_of_step hconsistent hstep
    exact ⟨consistent_step hstep hconsistent, hhandover.custodial.others hother,
      lastUnderWay_step hstep hsequential hlast, hhandover.lined hother hlast hturn hlined⟩

/-- A request is queued, its frame drained into the channel of the next tunnel, and a second one delivered
live behind it. -/
private def queuedThenLive : List (Event String) :=
  [.post 7 "a", .deliver 0, .push 0, .connect 7 ⟨7, "agent", none, 60, "overacp"⟩, .acquire 0 0, .drain 0,
    .enqueue 0, .post 7 "b", .deliver 1]

theorem queued_then_live_in_order :
    (labelled defaultPerAgentCapacity).EveryStep (fun _ _ s' => s'.ReachInOrder)
      (labelled defaultPerAgentCapacity).init queuedThenLive := by
  refine (reach_in_order_iff defaultPerAgentCapacity queuedThenLive (by decide)).mpr ?_
  refine Transition.System.everyStep_of_step rfl trivial ?_
  refine Transition.System.everyStep_of_step rfl ?_ ?_
  · rintro agentId n ⟨hget, _, hentry, _⟩
    cases hget
    cases hentry
  refine Transition.System.everyStep_of_step rfl trivial ?_
  refine Transition.System.everyStep_of_step rfl trivial ?_
  refine Transition.System.everyStep_of_step rfl trivial ?_
  refine Transition.System.everyStep_of_step rfl trivial ?_
  refine Transition.System.everyStep_of_step rfl ?_ ?_
  · rintro agentId n ⟨hget, _⟩ r hr m hm
    cases r with
    | zero => exact absurd rfl hr
    | succ r => cases hm
  refine Transition.System.everyStep_of_step rfl trivial ?_
  refine Transition.System.everyStep_of_step rfl ?_ trivial
  rintro agentId n ⟨hget, _, _, _⟩
  cases hget
  refine ⟨rfl, fun t => ?_⟩
  cases t with
  | zero => rfl
  | succ t => rfl

/-- A request is queued, a tunnel is acquired, and a second request is delivered live before the drain. -/
private def liveBeforeDrain : List (Event String) :=
  [.post 7 "a", .deliver 0, .push 0, .connect 7 ⟨7, "agent", none, 60, "overacp"⟩, .acquire 0 0, .post 7 "b",
    .deliver 1]

/-- The frame that is accepted live is in the channel while the one that was queued before it waits. -/
theorem live_overtakes_queued :
    ¬ ∀ (es : List (Event String)) (s : Broker (Frame String)),
      (labelled defaultPerAgentCapacity).EveryStep (fun s e _ => s.Sequential e)
          (labelled defaultPerAgentCapacity).init es →
        (labelled defaultPerAgentCapacity).run (labelled defaultPerAgentCapacity).init es = some s →
          s.ReachInOrder := by
  intro h
  have hlt := (h liveBeforeDrain _ (by decide) rfl 7).2 (.channel 0) .queue rfl rfl 1 (by decide) 0 (by decide)
  exact absurd hlt (by decide)

end Broker

end Overacp
