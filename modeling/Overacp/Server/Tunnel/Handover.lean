import Overacp.Server.Tunnel.Erasure

/-!
# What a step hands over

Every step hands at most one line of frames on: a drain takes the queue, an enqueue and a write take the
head of a line, a live delivery and a push bring the frame of a request that is accepted by it, and the end
of a write task loses what waits in its channel.
-/

namespace Overacp

namespace Broker

variable {φ : Type} {s s' : Broker (Frame φ)}

/-! ### Which requests are accepted -/

/-- The request of the agent is not answered yet. -/
def UnderWay (s : Broker (Frame φ)) (agentId : Uuid) (p : Nat) : Prop :=
  ∃ post frame, s.posts[p]? = some post ∧ post.agentId = agentId ∧ post.at_.carried = some frame

theorem UnderWay.not_accepted {agentId : Uuid} {p : Nat} (h : s.UnderWay agentId p) (a : Uuid) :
    ¬ s.Accepted a p := by
  obtain ⟨post, frame, hget, _, hcarried⟩ := h
  rintro ⟨other, delivery, hother, _, hanswered⟩
  obtain rfl : post = other := Option.some.inj (hget.symm.trans hother)
  rw [hanswered] at hcarried
  cases hcarried

theorem accepted_movePost {p : Nat} {post : Post (Frame φ)} {frame : Frame φ} {at_ : PostAt (Frame φ)}
    (hget : s.posts[p]? = some post) (hcarried : post.at_.carried = some frame)
    (hposts : s'.posts = s.posts.set p { post with at_ := at_ }) (agentId : Uuid) (n : Nat) :
    s'.Accepted agentId n ↔
      s.Accepted agentId n ∨ agentId = post.agentId ∧ n = p ∧ ∃ delivery, at_ = .answered (.ok delivery) := by
  have hlt : p < s.posts.length := (List.getElem?_eq_some_iff.mp hget).1
  by_cases hn : n = p
  · subst hn
    have hnot : ¬ s.Accepted agentId n := UnderWay.not_accepted ⟨post, frame, hget, rfl, hcarried⟩ agentId
    rw [or_iff_right hnot, Accepted, hposts, List.getElem?_set_self hlt]
    constructor
    · rintro ⟨other, delivery, hother, howner, hanswered⟩
      cases hother
      exact ⟨howner.symm, rfl, delivery, hanswered⟩
    · rintro ⟨howner, _, delivery, hanswered⟩
      exact ⟨_, delivery, rfl, howner.symm, hanswered⟩
  · rw [Accepted, Accepted, hposts, List.getElem?_set_ne (Ne.symm hn)]
    refine (or_iff_left ?_).symm
    rintro ⟨_, hp, _⟩
    exact hn hp

theorem accepted_post (agentId : Uuid) (frame : Frame φ) (a : Uuid) (n : Nat) :
    ({ s with posts := s.posts ++ [⟨agentId, .delivering frame⟩] } : Broker (Frame φ)).Accepted a n ↔
      s.Accepted a n := by
  constructor
  · rintro ⟨post, delivery, hget, howner, hanswered⟩
    rcases Slots.of_getElem?_concat hget with ⟨-, rfl⟩ | ⟨-, hold⟩
    · cases hanswered
    · exact ⟨post, delivery, hold, howner, hanswered⟩
  · rintro ⟨post, delivery, hget, howner, hanswered⟩
    exact ⟨post, delivery, Slots.getElem?_concat_of_some hget, howner, hanswered⟩

/-! ### The handover of a step -/

/-- The tunnel's write task ends, on a socket error or with the tunnel. -/
inductive Ends : Event φ → Nat → Prop where
  | writeFails (t : Nat) : Ends (.writeFails t) t
  | abort (t : Nat) : Ends (.abort t) t

/-- The event puts the frame of the request into a channel of the agent. -/
inductive Sends (s : Broker (Frame φ)) : Event φ → Uuid → Nat → Prop where
  | live {p : Nat} {post : Post (Frame φ)} {frame : Frame φ} {entry : Arc AgentEntry}
      (hget : s.posts[p]? = some post) (hat : post.at_ = .delivering frame)
      (hentry : s.registry.get post.agentId = some entry) (hopen : (s.channels entry.val.tx).isOpen = true) :
      Sends s (.deliver p) post.agentId p
  | drained {t : Nat} {tunnel : Tunnel (Frame φ)} {n : Nat} (hget : s.tunnels[t]? = some tunnel)
      (hhead : (s.contents tunnel.agentId (.held t)).head? = some n) :
      Sends s (.enqueue t) tunnel.agentId n

/-- The books of one agent change, and of no other. -/
def OneBook (s s' : Broker (Frame φ)) (agentId : Uuid) (books : Custody.Ledger Place Nat) : Prop :=
  ∀ a, s'.contents a = if a = agentId then books else s.contents a

/-- What a step does to the books of the agents, and to the requests that are accepted. -/
inductive Handover (s s' : Broker (Frame φ)) : Event φ → Prop where
  | quiet {e : Event φ} (hends : ∀ t, ¬ Ends e t) (hsends : ∀ a n, ¬ s.Sends e a n)
      (hbooks : ∀ a, s'.contents a = s.contents a) (haccepted : ∀ a n, s'.Accepted a n ↔ s.Accepted a n) :
      Handover s s' e
  | drain (t : Nat) (agentId : Uuid) (hempty : s.contents agentId (.held t) = [])
      (hbooks : OneBook s s' agentId ((s.contents agentId).passAll .queue (.held t)))
      (haccepted : ∀ a n, s'.Accepted a n ↔ s.Accepted a n) : Handover s s' (.drain t)
  | enqueue (t : Nat) (agentId : Uuid) (n : Nat) (rest : List Nat) (hsends : s.Sends (.enqueue t) agentId n)
      (honly : ∀ a m, s.Sends (.enqueue t) a m → a = agentId ∧ m = n)
      (hhead : s.contents agentId (.held t) = n :: rest)
      (hbooks : OneBook s s' agentId ((s.contents agentId).pass (.held t) (.channel t)))
      (haccepted : ∀ a m, s'.Accepted a m ↔ s.Accepted a m) : Handover s s' (.enqueue t)
  | write (t : Nat) (agentId : Uuid) (n : Nat) (rest : List Nat)
      (hhead : s.contents agentId (.channel t) = n :: rest)
      (hbooks : OneBook s s' agentId ((s.contents agentId).pass (.channel t) (.written t)))
      (haccepted : ∀ a m, s'.Accepted a m ↔ s.Accepted a m) : Handover s s' (.write t)
  | live (p t : Nat) (agentId : Uuid) (hnew : s.UnderWay agentId p) (hsends : s.Sends (.deliver p) agentId p)
      (honly : ∀ a m, s.Sends (.deliver p) a m → a = agentId ∧ m = p)
      (hbooks : OneBook s s' agentId ((s.contents agentId).arrive (.channel t) p))
      (haccepted : ∀ a m, s'.Accepted a m ↔ s.Accepted a m ∨ a = agentId ∧ m = p) :
      Handover s s' (.deliver p)
  | queued (p : Nat) (agentId : Uuid) (hnew : s.UnderWay agentId p)
      (hbooks : OneBook s s' agentId ((s.contents agentId).arrive .queue p))
      (haccepted : ∀ a m, s'.Accepted a m ↔ s.Accepted a m ∨ a = agentId ∧ m = p) : Handover s s' (.push p)
  | lose {e : Event φ} (t : Nat) (tunnel : Tunnel (Frame φ)) (hget : s.tunnels[t]? = some tunnel)
      (hends : Ends e t)
      (hbooks : OneBook s s' tunnel.agentId ((s.contents tunnel.agentId).clear (.channel t)))
      (haccepted : ∀ a n, s'.Accepted a n ↔ s.Accepted a n) : Handover s s' e

/-- Apart from what is accepted by a step, and from what is lost, frames are only passed on. -/
theorem OneBook.moved {agentId : Uuid} {books : Custody.Ledger Place Nat} (h : OneBook s s' agentId books)
    (hmoved : (s.contents agentId).Moved books) (a : Uuid) : (s.contents a).Moved (s'.contents a) := by
  rw [h a]
  split_ifs with ha
  · rw [ha]
    exact hmoved
  · exact .same rfl

theorem handover_of_step {e : Event φ} (h : s.Consistent) (hstep : s.step (s.label e) = some s') :
    Handover s s' e := by
  have htaken := taken_of_step hstep
  cases e with
  | connect agentId claims =>
      cases htaken with
      | connect =>
          exact .quiet (fun _ h => by cases h) (fun _ _ h => by cases h) (contents_connect agentId claims)
            fun _ _ => Iff.rfl
  | acquire t now =>
      cases htaken with
      | acquire _ hget hat =>
          refine .quiet (fun _ h => by cases h) (fun _ _ h => by cases h) ?_ fun _ _ => Iff.rfl
          exact contents_same hget rfl rfl (fun _ _ => rfl) rfl rfl rfl (by rw [hat]; rfl)
  | drain t =>
      cases htaken with
      | @drain _ tunnel hget hat =>
          refine .drain t tunnel.agentId ?_ (contents_drain hget hat) fun _ _ => Iff.rfl
          rw [contents_held hget, hat]
          rfl
  | enqueue t =>
      cases htaken with
      | @serve _ tunnel hget hat =>
          refine .quiet (fun _ h => by cases h) ?_ ?_ fun _ _ => Iff.rfl
          · rintro a n (_ | ⟨hget', hhead⟩)
            cases hget.symm.trans hget'
            rw [contents_held hget, hat] at hhead
            cases hhead
          · exact contents_same hget rfl rfl (fun _ _ => rfl) rfl rfl rfl (by rw [hat]; rfl)
      | @enqueue _ tunnel frame buffered hget hat =>
          have hopen := h.openUntilLaunched t tunnel hget (by rw [hat]; rfl)
          obtain ⟨n, hpost⟩ := Option.ne_none_iff_exists'.mp
            (h.buffered t tunnel hget frame (by rw [hat]; exact List.mem_cons_self))
          have hhead : s.contents tunnel.agentId (.held t) = n :: labels buffered := by
            rw [contents_held hget, hat]
            simp only [TunnelAt.buffered, labels, List.filterMap_cons, hpost]
          refine .enqueue t tunnel.agentId n (labels buffered) (.drained hget (by rw [hhead]; rfl)) ?_ hhead
            (contents_enqueue hget hat hpost hopen) fun _ _ => Iff.rfl
          rintro a m (_ | ⟨hget', hhead'⟩)
          cases hget.symm.trans hget'
          rw [hhead] at hhead'
          exact ⟨rfl, (Option.some.inj hhead').symm⟩
  | write t =>
      cases htaken with
      | @write _ tunnel frame channels hget hat hrecv =>
          have hopen := h.clean.isOpen_of_recv hrecv
          have hbooks := contents_write hget hrecv hopen
          cases hpost : frame.post with
          | none =>
              refine .quiet (fun _ h => by cases h) (fun _ _ h => by cases h) (fun a => ?_) fun _ _ => Iff.rfl
              rw [hbooks a, if_pos hpost]
              split
              · rename_i ha
                rw [ha]
              · rfl
          | some n =>
              refine .write t tunnel.agentId n (labels (channels t).waiting) ?_ (fun a => ?_) fun _ _ => Iff.rfl
              · obtain ⟨hqueue, hopen', _⟩ := Channels.recv_eq_some hrecv
                rw [contents_channel hget, Channel.waiting, Channel.waiting, hopen', if_pos hopen, if_pos hopen,
                  hqueue]
                simp only [labels, List.filterMap_cons, hpost]
              · rw [hbooks a, hpost, if_neg (Option.some_ne_none n)]
  | writeFails t =>
      cases htaken with
      | @writeFails _ tunnel hget hat =>
          exact .lose t tunnel hget (.writeFails t)
            (contents_closeChannel hget (tunnels_eq_set hget) rfl rfl rfl rfl rfl) fun _ _ => Iff.rfl
  | respond t frame =>
      cases htaken with
      | respond _ hget hat =>
          exact .quiet (fun _ h => by cases h) (fun _ _ h => by cases h) (contents_respond hget rfl)
            fun _ _ => Iff.rfl
  | close t now =>
      cases htaken with
      | close _ hget hat =>
          refine .quiet (fun _ h => by cases h) (fun _ _ h => by cases h) ?_ fun _ _ => Iff.rfl
          exact contents_same hget rfl rfl (fun _ _ => rfl) rfl rfl rfl (by rw [hat]; rfl)
  | abort t =>
      cases htaken with
      | @abort _ tunnel hget hat =>
          exact .lose t tunnel hget (.abort t)
            (contents_closeChannel hget rfl rfl rfl rfl rfl (by rw [hat]; rfl)) fun _ _ => Iff.rfl
  | post agentId frame =>
      cases htaken with
      | post =>
          exact .quiet (fun _ h => by cases h) (fun _ _ h => by cases h)
            (fun a => contents_queue_congr (fun _ => rfl) _ a)
            (accepted_post agentId ⟨frame, some s.posts.length⟩)
  | deliver p =>
      cases htaken with
      | @deliverLive _ post frame entry hget hat hentry hopen =>
          have hcarried : post.at_.carried = some frame := by rw [hat]; rfl
          obtain ⟨tunnel, htunnel, howner, _⟩ := h.routed post.agentId entry hentry
          refine .live p entry.val.tx post.agentId ⟨post, frame, hget, rfl, hcarried⟩
            (.live hget hat hentry hopen) ?_ ?_ fun a n => ?_
          · rintro a m (⟨hget', _, _, _⟩ | _)
            cases hget.symm.trans hget'
            exact ⟨rfl, rfl⟩
          · rw [← howner]
            exact contents_sent htunnel (h.posted p post hget frame hcarried) hopen _
          · rw [accepted_movePost hget hcarried rfl]
            exact or_congr_right (and_congr_right fun _ => and_iff_left ⟨_, rfl⟩)
      | @deliverNone _ post frame hget hat hnone =>
          have hcarried : post.at_.carried = some frame := by rw [hat]; rfl
          refine .quiet (fun _ h => by cases h) ?_ (fun a => contents_queue_congr (fun _ => rfl) _ a)
            fun a n => ?_
          · rintro a m (⟨hget', _, hentry, hopen⟩ | _)
            cases hget.symm.trans hget'
            rw [hnone _ hentry] at hopen
            cases hopen
          · rw [accepted_movePost hget hcarried rfl]
            refine or_iff_left ?_
            rintro ⟨_, _, _, hanswered⟩
            cases hanswered
  | push p =>
      cases htaken with
      | @pushed _ post frame queue hget hat hpush =>
          have hcarried : post.at_.carried = some frame := by rw [hat]; rfl
          refine .queued p post.agentId ⟨post, frame, hget, rfl, hcarried⟩ ?_ fun a n => ?_
          · exact contents_push (h.posted p post hget frame hcarried) hpush _
          · rw [accepted_movePost hget hcarried rfl]
            exact or_congr_right (and_congr_right fun _ => and_iff_left ⟨_, rfl⟩)
      | @refused _ post frame err queue hget hat hpush =>
          have hcarried : post.at_.carried = some frame := by rw [hat]; rfl
          refine .quiet (fun _ h => by cases h) (fun _ _ h => by cases h) (fun a => ?_) fun a n => ?_
          · exact contents_queue_congr (InMemoryMessageQueue.buffer_of_push_error hpush) _ a
          · rw [accepted_movePost hget hcarried rfl]
            refine or_iff_left ?_
            rintro ⟨_, _, _, hanswered⟩
            cases hanswered
  | disconnect agentId now =>
      cases htaken with
      | disconnect =>
          refine .quiet (fun _ h => by cases h) (fun _ _ h => by cases h) (fun a => ?_) fun a n => ?_
          · unfold disconnectAgent
            split <;> rfl
          · unfold disconnectAgent
            split <;> exact Iff.rfl

end Broker

end Overacp
