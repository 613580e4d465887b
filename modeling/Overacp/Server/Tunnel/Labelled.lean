import Overacp.Lib.Custody
import Overacp.Server.Tunnel.Stranded

/-!
# Frames that carry their request

The broker passes frames on without looking into them. Here every frame of a `send_message` request carries
the number of that request, and a response carries none; so it can be said where the frame of a request is.
The frames of an agent stand at four kinds of places: written to one of its sockets, waiting in the channel
of one of its tunnels, drained and still held by `run_tunnel`, and in its queue.
-/

namespace Overacp

/-- A frame, and the request it was posted by. -/
structure Frame (φ : Type) where
  body : φ
  post : Option Nat
  deriving DecidableEq, Repr

/-- The requests whose frames these are. -/
def labels {φ : Type} (frames : List (Frame φ)) : List Nat := frames.filterMap Frame.post

namespace TunnelAt

/-- The drained frames that are not in the channel yet. -/
def buffered {φ : Type} : TunnelAt φ → List φ
  | .draining frames => frames
  | _ => []

/-- The write task has been spawned. -/
def launched {φ : Type} : TunnelAt φ → Bool
  | .serving | .leaving | .ended => true
  | _ => false

end TunnelAt

/-- The frame of a request that is not answered. -/
def PostAt.carried {φ : Type} : PostAt φ → Option φ
  | .delivering frame | .pushing frame => some frame
  | .answered _ => none

namespace Broker

variable {φ : Type}

/-- The frame of a request gets its number, and a response gets none. -/
def label (s : Broker (Frame φ)) : Event φ → Event (Frame φ)
  | .connect agentId claims => .connect agentId claims
  | .acquire t now => .acquire t now
  | .drain t => .drain t
  | .enqueue t => .enqueue t
  | .write t => .write t
  | .writeFails t => .writeFails t
  | .respond t frame => .respond t ⟨frame, none⟩
  | .close t now => .close t now
  | .abort t => .abort t
  | .post agentId frame => .post agentId ⟨frame, some s.posts.length⟩
  | .deliver p => .deliver p
  | .push p => .push p
  | .disconnect agentId now => .disconnect agentId now

def labelled (capacity : Nat) : Transition.System (Broker (Frame φ)) (Event φ) where
  init := (system capacity).init
  step s e := s.step (s.label e)

/-! ### The places of an agent -/

inductive Place where
  | written (tunnel : Nat)
  | channel (tunnel : Nat)
  | held (tunnel : Nat)
  | queue
  deriving DecidableEq, Repr

/-- What the tunnel has of the agent's frames; nothing where it is another agent's. -/
def inTunnel (s : Broker (Frame φ)) (agentId : Uuid) (t : Nat)
    (frames : Tunnel (Frame φ) → List (Frame φ)) : List Nat :=
  match s.tunnels[t]? with
  | some tunnel => if tunnel.agentId = agentId then labels (frames tunnel) else []
  | none => []

/-- The requests whose frames stand at each place of the agent, oldest first. -/
def contents (s : Broker (Frame φ)) (agentId : Uuid) : Custody.Ledger Place Nat
  | .written t => s.inTunnel agentId t Tunnel.written
  | .channel t => s.inTunnel agentId t fun _ => (s.channels t).waiting
  | .held t => s.inTunnel agentId t fun tunnel => tunnel.at_.buffered
  | .queue => labels (s.messageQueue.buffer agentId)

/-- The request of the agent was answered 202. -/
def Accepted (s : Broker (Frame φ)) (agentId : Uuid) (n : Nat) : Prop :=
  ∃ post delivery, s.posts[n]? = some post ∧ post.agentId = agentId ∧ post.at_ = .answered (.ok delivery)

variable {s s' : Broker (Frame φ)}

/-! ### What changes with a tunnel -/

theorem inTunnel_of_get {t : Nat} {tunnel : Tunnel (Frame φ)} (hget : s.tunnels[t]? = some tunnel)
    (agentId : Uuid) (frames : Tunnel (Frame φ) → List (Frame φ)) :
    s.inTunnel agentId t frames = if tunnel.agentId = agentId then labels (frames tunnel) else [] := by
  rw [inTunnel, hget]

theorem inTunnel_congr {t : Nat} (hget : s'.tunnels[t]? = s.tunnels[t]?) (agentId : Uuid)
    (frames : Tunnel (Frame φ) → List (Frame φ)) :
    s'.inTunnel agentId t frames = s.inTunnel agentId t frames := by
  rw [inTunnel, inTunnel, hget]

section OneTunnel

variable {t : Nat} {tunnel : Tunnel (Frame φ)} (hget : s.tunnels[t]? = some tunnel)
include hget

theorem contents_written : s.contents tunnel.agentId (.written t) = labels tunnel.written := by
  simp only [contents, inTunnel_of_get hget, ↓reduceIte]

theorem contents_channel : s.contents tunnel.agentId (.channel t) = labels (s.channels t).waiting := by
  simp only [contents, inTunnel_of_get hget, ↓reduceIte]

theorem contents_held : s.contents tunnel.agentId (.held t) = labels tunnel.at_.buffered := by
  simp only [contents, inTunnel_of_get hget, ↓reduceIte]

/-- A step that replaces one tunnel, and touches no other channel and no other agent's queue, is a change
in the books of the tunnel's agent at four places. -/
theorem contents_step {tunnel' : Tunnel (Frame φ)} {books : Custody.Ledger Place Nat}
    (htunnels : s'.tunnels = s.tunnels.set t tunnel') (hagent : tunnel'.agentId = tunnel.agentId)
    (hchannels : ∀ r, r ≠ t → s'.channels r = s.channels r)
    (hqueue : ∀ a, a ≠ tunnel.agentId → s'.messageQueue.buffer a = s.messageQueue.buffer a)
    (hwritten : books (.written t) = labels tunnel'.written)
    (hchannel : books (.channel t) = labels (s'.channels t).waiting)
    (hheld : books (.held t) = labels tunnel'.at_.buffered)
    (hown : books .queue = labels (s'.messageQueue.buffer tunnel.agentId))
    (hother : ∀ place, place ≠ .written t → place ≠ .channel t → place ≠ .held t → place ≠ .queue →
      books place = s.contents tunnel.agentId place) (agentId : Uuid) :
    s'.contents agentId = if agentId = tunnel.agentId then books else s.contents agentId := by
  have hlt : t < s.tunnels.length := (List.getElem?_eq_some_iff.mp hget).1
  have hself : s'.tunnels[t]? = some tunnel' := by rw [htunnels, List.getElem?_set_self hlt]
  have hkept : ∀ r, r ≠ t → s'.tunnels[r]? = s.tunnels[r]? := fun r hr => by
    rw [htunnels, List.getElem?_set_ne (Ne.symm hr)]
  -- at every other tunnel nothing changes, for any agent
  have helsewhere : ∀ r, r ≠ t → s'.contents agentId (.written r) = s.contents agentId (.written r) ∧
      s'.contents agentId (.channel r) = s.contents agentId (.channel r) ∧
      s'.contents agentId (.held r) = s.contents agentId (.held r) := fun r hr => by
    refine ⟨inTunnel_congr (hkept r hr) .., ?_, inTunnel_congr (hkept r hr) ..⟩
    rw [contents, contents, hchannels r hr]
    exact inTunnel_congr (hkept r hr) ..
  funext place
  by_cases hagentId : agentId = tunnel.agentId
  · subst hagentId
    rw [if_pos rfl]
    cases place with
    | written r =>
        by_cases hr : r = t
        · rw [hr, hwritten, ← hagent, contents_written hself]
        · rw [(helsewhere r hr).1, hother (.written r) (fun h => hr (Place.written.inj h)) nofun nofun nofun]
    | channel r =>
        by_cases hr : r = t
        · rw [hr, hchannel, ← hagent, contents_channel hself]
        · rw [(helsewhere r hr).2.1, hother (.channel r) nofun (fun h => hr (Place.channel.inj h)) nofun nofun]
    | held r =>
        by_cases hr : r = t
        · rw [hr, hheld, ← hagent, contents_held hself]
        · rw [(helsewhere r hr).2.2, hother (.held r) nofun nofun (fun h => hr (Place.held.inj h)) nofun]
    | queue => rw [hown, contents]
  · rw [if_neg hagentId]
    have hnot : ∀ frames frames', s'.inTunnel agentId t frames = s.inTunnel agentId t frames' :=
      fun frames frames' => by
        rw [inTunnel_of_get hself, inTunnel_of_get hget, hagent, if_neg (Ne.symm hagentId),
          if_neg (Ne.symm hagentId)]
    cases place with
    | written r =>
        by_cases hr : r = t
        · rw [hr]
          exact hnot _ _
        · exact (helsewhere r hr).1
    | channel r =>
        by_cases hr : r = t
        · rw [hr]
          exact hnot _ _
        · exact (helsewhere r hr).2.1
    | held r =>
        by_cases hr : r = t
        · rw [hr]
          exact hnot _ _
        · exact (helsewhere r hr).2.2
    | queue => rw [contents, contents, hqueue agentId hagentId]

/-- A step of one tunnel that changes none of its places. -/
theorem contents_same {tunnel' : Tunnel (Frame φ)} (htunnels : s'.tunnels = s.tunnels.set t tunnel')
    (hagent : tunnel'.agentId = tunnel.agentId) (hchannels : ∀ r, r ≠ t → s'.channels r = s.channels r)
    (hqueue : s'.messageQueue = s.messageQueue) (hwritten : tunnel'.written = tunnel.written)
    (hchannel : labels (s'.channels t).waiting = labels (s.channels t).waiting)
    (hheld : tunnel'.at_.buffered = tunnel.at_.buffered) (agentId : Uuid) :
    s'.contents agentId = s.contents agentId := by
  have hsame := contents_step hget htunnels hagent hchannels (fun a _ => by rw [hqueue])
    (by rw [contents_written hget, hwritten]) (by rw [contents_channel hget, hchannel])
    (by rw [contents_held hget, hheld]) (by rw [contents, hqueue]) (fun _ _ _ _ _ => rfl) agentId
  rw [hsame]
  split
  · rename_i hagentId
    rw [hagentId]
  · rfl

/-! ### What each step does to the books -/

/-- The drained frames are the queue's, in its order. -/
theorem contents_drain (hat : tunnel.at_ = .acquired) (agentId : Uuid) :
    ({ s.moveTunnel t tunnel (.draining (s.messageQueue.drain tunnel.agentId).1) with
        messageQueue := (s.messageQueue.drain tunnel.agentId).2 } : Broker (Frame φ)).contents agentId =
      if agentId = tunnel.agentId then (s.contents tunnel.agentId).passAll .queue (.held t)
      else s.contents agentId := by
  have hempty : s.contents tunnel.agentId (.held t) = [] := by
    rw [contents_held hget, hat]
    rfl
  have hdrained := InMemoryMessageQueue.buffer_drain_self s.messageQueue tunnel.agentId
  apply contents_step hget
  · rfl
  · rfl
  · exact fun _ _ => rfl
  · exact fun a ha => InMemoryMessageQueue.buffer_drain_ne ha
  · exact contents_written hget
  · exact contents_channel hget
  · rw [Custody.Ledger.passAll, Function.update_self, hempty]
    rfl
  · simp only [Custody.Ledger.passAll, ne_eq, reduceCtorEq, not_false_eq_true, Function.update_of_ne,
      Function.update_self, hdrained, labels, List.filterMap_nil]
  · intro place _ _ hheld hqueue
    rw [Custody.Ledger.passAll, Function.update_of_ne hheld, Function.update_of_ne hqueue]

/-- The oldest of the drained frames goes into the open channel. -/
theorem contents_enqueue {frame : Frame φ} {buffered : List (Frame φ)} {n : Nat}
    (hat : tunnel.at_ = .draining (frame :: buffered)) (hpost : frame.post = some n)
    (hopen : (s.channels t).isOpen = true) (agentId : Uuid) :
    ({ s.moveTunnel t tunnel (.draining buffered) with
        channels := s.channels.sent t frame } : Broker (Frame φ)).contents agentId =
      if agentId = tunnel.agentId then (s.contents tunnel.agentId).pass (.held t) (.channel t)
      else s.contents agentId := by
  have hheld : s.contents tunnel.agentId (.held t) = n :: labels buffered := by
    rw [contents_held hget, hat]
    simp only [TunnelAt.buffered, labels, List.filterMap_cons, hpost]
  rw [Custody.Ledger.pass_cons hheld]
  apply contents_step hget
  · rfl
  · rfl
  · exact fun _ hr => Channels.sent_ne _ _ hr
  · exact fun _ _ => rfl
  · exact contents_written hget
  · rw [Function.update_self, contents_channel hget]
    simp only [Channels.waiting_sent, if_pos hopen, labels, List.filterMap_append, List.filterMap_cons,
      hpost, List.filterMap_nil]
  · simp only [ne_eq, reduceCtorEq, not_false_eq_true, Function.update_of_ne, Function.update_self,
      TunnelAt.buffered]
  · rfl
  · intro place _ hchannel hheld _
    rw [Function.update_of_ne hchannel, Function.update_of_ne hheld]

/-- A frame that the socket takes has left the channel. -/
theorem contents_write {frame : Frame φ} {channels : Channels (Frame φ)}
    (hrecv : s.channels.recv t = some (frame, channels)) (hopen : (s.channels t).isOpen = true)
    (agentId : Uuid) :
    ({ s with
        tunnels := s.tunnels.set t { tunnel with written := tunnel.written ++ [frame] }
        channels := channels } : Broker (Frame φ)).contents agentId =
      if agentId = tunnel.agentId then
        if frame.post = none then s.contents tunnel.agentId
        else (s.contents tunnel.agentId).pass (.channel t) (.written t)
      else s.contents agentId := by
  obtain ⟨hqueue, hopen', hothers⟩ := Channels.recv_eq_some hrecv
  have hbefore : labels (s.channels t).waiting = labels (frame :: (channels t).waiting) := by
    rw [Channel.waiting, Channel.waiting, hopen', if_pos hopen, if_pos hopen, hqueue]
  cases hpost : frame.post with
  | none =>
      rw [if_pos rfl]
      apply contents_step hget
      · rfl
      · rfl
      · exact hothers
      · exact fun _ _ => rfl
      · rw [contents_written hget]
        simp only [labels, List.filterMap_append, List.filterMap_cons, hpost, List.filterMap_nil,
          List.append_nil]
      · rw [contents_channel hget, hbefore]
        simp only [labels, List.filterMap_cons, hpost]
      · exact contents_held hget
      · rfl
      · exact fun _ _ _ _ _ => rfl
  | some n =>
      have hchannel : s.contents tunnel.agentId (.channel t) = n :: labels (channels t).waiting := by
        rw [contents_channel hget, hbefore]
        simp only [labels, List.filterMap_cons, hpost]
      rw [if_neg (Option.some_ne_none n), Custody.Ledger.pass_cons hchannel]
      apply contents_step hget
      · rfl
      · rfl
      · exact hothers
      · exact fun _ _ => rfl
      · rw [Function.update_self, contents_written hget]
        simp only [labels, List.filterMap_append, List.filterMap_cons, hpost, List.filterMap_nil]
      · simp only [ne_eq, reduceCtorEq, not_false_eq_true, Function.update_of_ne, Function.update_self]
      · simp only [ne_eq, reduceCtorEq, not_false_eq_true, Function.update_of_ne, contents_held hget]
      · rfl
      · intro place hwritten hchannel _ _
        rw [Function.update_of_ne hwritten, Function.update_of_ne hchannel]

/-- Dropping the receiver loses what waits in the channel, wherever the tunnel goes from there. -/
theorem contents_closeChannel {tunnel' : Tunnel (Frame φ)} (htunnels : s'.tunnels = s.tunnels.set t tunnel')
    (hchannels : s'.channels = s.channels.close t) (hqueue : s'.messageQueue = s.messageQueue)
    (hagent : tunnel'.agentId = tunnel.agentId) (hwritten : tunnel'.written = tunnel.written)
    (hheld : tunnel'.at_.buffered = tunnel.at_.buffered) (agentId : Uuid) :
    s'.contents agentId =
      if agentId = tunnel.agentId then (s.contents tunnel.agentId).clear (.channel t)
      else s.contents agentId := by
  apply contents_step hget htunnels hagent
  · intro r hr
    rw [hchannels, Channels.close_ne _ hr]
  · exact fun _ _ => by rw [hqueue]
  · simp only [Custody.Ledger.clear, ne_eq, reduceCtorEq, not_false_eq_true, Function.update_of_ne,
      contents_written hget, hwritten]
  · simp only [Custody.Ledger.clear, Function.update_self, hchannels, Channels.waiting_close, labels,
      List.filterMap_nil]
  · simp only [Custody.Ledger.clear, ne_eq, reduceCtorEq, not_false_eq_true, Function.update_of_ne,
      contents_held hget, hheld]
  · simp only [Custody.Ledger.clear, ne_eq, reduceCtorEq, not_false_eq_true, Function.update_of_ne, contents,
      hqueue]
  · intro place _ hchannel _ _
    rw [Custody.Ledger.clear, Function.update_of_ne hchannel]

/-- A frame that a live receiver is sent waits in the channel. -/
theorem contents_sent {frame : Frame φ} {n : Nat} (hpost : frame.post = some n)
    (hopen : (s.channels t).isOpen = true) (posts : List (Post (Frame φ))) (agentId : Uuid) :
    ({ s with posts := posts, channels := s.channels.sent t frame } : Broker (Frame φ)).contents agentId =
      if agentId = tunnel.agentId then (s.contents tunnel.agentId).arrive (.channel t) n
      else s.contents agentId := by
  apply contents_step hget
  · exact tunnels_eq_set hget
  · rfl
  · exact fun _ hr => Channels.sent_ne _ _ hr
  · exact fun _ _ => rfl
  · simp only [Custody.Ledger.arrive, ne_eq, reduceCtorEq, not_false_eq_true, Function.update_of_ne,
      contents_written hget]
  · rw [Custody.Ledger.arrive, Function.update_self, contents_channel hget]
    simp only [Channels.waiting_sent, if_pos hopen, labels, List.filterMap_append, List.filterMap_cons,
      hpost, List.filterMap_nil]
  · simp only [Custody.Ledger.arrive, ne_eq, reduceCtorEq, not_false_eq_true, Function.update_of_ne,
      contents_held hget]
  · rfl
  · intro place _ hchannel _ _
    rw [Custody.Ledger.arrive, Function.update_of_ne hchannel]

end OneTunnel

/-- A push that is accepted puts the frame at the end of the queue. -/
theorem contents_push {agentId : Uuid} {frame : Frame φ} {n : Nat} {queue : InMemoryMessageQueue (Frame φ)}
    (hpost : frame.post = some n) (hpush : s.messageQueue.push agentId frame = (.ok (), queue))
    (posts : List (Post (Frame φ))) (a : Uuid) :
    ({ s with posts := posts, messageQueue := queue } : Broker (Frame φ)).contents a =
      if a = agentId then (s.contents agentId).arrive .queue n else s.contents a := by
  funext place
  by_cases ha : a = agentId
  · subst ha
    rw [if_pos rfl, Custody.Ledger.arrive]
    by_cases hplace : place = .queue
    · subst hplace
      rw [Function.update_self]
      simp only [contents, InMemoryMessageQueue.buffer_of_push_ok hpush, labels, List.filterMap_append,
        List.filterMap_cons, hpost, List.filterMap_nil]
    · rw [Function.update_of_ne hplace]
      cases place <;> first | rfl | exact absurd rfl hplace
  · rw [if_neg ha]
    have hbuffer := @InMemoryMessageQueue.buffer_push_ne _ s.messageQueue agentId a frame ha
    rw [hpush] at hbuffer
    cases place with
    | queue => simp only [contents, hbuffer]
    | _ => rfl

/-! ### What holds in every state -/

/-- Until its write task is spawned the receiver of a tunnel is alive. -/
def OpenUntilLaunched {ψ : Type} (s : Broker ψ) : Prop :=
  ∀ (t : Nat) (tunnel : Tunnel ψ), s.tunnels[t]? = some tunnel → tunnel.at_.launched = false →
    (s.channels t).isOpen = true

/-- The frames between requests and tunnels carry the number of their request. -/
structure Consistent (s : Broker (Frame φ)) : Prop where
  routed : s.Routed
  clean : Channels.Clean s.channels
  openUntilLaunched : s.OpenUntilLaunched
  posted : ∀ (n : Nat) (post : Post (Frame φ)), s.posts[n]? = some post →
    ∀ frame ∈ post.at_.carried, frame.post = some n
  queued : ∀ a, ∀ frame ∈ s.messageQueue.buffer a, frame.post ≠ none
  buffered : ∀ (t : Nat) (tunnel : Tunnel (Frame φ)), s.tunnels[t]? = some tunnel →
    ∀ frame ∈ tunnel.at_.buffered, frame.post ≠ none

theorem consistent_init (capacity : Nat) : (labelled (φ := φ) capacity).init.Consistent where
  routed := routed_init capacity
  clean := Channels.clean_none
  openUntilLaunched := nofun
  posted := nofun
  queued := nofun
  buffered := nofun

section Steps

variable {ψ : Type} {r r' : Broker ψ} {e : Event ψ}

theorem clean_step (htaken : r.Taken e r') (h : Channels.Clean r.channels) : Channels.Clean r'.channels := by
  cases htaken with
  | connect => exact h.create _
  | enqueue | respond | deliverLive => exact h.sent _ _
  | write _ _ hrecv => exact h.recv hrecv
  | writeFails | abort => exact h.close _
  | disconnect =>
      unfold disconnectAgent
      split <;> exact h
  | _ => exact h

/-- A tunnel that is replaced is launched if it was, and no channel is closed. -/
theorem openUntilLaunched_set {t : Nat} {tunnel tunnel' : Tunnel ψ} (h : r.OpenUntilLaunched)
    (hget : r.tunnels[t]? = some tunnel) (htunnels : r'.tunnels = r.tunnels.set t tunnel')
    (hlaunched : tunnel'.at_.launched = false → tunnel.at_.launched = false)
    (hopen : ∀ n, (r.channels n).isOpen = true → (r'.channels n).isOpen = true) : r'.OpenUntilLaunched := by
  intro n other hother hnot
  apply hopen
  rw [htunnels] at hother
  rcases Slots.of_getElem?_set hother with ⟨rfl, rfl⟩ | ⟨-, hold⟩
  · exact h n tunnel hget (hlaunched hnot)
  · exact h n other hold hnot

/-- Only the channel of a tunnel whose write task was spawned is closed. -/
theorem openUntilLaunched_close {t : Nat} {tunnel' : Tunnel ψ} (h : r.OpenUntilLaunched)
    (hget : r'.tunnels[t]? = some tunnel') (hothers : ∀ n, n ≠ t → r'.tunnels[n]? = r.tunnels[n]?)
    (hlaunched : tunnel'.at_.launched = true) (hchannels : r'.channels = r.channels.close t) :
    r'.OpenUntilLaunched := by
  intro n other hother hnot
  by_cases hn : n = t
  · subst hn
    rw [hget] at hother
    cases hother
    rw [hlaunched] at hnot
    cases hnot
  · rw [hothers n hn] at hother
    rw [hchannels, Channels.close_ne _ hn]
    exact h n other hother hnot

theorem openUntilLaunched_step (htaken : r.Taken e r') (h : r.OpenUntilLaunched) : r'.OpenUntilLaunched := by
  cases htaken with
  | connect agentId claims =>
      intro n other hother hnot
      dsimp only [connect] at hother ⊢
      rcases Slots.of_getElem?_concat hother with ⟨rfl, -⟩ | ⟨hlt, hold⟩
      · rw [Channels.create_self]
      · rw [Channels.create_ne _ (Nat.ne_of_lt hlt)]
        exact h n other hold hnot
  | acquire now hget hat =>
      exact openUntilLaunched_set h hget rfl (fun _ => by rw [hat]; rfl) fun _ hopen => hopen
  | drain hget hat =>
      exact openUntilLaunched_set h hget rfl (fun _ => by rw [hat]; rfl) fun _ hopen => hopen
  | serve hget hat => exact openUntilLaunched_set h hget rfl nofun fun _ hopen => hopen
  | enqueue hget hat =>
      exact openUntilLaunched_set h hget rfl (fun _ => by rw [hat]; rfl)
        fun n hopen => by rw [Channels.isOpen_sent]; exact hopen
  | @write t tunnel frame channels hget hat hrecv =>
      obtain ⟨_, hopen, hothers⟩ := Channels.recv_eq_some hrecv
      refine openUntilLaunched_set h hget rfl (fun hnot => hnot) fun n hbefore => ?_
      by_cases hn : n = t
      · rw [hn] at hbefore ⊢
        rw [← hbefore]
        exact hopen
      · rw [← hbefore]
        exact congrArg Channel.isOpen (hothers n hn)
  | writeFails hget hat =>
      refine openUntilLaunched_close h hget (fun _ _ => rfl) ?_ rfl
      rcases hat with hat | hat <;> rw [hat] <;> rfl
  | abort hget hat =>
      have hlt := (List.getElem?_eq_some_iff.mp hget).1
      exact openUntilLaunched_close h (List.getElem?_set_self hlt)
        (fun n hn => List.getElem?_set_ne (Ne.symm hn)) rfl rfl
  | close now hget hat => exact openUntilLaunched_set h hget rfl nofun fun _ hopen => hopen
  | respond frame hget hat =>
      intro n other hother hnot
      rw [Channels.isOpen_sent]
      exact h n other hother hnot
  | deliverLive hget hat hentry hopen =>
      intro n other hother hnot
      rw [Channels.isOpen_sent]
      exact h n other hother hnot
  | disconnect agentId now =>
      unfold disconnectAgent
      split <;> exact h
  | _ => exact h

/-- Every frame a state change of the requests leaves with a request was there before. -/
theorem getElem?_movePost {p n : Nat} {post other : Post ψ} {at_ : PostAt ψ}
    (hother : (r.movePost p post at_).posts[n]? = some other) :
    r.posts[n]? = some other ∨ n = p ∧ other = { post with at_ := at_ } := by
  rcases Slots.of_getElem?_set hother with hmoved | ⟨-, hold⟩
  · exact .inr hmoved
  · exact .inl hold

end Steps

theorem label_post {e : Event φ} {agentId : Uuid} {frame : Frame φ}
    (h : s.label e = .post agentId frame) : frame.post = some s.posts.length := by
  cases e with
  | post => cases h; rfl
  | _ => cases h

theorem posted_step {e : Event φ} (htaken : s.Taken (s.label e) s') (h : s.Consistent) :
    ∀ (n : Nat) (post : Post (Frame φ)), s'.posts[n]? = some post →
      ∀ frame ∈ post.at_.carried, frame.post = some n := by
  generalize hlabel : s.label e = e' at htaken
  cases htaken with
  | post agentId frame =>
      intro n other hother carried hcarried
      rcases Slots.of_getElem?_concat hother with ⟨rfl, rfl⟩ | ⟨-, hold⟩
      · cases hcarried
        exact label_post hlabel
      · exact h.posted n other hold carried hcarried
  | deliverLive hget hat | pushed hget hat | refused hget hat =>
      intro n other hother carried hcarried
      rcases getElem?_movePost hother with hold | ⟨_, rfl⟩
      · exact h.posted n other hold carried hcarried
      · cases hcarried
  | deliverNone hget hat =>
      intro n other hother carried hcarried
      rcases getElem?_movePost hother with hold | ⟨rfl, rfl⟩
      · exact h.posted n other hold carried hcarried
      · exact h.posted n _ hget carried (by rw [hat]; exact hcarried)
  | disconnect agentId now =>
      unfold disconnectAgent
      split <;> exact h.posted
  | _ => exact h.posted

/-- The frame a push puts into the queue carries its request. -/
theorem queued_step {e : Event φ} (htaken : s.Taken (s.label e) s') (h : s.Consistent) :
    ∀ a, ∀ frame ∈ s'.messageQueue.buffer a, frame.post ≠ none := by
  generalize hlabel : s.label e = e' at htaken
  cases htaken with
  | @drain t tunnel hget hat =>
      intro a frame hframe
      by_cases ha : a = tunnel.agentId
      · rw [ha, InMemoryMessageQueue.buffer_drain_self] at hframe
        cases hframe
      · rw [InMemoryMessageQueue.buffer_drain_ne ha] at hframe
        exact h.queued a frame hframe
  | @pushed p post carried queue hget hat hpush =>
      intro a frame hframe
      by_cases ha : a = post.agentId
      · subst ha
        rw [InMemoryMessageQueue.buffer_of_push_ok hpush] at hframe
        rcases List.mem_append.mp hframe with hold | hnew
        · exact h.queued _ frame hold
        · rw [List.mem_singleton.mp hnew, h.posted p post hget carried (by rw [hat]; rfl)]
          exact Option.some_ne_none p
      · have hbuffer := @InMemoryMessageQueue.buffer_push_ne _ s.messageQueue post.agentId a carried ha
        rw [hpush] at hbuffer
        dsimp only at hframe
        rw [hbuffer] at hframe
        exact h.queued a frame hframe
  | @refused p post carried err queue hget hat hpush =>
      intro a frame hframe
      dsimp only at hframe
      rw [InMemoryMessageQueue.buffer_of_push_error hpush] at hframe
      exact h.queued a frame hframe
  | disconnect agentId now =>
      unfold disconnectAgent
      split <;> exact h.queued
  | _ => exact h.queued

/-- Only the tunnel that is replaced has to be looked at. -/
theorem buffered_set {t : Nat} {tunnel' : Tunnel (Frame φ)} (h : s.Consistent)
    (htunnels : s'.tunnels = s.tunnels.set t tunnel')
    (hbuffered : ∀ frame ∈ tunnel'.at_.buffered, frame.post ≠ none) :
    ∀ (n : Nat) (tunnel : Tunnel (Frame φ)), s'.tunnels[n]? = some tunnel →
      ∀ frame ∈ tunnel.at_.buffered, frame.post ≠ none := by
  intro n other hother
  rw [htunnels] at hother
  rcases Slots.of_getElem?_set hother with ⟨-, rfl⟩ | ⟨-, hold⟩
  · exact hbuffered
  · exact h.buffered n other hold

theorem buffered_step {e : Event φ} (htaken : s.Taken (s.label e) s') (h : s.Consistent) :
    ∀ (n : Nat) (tunnel : Tunnel (Frame φ)), s'.tunnels[n]? = some tunnel →
      ∀ frame ∈ tunnel.at_.buffered, frame.post ≠ none := by
  generalize hlabel : s.label e = e' at htaken
  cases htaken with
  | connect agentId claims =>
      intro n other hother
      rcases Slots.of_getElem?_concat hother with ⟨-, rfl⟩ | ⟨-, hold⟩
      · nofun
      · exact h.buffered n other hold
  | acquire | serve | close | abort => exact buffered_set h rfl nofun
  | @drain t tunnel hget hat => exact buffered_set h rfl (h.queued tunnel.agentId)
  | @enqueue t tunnel frame buffered hget hat =>
      refine buffered_set h rfl fun other hother => h.buffered t tunnel hget other ?_
      rw [hat]
      exact List.mem_cons_of_mem _ hother
  | @write t tunnel _ _ hget hat hrecv => exact buffered_set h rfl (h.buffered t tunnel hget)
  | disconnect agentId now =>
      unfold disconnectAgent
      split <;> exact h.buffered
  | _ => exact h.buffered

theorem consistent_step {e : Event φ} (hstep : s.step (s.label e) = some s') (h : s.Consistent) :
    s'.Consistent where
  routed := routed_step hstep h.routed
  clean := clean_step (taken_of_step hstep) h.clean
  openUntilLaunched := openUntilLaunched_step (taken_of_step hstep) h.openUntilLaunched
  posted := posted_step (taken_of_step hstep) h
  queued := queued_step (taken_of_step hstep) h
  buffered := buffered_step (taken_of_step hstep) h

/-! ### Steps that leave the books alone -/

theorem contents_connect (agentId : Uuid) (claims : Claims) (a : Uuid) :
    (s.connect agentId claims).contents a = s.contents a := by
  have hold : ∀ r, r ≠ s.tunnels.length →
      (s.connect agentId claims).tunnels[r]? = s.tunnels[r]? := fun r hr => by
    rw [connect]
    rcases Nat.lt_or_gt_of_ne hr with hlt | hgt
    · rw [List.getElem?_append_left hlt]
    · rw [List.getElem?_eq_none (Nat.le_of_lt hgt), List.getElem?_eq_none]
      simp only [List.length_append, List.length_cons, List.length_nil]
      omega
  have hnew : (s.connect agentId claims).tunnels[s.tunnels.length]? =
      some ⟨agentId, claims, .connecting, []⟩ := List.getElem?_concat_length
  have hnone : s.tunnels[s.tunnels.length]? = none := List.getElem?_eq_none (Nat.le_refl _)
  have hempty : ∀ frames frames', labels (frames ⟨agentId, claims, .connecting, []⟩) = [] →
      (s.connect agentId claims).inTunnel a s.tunnels.length frames =
        s.inTunnel a s.tunnels.length frames' := fun frames frames' hframes => by
    rw [inTunnel_of_get hnew, hframes, inTunnel, hnone]
    split <;> rfl
  funext place
  cases place with
  | written r =>
      by_cases hr : r = s.tunnels.length
      · rw [hr]
        exact hempty _ _ rfl
      · exact inTunnel_congr (hold r hr) ..
  | channel r =>
      by_cases hr : r = s.tunnels.length
      · rw [hr]
        refine hempty _ _ ?_
        dsimp only [connect]
        rw [Channels.waiting_create]
        rfl
      · rw [contents, contents, show (s.connect agentId claims).channels r = s.channels r from
          Channels.create_ne _ hr]
        exact inTunnel_congr (hold r hr) ..
  | held r =>
      by_cases hr : r = s.tunnels.length
      · rw [hr]
        exact hempty _ _ rfl
      · exact inTunnel_congr (hold r hr) ..
  | queue => rfl

/-- A response waits in the channel without being anybody's request. -/
theorem contents_respond {t : Nat} {tunnel : Tunnel (Frame φ)} (hget : s.tunnels[t]? = some tunnel)
    {frame : Frame φ} (hpost : frame.post = none) (agentId : Uuid) :
    ({ s with channels := s.channels.sent t frame } : Broker (Frame φ)).contents agentId =
      s.contents agentId := by
  apply contents_same hget
  · exact tunnels_eq_set hget
  · rfl
  · exact fun _ hr => Channels.sent_ne _ _ hr
  · rfl
  · rfl
  · by_cases hopen : (s.channels t).isOpen = true
    · simp only [Channels.waiting_sent, if_pos hopen, labels, List.filterMap_append, List.filterMap_cons,
        hpost, List.filterMap_nil, List.append_nil]
    · rw [Channels.waiting_sent, Channel.waiting, if_neg hopen, if_neg hopen]
  · rfl

theorem contents_queue_congr {queue : InMemoryMessageQueue (Frame φ)}
    (hbuffer : ∀ a, queue.buffer a = s.messageQueue.buffer a) (posts : List (Post (Frame φ))) (agentId : Uuid) :
    ({ s with posts := posts, messageQueue := queue } : Broker (Frame φ)).contents agentId =
      s.contents agentId := by
  funext place
  cases place with
  | queue => simp only [contents, hbuffer]
  | _ => rfl

end Broker

end Overacp
