import Overacp.Lib.Slots
import Overacp.Server.Api.Agents
import Overacp.Server.Registry.Lease
import Overacp.Server.Registry.Queue

/-!
# The in-memory broker, step by step

Every `run_tunnel` call, every `send_message` request and every forced disconnect, as processes over
one registry, one message queue and the channels between tunnels and registry. A step is one access
to a shared structure, so `deliver` and the fallback `push` of one request are two steps, and so are
`acquire` and `drain` of one tunnel. The `n`-th tunnel sends under the name `n`, and its entry lives
at the address `n`.
-/

namespace Overacp

/-- Where a `run_tunnel` call stands. -/
inductive TunnelAt (φ : Type) where
  | connecting
  | acquired
  | draining (buffered : List φ)
  | serving
  | leaving
  | ended
  deriving DecidableEq, Repr

/-- A `run_tunnel` call: its agent, its claims, where it stands and what its socket took. -/
structure Tunnel (φ : Type) where
  agentId : Uuid
  claims : Claims
  at_ : TunnelAt φ
  written : List φ
  deriving DecidableEq, Repr

/-- Where a `send_message` request stands: before `deliver`, before the fallback `push`, answered. -/
inductive PostAt (φ : Type) where
  | delivering (frame : φ)
  | pushing (frame : φ)
  | answered (outcome : Except QueueError Delivery)

structure Post (φ : Type) where
  agentId : Uuid
  at_ : PostAt φ

structure Broker (φ : Type) where
  registry : InMemoryAgentRegistry
  messageQueue : InMemoryMessageQueue φ
  channels : Channels φ
  tunnels : List (Tunnel φ)
  posts : List (Post φ)

namespace Broker

variable {φ : Type}

inductive Event (φ : Type) where
  /-- A WebSocket is upgraded and its channel made. -/
  | connect (agentId : Uuid) (claims : Claims)
  | acquire (tunnel : Nat) (now : Instant)
  | drain (tunnel : Nat)
  /-- Send the next drained frame into the channel, or start serving when none is left. -/
  | enqueue (tunnel : Nat)
  /-- The write task takes a frame and the socket accepts it. -/
  | write (tunnel : Nat)
  /-- The write task ends on a socket error, on a frame or on a ping. -/
  | writeFails (tunnel : Nat)
  /-- The read loop sends the response of a dispatched request. -/
  | respond (tunnel : Nat) (frame : φ)
  /-- The read loop breaks and the lease is dropped. -/
  | close (tunnel : Nat) (now : Instant)
  | abort (tunnel : Nat)
  | post (agentId : Uuid) (frame : φ)
  | deliver (post : Nat)
  | push (post : Nat)
  | disconnect (agentId : Uuid) (now : Instant)

/-- Put a tunnel somewhere else. -/
def moveTunnel (s : Broker φ) (t : Nat) (tunnel : Tunnel φ) (at_ : TunnelAt φ) : Broker φ :=
  { s with tunnels := s.tunnels.set t { tunnel with at_ := at_ } }

def movePost (s : Broker φ) (p : Nat) (post : Post φ) (at_ : PostAt φ) : Broker φ :=
  { s with posts := s.posts.set p { post with at_ := at_ } }

def connect (s : Broker φ) (agentId : Uuid) (claims : Claims) : Broker φ :=
  { s with
    tunnels := s.tunnels ++ [⟨agentId, claims, .connecting, []⟩]
    channels := s.channels.create s.tunnels.length }

/-- One step of the `run_tunnel` call `t`. -/
def stepTunnel (s : Broker φ) (t : Nat) (tunnel : Tunnel φ) : Event φ → Option (Broker φ)
  | .acquire _ now =>
      match tunnel.at_ with
      | .connecting =>
          some { s.moveTunnel t tunnel .acquired with
            registry := (s.registry.acquire t tunnel.agentId t tunnel.claims now).2 }
      | _ => none
  | .drain _ =>
      match tunnel.at_ with
      | .acquired =>
          let drained := s.messageQueue.drain tunnel.agentId
          some { s.moveTunnel t tunnel (.draining drained.1) with messageQueue := drained.2 }
      | _ => none
  | .enqueue _ =>
      match tunnel.at_ with
      | .draining [] => some (s.moveTunnel t tunnel .serving)
      | .draining (frame :: buffered) =>
          some { s.moveTunnel t tunnel (.draining buffered) with
            channels := s.channels.sent t frame }
      | _ => none
  | .write _ =>
      match tunnel.at_, s.channels.recv t with
      | .serving, some (frame, channels) | .leaving, some (frame, channels) =>
          some { s with
            tunnels := s.tunnels.set t { tunnel with written := tunnel.written ++ [frame] }
            channels := channels }
      | _, _ => none
  | .writeFails _ =>
      match tunnel.at_ with
      | .serving | .leaving => some { s with channels := s.channels.close t }
      | _ => none
  | .respond _ frame =>
      match tunnel.at_ with
      | .serving => some { s with channels := s.channels.sent t frame }
      | _ => none
  | .close _ now =>
      match tunnel.at_ with
      | .serving =>
          some { s.moveTunnel t tunnel .leaving with
            registry := s.registry.unregister tunnel.agentId now }
      | _ => none
  | .abort _ =>
      match tunnel.at_ with
      | .leaving => some { s.moveTunnel t tunnel .ended with channels := s.channels.close t }
      | _ => none
  | _ => none

/-- One step of the `send_message` request `p`. -/
def stepPost (s : Broker φ) (p : Nat) (post : Post φ) : Event φ → Option (Broker φ)
  | .deliver _ =>
      match post.at_ with
      | .delivering frame =>
          match s.registry.deliver s.channels post.agentId frame with
          | (.live, channels) =>
              some { s.movePost p post (.answered (.ok .live)) with channels := channels }
          | (.noTunnel frame, channels) =>
              some { s.movePost p post (.pushing frame) with channels := channels }
      | _ => none
  | .push _ =>
      match post.at_ with
      | .pushing frame =>
          match s.messageQueue.push post.agentId frame with
          | (.ok (), queue) =>
              some { s.movePost p post (.answered (.ok .queued)) with messageQueue := queue }
          | (.error e, queue) =>
              some { s.movePost p post (.answered (.error e)) with messageQueue := queue }
      | _ => none
  | _ => none

/-- `DELETE /agents/{id}`: nothing unless the agent is connected. -/
def disconnectAgent (s : Broker φ) (agentId : Uuid) (now : Instant) : Broker φ :=
  if s.registry.isConnected agentId then
    { s with registry := s.registry.disconnect agentId now }
  else s

def step (s : Broker φ) : Event φ → Option (Broker φ)
  | .connect agentId claims => some (s.connect agentId claims)
  | .post agentId frame => some { s with posts := s.posts ++ [⟨agentId, .delivering frame⟩] }
  | .disconnect agentId now => some (s.disconnectAgent agentId now)
  | .deliver p => s.posts[p]?.bind fun post => s.stepPost p post (.deliver p)
  | .push p => s.posts[p]?.bind fun post => s.stepPost p post (.push p)
  | .acquire t now => s.tunnels[t]?.bind fun tunnel => s.stepTunnel t tunnel (.acquire t now)
  | .drain t => s.tunnels[t]?.bind fun tunnel => s.stepTunnel t tunnel (.drain t)
  | .enqueue t => s.tunnels[t]?.bind fun tunnel => s.stepTunnel t tunnel (.enqueue t)
  | .write t => s.tunnels[t]?.bind fun tunnel => s.stepTunnel t tunnel (.write t)
  | .writeFails t => s.tunnels[t]?.bind fun tunnel => s.stepTunnel t tunnel (.writeFails t)
  | .respond t frame => s.tunnels[t]?.bind fun tunnel => s.stepTunnel t tunnel (.respond t frame)
  | .close t now => s.tunnels[t]?.bind fun tunnel => s.stepTunnel t tunnel (.close t now)
  | .abort t => s.tunnels[t]?.bind fun tunnel => s.stepTunnel t tunnel (.abort t)

def system (capacity : Nat) : Transition.System (Broker φ) (Event φ) where
  init := ⟨.new, .new capacity, .none, [], []⟩
  step := step

/-! ### What a step can do -/

/-- An event that is taken, with what it found and the state it leads to. -/
inductive Taken (s : Broker φ) : Event φ → Broker φ → Prop where
  | connect (agentId : Uuid) (claims : Claims) : Taken s (.connect agentId claims) (s.connect agentId claims)
  | acquire {t : Nat} {tunnel : Tunnel φ} (now : Instant) (hget : s.tunnels[t]? = some tunnel)
      (hat : tunnel.at_ = .connecting) :
      Taken s (.acquire t now) { s.moveTunnel t tunnel .acquired with
        registry := (s.registry.acquire t tunnel.agentId t tunnel.claims now).2 }
  | drain {t : Nat} {tunnel : Tunnel φ} (hget : s.tunnels[t]? = some tunnel) (hat : tunnel.at_ = .acquired) :
      Taken s (.drain t) { s.moveTunnel t tunnel (.draining (s.messageQueue.drain tunnel.agentId).1) with
        messageQueue := (s.messageQueue.drain tunnel.agentId).2 }
  | serve {t : Nat} {tunnel : Tunnel φ} (hget : s.tunnels[t]? = some tunnel) (hat : tunnel.at_ = .draining []) :
      Taken s (.enqueue t) (s.moveTunnel t tunnel .serving)
  | enqueue {t : Nat} {tunnel : Tunnel φ} {frame : φ} {buffered : List φ}
      (hget : s.tunnels[t]? = some tunnel) (hat : tunnel.at_ = .draining (frame :: buffered)) :
      Taken s (.enqueue t) { s.moveTunnel t tunnel (.draining buffered) with
        channels := s.channels.sent t frame }
  | write {t : Nat} {tunnel : Tunnel φ} {frame : φ} {channels : Channels φ}
      (hget : s.tunnels[t]? = some tunnel) (hat : tunnel.at_ = .serving ∨ tunnel.at_ = .leaving)
      (hrecv : s.channels.recv t = some (frame, channels)) :
      Taken s (.write t) { s with
        tunnels := s.tunnels.set t { tunnel with written := tunnel.written ++ [frame] }
        channels := channels }
  | writeFails {t : Nat} {tunnel : Tunnel φ} (hget : s.tunnels[t]? = some tunnel)
      (hat : tunnel.at_ = .serving ∨ tunnel.at_ = .leaving) :
      Taken s (.writeFails t) { s with channels := s.channels.close t }
  | respond {t : Nat} {tunnel : Tunnel φ} (frame : φ) (hget : s.tunnels[t]? = some tunnel)
      (hat : tunnel.at_ = .serving) :
      Taken s (.respond t frame) { s with channels := s.channels.sent t frame }
  | close {t : Nat} {tunnel : Tunnel φ} (now : Instant) (hget : s.tunnels[t]? = some tunnel)
      (hat : tunnel.at_ = .serving) :
      Taken s (.close t now) { s.moveTunnel t tunnel .leaving with
        registry := s.registry.unregister tunnel.agentId now }
  | abort {t : Nat} {tunnel : Tunnel φ} (hget : s.tunnels[t]? = some tunnel) (hat : tunnel.at_ = .leaving) :
      Taken s (.abort t) { s.moveTunnel t tunnel .ended with channels := s.channels.close t }
  | post (agentId : Uuid) (frame : φ) :
      Taken s (.post agentId frame) { s with posts := s.posts ++ [⟨agentId, .delivering frame⟩] }
  | deliverLive {p : Nat} {post : Post φ} {frame : φ} {entry : Arc AgentEntry}
      (hget : s.posts[p]? = some post) (hat : post.at_ = .delivering frame)
      (hentry : s.registry.get post.agentId = some entry)
      (hopen : (s.channels entry.val.tx).isOpen = true) :
      Taken s (.deliver p) { s.movePost p post (.answered (.ok .live)) with
        channels := s.channels.sent entry.val.tx frame }
  | deliverNone {p : Nat} {post : Post φ} {frame : φ} (hget : s.posts[p]? = some post)
      (hat : post.at_ = .delivering frame)
      (hnone : ∀ entry, s.registry.get post.agentId = some entry → (s.channels entry.val.tx).isOpen = false) :
      Taken s (.deliver p) (s.movePost p post (.pushing frame))
  | pushed {p : Nat} {post : Post φ} {frame : φ} {queue : InMemoryMessageQueue φ}
      (hget : s.posts[p]? = some post) (hat : post.at_ = .pushing frame)
      (hpush : s.messageQueue.push post.agentId frame = (.ok (), queue)) :
      Taken s (.push p) { s.movePost p post (.answered (.ok .queued)) with messageQueue := queue }
  | refused {p : Nat} {post : Post φ} {frame : φ} {e : QueueError} {queue : InMemoryMessageQueue φ}
      (hget : s.posts[p]? = some post) (hat : post.at_ = .pushing frame)
      (hpush : s.messageQueue.push post.agentId frame = (.error e, queue)) :
      Taken s (.push p) { s.movePost p post (.answered (.error e)) with messageQueue := queue }
  | disconnect (agentId : Uuid) (now : Instant) :
      Taken s (.disconnect agentId now) (s.disconnectAgent agentId now)

/-- A delivery is live exactly if the agent's entry leads to a live receiver. -/
theorem deliver_cases (registry : InMemoryAgentRegistry) (channels : Channels φ) (agentId : Uuid) (frame : φ) :
    (∃ entry, registry.get agentId = some entry ∧ (channels entry.val.tx).isOpen = true ∧
      registry.deliver channels agentId frame = (.live, channels.sent entry.val.tx frame)) ∨
    (∀ entry, registry.get agentId = some entry → (channels entry.val.tx).isOpen = false) ∧
      registry.deliver channels agentId frame = (.noTunnel frame, channels) := by
  cases hentry : registry.get agentId with
  | none =>
      right
      refine ⟨nofun, ?_⟩
      rw [InMemoryAgentRegistry.deliver, hentry]
  | some entry =>
      rw [InMemoryAgentRegistry.deliver_of_get hentry, InMemoryAgentRegistry.sendOutcome]
      by_cases hopen : (channels entry.val.tx).isOpen = true
      · left
        refine ⟨entry, rfl, hopen, ?_⟩
        simp only [Channels.send, Channels.sent, if_pos hopen]
      · right
        refine ⟨fun other hother => ?_, ?_⟩
        · cases hother
          exact (Bool.not_eq_true _).mp hopen
        · simp only [Channels.send, if_neg hopen]

/-- A step is one of these. -/
theorem taken_of_step {s s' : Broker φ} {e : Event φ} (hstep : s.step e = some s') : s.Taken e s' := by
  cases e with
  | connect agentId claims =>
      cases hstep
      exact .connect agentId claims
  | post agentId frame =>
      cases hstep
      exact .post agentId frame
  | disconnect agentId now =>
      cases hstep
      exact .disconnect agentId now
  | acquire t now =>
      obtain ⟨tunnel, hget, hmove⟩ := Option.bind_eq_some_iff.mp hstep
      simp only [stepTunnel] at hmove
      split at hmove
      · rename_i hat
        cases hmove
        exact .acquire now hget hat
      · cases hmove
  | drain t =>
      obtain ⟨tunnel, hget, hmove⟩ := Option.bind_eq_some_iff.mp hstep
      simp only [stepTunnel] at hmove
      split at hmove
      · rename_i hat
        cases hmove
        exact .drain hget hat
      · cases hmove
  | enqueue t =>
      obtain ⟨tunnel, hget, hmove⟩ := Option.bind_eq_some_iff.mp hstep
      simp only [stepTunnel] at hmove
      split at hmove
      · rename_i hat
        cases hmove
        exact .serve hget hat
      · rename_i frame buffered hat
        cases hmove
        exact .enqueue hget hat
      · cases hmove
  | write t =>
      obtain ⟨tunnel, hget, hmove⟩ := Option.bind_eq_some_iff.mp hstep
      simp only [stepTunnel] at hmove
      split at hmove
      · rename_i hat hrecv
        cases hmove
        exact .write hget (.inl hat) hrecv
      · rename_i hat hrecv
        cases hmove
        exact .write hget (.inr hat) hrecv
      · cases hmove
  | writeFails t =>
      obtain ⟨tunnel, hget, hmove⟩ := Option.bind_eq_some_iff.mp hstep
      simp only [stepTunnel] at hmove
      split at hmove
      · rename_i hat
        cases hmove
        exact .writeFails hget (.inl hat)
      · rename_i hat
        cases hmove
        exact .writeFails hget (.inr hat)
      · cases hmove
  | respond t frame =>
      obtain ⟨tunnel, hget, hmove⟩ := Option.bind_eq_some_iff.mp hstep
      simp only [stepTunnel] at hmove
      split at hmove
      · rename_i hat
        cases hmove
        exact .respond frame hget hat
      · cases hmove
  | close t now =>
      obtain ⟨tunnel, hget, hmove⟩ := Option.bind_eq_some_iff.mp hstep
      simp only [stepTunnel] at hmove
      split at hmove
      · rename_i hat
        cases hmove
        exact .close now hget hat
      · cases hmove
  | abort t =>
      obtain ⟨tunnel, hget, hmove⟩ := Option.bind_eq_some_iff.mp hstep
      simp only [stepTunnel] at hmove
      split at hmove
      · rename_i hat
        cases hmove
        exact .abort hget hat
      · cases hmove
  | deliver p =>
      obtain ⟨post, hget, hmove⟩ := Option.bind_eq_some_iff.mp hstep
      simp only [stepPost] at hmove
      split at hmove
      · rename_i frame hat
        rcases deliver_cases s.registry s.channels post.agentId frame with
          ⟨entry, hentry, hopen, hdeliver⟩ | ⟨hnone, hdeliver⟩
        · rw [hdeliver] at hmove
          cases hmove
          exact .deliverLive hget hat hentry hopen
        · rw [hdeliver] at hmove
          cases hmove
          exact .deliverNone hget hat hnone
      · cases hmove
  | push p =>
      obtain ⟨post, hget, hmove⟩ := Option.bind_eq_some_iff.mp hstep
      simp only [stepPost] at hmove
      split at hmove
      · rename_i frame hat
        split at hmove
        · rename_i queue hpush
          cases hmove
          exact .pushed hget hat hpush
        · rename_i e queue hpush
          cases hmove
          exact .refused hget hat hpush
      · cases hmove

theorem tunnels_eq_set {s : Broker φ} {t : Nat} {tunnel : Tunnel φ} (hget : s.tunnels[t]? = some tunnel) :
    s.tunnels = s.tunnels.set t tunnel := by
  obtain ⟨hlt, hval⟩ := List.getElem?_eq_some_iff.mp hget
  rw [← hval, List.set_getElem_self]

/-! ### One request on its own -/

/-- The part of the broker the handlers see. -/
def appState (s : Broker (List Char)) : AppState := ⟨s.registry, s.messageQueue, s.channels⟩

def answer (agentId : Uuid) : Except QueueError Delivery → Except ApiError Delivery
  | .ok delivery => .ok delivery
  | .error (.full _ capacity) => .error (queueFull agentId capacity)

section OneRequest

variable {s : Broker φ} {posts : List (Post φ)} {agentId : Uuid} {frame : φ} {channels : Channels φ}

theorem movePost_concat {post post' : Post φ} (at_ : PostAt φ) (hposts : s.posts = posts ++ [post]) :
    s.movePost posts.length post' at_ = { s with posts := posts ++ [{ post' with at_ := at_ }] } := by
  rw [movePost, hposts, List.set_append_right _ _ (Nat.le_refl _), Nat.sub_self]
  rfl

theorem getElem?_posts_concat {post : Post φ} (hposts : s.posts = posts ++ [post]) :
    s.posts[posts.length]? = some post := by
  rw [hposts]
  exact List.getElem?_concat_length

theorem step_deliver_live (hposts : s.posts = posts ++ [⟨agentId, .delivering frame⟩])
    (hdeliver : s.registry.deliver s.channels agentId frame = (.live, channels)) :
    s.step (.deliver posts.length) =
      some { s with posts := posts ++ [⟨agentId, .answered (.ok .live)⟩], channels := channels } := by
  rw [step, getElem?_posts_concat hposts, Option.bind_some]
  simp only [stepPost, hdeliver, movePost_concat _ hposts]

theorem step_deliver_noTunnel (hposts : s.posts = posts ++ [⟨agentId, .delivering frame⟩])
    (hdeliver : s.registry.deliver s.channels agentId frame = (.noTunnel frame, channels)) :
    s.step (.deliver posts.length) =
      some { s with posts := posts ++ [⟨agentId, .pushing frame⟩], channels := channels } := by
  rw [step, getElem?_posts_concat hposts, Option.bind_some]
  simp only [stepPost, hdeliver, movePost_concat _ hposts]

theorem step_push (hposts : s.posts = posts ++ [⟨agentId, .pushing frame⟩]) :
    s.step (.push posts.length) =
      some { s with
        posts := posts ++
          [⟨agentId, .answered ((s.messageQueue.push agentId frame).1.map fun _ => .queued)⟩]
        messageQueue := (s.messageQueue.push agentId frame).2 } := by
  rw [step, getElem?_posts_concat hposts, Option.bind_some]
  simp only [stepPost, movePost_concat _ hposts]
  split
  · rename_i queue hpush
    simp only [hpush, Except.map]
  · rename_i e queue hpush
    simp only [hpush, Except.map]

end OneRequest

theorem run_step {capacity : Nat} {s t u : Broker φ} {e : Event φ} {es : List (Event φ)}
    (hstep : s.step e = some t) (hrun : (system capacity).run t es = some u) :
    (system capacity).run s (e :: es) = some u :=
  (system capacity).run_cons_eq_some.mpr ⟨t, hstep, hrun⟩

/-- With nobody's step in between, the steps of a request are `send_message`. -/
theorem sendMessage_eq_run (capacity : Nat) (s : Broker (List Char)) (agentId : Uuid)
    {req : SendMessageRequest} (hrole : req.role ≠ "") :
    ∃ es t outcome,
      (es = [.deliver s.posts.length] ∨ es = [.deliver s.posts.length, .push s.posts.length]) ∧
      (system capacity).run s (.post agentId req.frame :: es) = some t ∧
      t.posts = s.posts ++ [⟨agentId, .answered outcome⟩] ∧
      sendMessage s.appState agentId req = (answer agentId outcome, t.appState) := by
  have hpost : s.step (.post agentId req.frame) =
      some { s with posts := s.posts ++ [⟨agentId, .delivering req.frame⟩] } := rfl
  rcases hdeliver : s.registry.deliver s.channels agentId req.frame with ⟨found, channels⟩
  cases found with
  | live =>
      have hstep := @step_deliver_live _ { s with posts := _ } s.posts _ _ _ rfl hdeliver
      refine ⟨_, _, .ok .live, .inl rfl, run_step hpost (run_step hstep rfl), rfl, ?_⟩
      simp only [sendMessage, if_neg hrole, appState, hdeliver, answer]
  | noTunnel frame =>
      obtain ⟨rfl, -⟩ := InMemoryAgentRegistry.deliver_noTunnel hdeliver
      have hstep := @step_deliver_noTunnel _ { s with posts := _ } s.posts _ _ _ rfl hdeliver
      have hpush := @step_push _ { s with posts := _, channels := channels } s.posts agentId req.frame rfl
      refine ⟨_, _, _, .inr rfl, run_step hpost (run_step hstep (run_step hpush rfl)), rfl, ?_⟩
      simp only [sendMessage, if_neg hrole, appState, hdeliver]
      rcases hqueue : s.messageQueue.push agentId req.frame with ⟨result, queue⟩
      rcases result with ⟨_, full⟩ | _
      · simp only [Except.map, answer]
      · simp only [Except.map, answer]

end Broker

end Overacp
