import Overacp.Server.Tunnel.Labelled

/-!
# The broker does not look into frames

Changing every frame of a broker and of an event, in any way, commutes with the step. So a run with
labelled frames is a run of the broker once the labels are forgotten, and nothing a request is answered
depends on them.
-/

namespace Overacp

variable {φ ψ : Type} (g : φ → ψ)

/-! ### Changing the frames -/

namespace DashMap

variable {κ ν ν' : Type} [DecidableEq κ] (f : ν → ν') (m : DashMap κ ν)

def mapEntry (entry : Sigma fun _ : κ => ν) : Sigma fun _ : κ => ν' := ⟨entry.1, f entry.2⟩

/-- The same keys, with other values. -/
def mapValues : DashMap κ ν' := ⟨m.entries.map (mapEntry f), m.nodupKeys.map₂ fun _ => f⟩

theorem lookup_mapValues (k : κ) : (mapValues f m).lookup k = (m.lookup k).map f :=
  @List.dlookup_map₂ _ _ _ (fun _ => ν') m.entries (fun _ => f) k

theorem kerase_mapEntry (k : κ) (entries : List (Sigma fun _ : κ => ν)) :
    (entries.map (mapEntry f)).kerase k = (entries.kerase k).map (mapEntry f) := by
  induction entries with
  | nil => rfl
  | cons entry entries ih =>
      by_cases hk : k = entry.1
      · rw [List.kerase_cons_eq hk]
        exact List.kerase_cons_eq hk
      · rw [List.kerase_cons_ne hk, List.map_cons, List.map_cons, ← ih]
        exact List.kerase_cons_ne hk

theorem mapValues_erase (k : κ) : mapValues f (m.erase k) = (mapValues f m).erase k :=
  AList.ext (kerase_mapEntry f k m.entries).symm

theorem mapValues_insert (k : κ) (v : ν) : mapValues f (m.insert k v) = (mapValues f m).insert k (f v) := by
  apply AList.ext
  exact congrArg (⟨k, f v⟩ :: ·) (kerase_mapEntry f k m.entries).symm

end DashMap

namespace InMemoryMessageQueue

variable (queue : InMemoryMessageQueue φ) (agentId : Uuid)

def map : InMemoryMessageQueue ψ := ⟨DashMap.mapValues (List.map g) queue.inner, queue.perAgentCapacity⟩

theorem buffer_map : (queue.map g).buffer agentId = (queue.buffer agentId).map g := by
  rw [buffer, map, DashMap.lookup_mapValues, buffer]
  cases queue.inner.lookup agentId with
  | none => rfl
  | some frames => rfl

theorem drain_map :
    (queue.map g).drain agentId = ((queue.drain agentId).1.map g, (queue.drain agentId).2.map g) := by
  rw [drain, buffer_map, drain]
  simp only [map, DashMap.mapValues_erase]

theorem push_map (frame : φ) :
    (queue.map g).push agentId (g frame) = ((queue.push agentId frame).1, (queue.push agentId frame).2.map g) := by
  simp only [push, buffer_map, List.length_map]
  rw [show (queue.map g).perAgentCapacity = queue.perAgentCapacity from rfl]
  split
  · simp only [map, DashMap.mapValues_insert]
  · simp only [map, DashMap.mapValues_insert, List.map_append, List.map_cons, List.map_nil]

end InMemoryMessageQueue

theorem InMemoryAgentRegistry.deliver_map (registry : InMemoryAgentRegistry) (cs : Channels φ)
    (agentId : Uuid) (frame : φ) :
    registry.deliver (Channels.map g cs) agentId (g frame) =
      match registry.deliver cs agentId frame with
      | (.live, channels) => (.live, Channels.map g channels)
      | (.noTunnel back, channels) => (.noTunnel (g back), Channels.map g channels) := by
  cases hget : registry.get agentId with
  | none => simp only [deliver, hget]
  | some entry =>
      rw [deliver_of_get hget, deliver_of_get hget, sendOutcome, sendOutcome, Channels.send_map]
      cases cs.send entry.val.tx frame with
      | ok cs' => rfl
      | error back => rfl

def TunnelAt.map : TunnelAt φ → TunnelAt ψ
  | .connecting => .connecting
  | .acquired => .acquired
  | .draining frames => .draining (frames.map g)
  | .serving => .serving
  | .leaving => .leaving
  | .ended => .ended

def Tunnel.map (tunnel : Tunnel φ) : Tunnel ψ :=
  ⟨tunnel.agentId, tunnel.claims, tunnel.at_.map g, tunnel.written.map g⟩

def PostAt.map : PostAt φ → PostAt ψ
  | .delivering frame => .delivering (g frame)
  | .pushing frame => .pushing (g frame)
  | .answered outcome => .answered outcome

def Post.map (post : Post φ) : Post ψ := ⟨post.agentId, post.at_.map g⟩

namespace Broker

def map (s : Broker φ) : Broker ψ :=
  ⟨s.registry, s.messageQueue.map g, Channels.map g s.channels, s.tunnels.map (·.map g), s.posts.map (·.map g)⟩

def Event.map : Event φ → Event ψ
  | .connect agentId claims => .connect agentId claims
  | .acquire t now => .acquire t now
  | .drain t => .drain t
  | .enqueue t => .enqueue t
  | .write t => .write t
  | .writeFails t => .writeFails t
  | .respond t frame => .respond t (g frame)
  | .close t now => .close t now
  | .abort t => .abort t
  | .post agentId frame => .post agentId (g frame)
  | .deliver p => .deliver p
  | .push p => .push p
  | .disconnect agentId now => .disconnect agentId now

/-! ### The step commutes with it -/

theorem stepTunnel_map (s : Broker φ) (t : Nat) (tunnel : Tunnel φ) (e : Event φ) :
    (s.map g).stepTunnel t (tunnel.map g) (e.map g) = (s.stepTunnel t tunnel e).map (map g) := by
  obtain ⟨agentId, claims, at_, written⟩ := tunnel
  cases e with
  | connect | post | deliver | push | disconnect => rfl
  | acquire t' now =>
      cases at_ with
      | connecting =>
          simp only [Event.map, stepTunnel, Tunnel.map, TunnelAt.map, Option.map_some, map, moveTunnel,
            List.map_set]
      | _ => rfl
  | drain t' =>
      cases at_ with
      | acquired =>
          simp only [Event.map, stepTunnel, Tunnel.map, TunnelAt.map, Option.map_some, map, moveTunnel,
            List.map_set, InMemoryMessageQueue.drain_map]
      | _ => rfl
  | enqueue t' =>
      cases at_ with
      | draining buffered =>
          cases buffered with
          | nil =>
              simp only [Event.map, stepTunnel, Tunnel.map, TunnelAt.map, List.map_nil, Option.map_some, map,
                moveTunnel, List.map_set]
          | cons frame buffered =>
              simp only [Event.map, stepTunnel, Tunnel.map, TunnelAt.map, List.map_cons, Option.map_some, map,
                moveTunnel, List.map_set, Channels.map_sent]
      | _ => rfl
  | write t' =>
      have hrecv := Channels.recv_map g s.channels t
      cases at_ with
      | serving | leaving =>
          simp only [Event.map, stepTunnel, Tunnel.map, TunnelAt.map, map, hrecv]
          cases s.channels.recv t with
          | none => rfl
          | some taken =>
              simp only [Option.map_some, map, List.map_set, Tunnel.map, TunnelAt.map, List.map_append,
                List.map_cons, List.map_nil]
      | _ => rfl
  | writeFails t' =>
      cases at_ with
      | serving | leaving =>
          simp only [Event.map, stepTunnel, Tunnel.map, TunnelAt.map, map, Option.map_some, Channels.map_close]
      | _ => rfl
  | respond t' frame =>
      cases at_ with
      | serving =>
          simp only [Event.map, stepTunnel, Tunnel.map, TunnelAt.map, map, Option.map_some, Channels.map_sent]
      | _ => rfl
  | close t' now =>
      cases at_ with
      | serving =>
          simp only [Event.map, stepTunnel, Tunnel.map, TunnelAt.map, Option.map_some, map, moveTunnel,
            List.map_set]
      | _ => rfl
  | abort t' =>
      cases at_ with
      | leaving =>
          simp only [Event.map, stepTunnel, Tunnel.map, TunnelAt.map, Option.map_some, map, moveTunnel,
            List.map_set, Channels.map_close]
      | _ => rfl

theorem stepPost_map (s : Broker φ) (p : Nat) (post : Post φ) (e : Event φ) :
    (s.map g).stepPost p (post.map g) (e.map g) = (s.stepPost p post e).map (map g) := by
  obtain ⟨agentId, at_⟩ := post
  cases e with
  | deliver p' =>
      cases at_ with
      | delivering frame =>
          have hdeliver := InMemoryAgentRegistry.deliver_map g s.registry s.channels agentId frame
          simp only [Event.map, stepPost, Post.map, PostAt.map, map, hdeliver]
          rcases s.registry.deliver s.channels agentId frame with ⟨_ | back, channels⟩
          · simp only [Option.map_some, movePost, map, List.map_set, Post.map, PostAt.map]
          · simp only [Option.map_some, movePost, map, List.map_set, Post.map, PostAt.map]
      | _ => rfl
  | push p' =>
      cases at_ with
      | pushing frame =>
          have hpush := InMemoryMessageQueue.push_map g s.messageQueue agentId frame
          simp only [Event.map, stepPost, Post.map, PostAt.map, map, hpush]
          rcases s.messageQueue.push agentId frame with ⟨err | _, queue⟩
          · simp only [Option.map_some, movePost, map, List.map_set, Post.map, PostAt.map]
          · simp only [Option.map_some, movePost, map, List.map_set, Post.map, PostAt.map]
      | _ => rfl
  | _ => rfl

/-- Whatever the frames are changed to, the changed broker takes the changed event to the changed state. -/
theorem step_map (s : Broker φ) (e : Event φ) : (s.map g).step (e.map g) = (s.step e).map (map g) := by
  have htunnel : ∀ t (e : Event φ), ((s.map g).tunnels[t]?.bind fun tunnel =>
      (s.map g).stepTunnel t tunnel (e.map g)) =
        (s.tunnels[t]?.bind fun tunnel => s.stepTunnel t tunnel e).map (map g) := fun t e => by
    rw [map, List.getElem?_map]
    cases s.tunnels[t]? with
    | none => rfl
    | some tunnel => exact stepTunnel_map g s t tunnel e
  have hpost : ∀ p (e : Event φ), ((s.map g).posts[p]?.bind fun post =>
      (s.map g).stepPost p post (e.map g)) =
        (s.posts[p]?.bind fun post => s.stepPost p post e).map (map g) := fun p e => by
    rw [map, List.getElem?_map]
    cases s.posts[p]? with
    | none => rfl
    | some post => exact stepPost_map g s p post e
  cases e with
  | connect agentId claims =>
      simp only [Event.map, step, Option.map_some, connect, map, List.length_map, List.map_append, List.map_cons,
        List.map_nil, Channels.map_create]
      rfl
  | post agentId frame =>
      simp only [Event.map, step, Option.map_some, map, List.map_append, List.map_cons, List.map_nil]
      rfl
  | disconnect agentId now =>
      refine congrArg some ?_
      rw [disconnectAgent, disconnectAgent, apply_ite (map g)]
      rfl
  | deliver p => exact hpost p (.deliver p)
  | push p => exact hpost p (.push p)
  | acquire t now => exact htunnel t (.acquire t now)
  | drain t => exact htunnel t (.drain t)
  | enqueue t => exact htunnel t (.enqueue t)
  | write t => exact htunnel t (.write t)
  | writeFails t => exact htunnel t (.writeFails t)
  | respond t frame => exact htunnel t (.respond t frame)
  | close t now => exact htunnel t (.close t now)
  | abort t => exact htunnel t (.abort t)

/-! ### Forgetting the labels -/

theorem label_body (s : Broker (Frame φ)) (e : Event φ) : (s.label e).map Frame.body = e := by
  cases e <;> rfl

/-- A run with labelled frames is the same events' run of the broker, once the labels are forgotten. -/
theorem run_labelled (capacity : Nat) (es : List (Event φ)) :
    ((labelled capacity).run (labelled capacity).init es).map (map Frame.body) =
      (system capacity).run (system capacity).init es := by
  refine (system capacity).run_map (labelled capacity) (map Frame.body) ?_ _ es
  intro s e
  show (s.step (s.label e)).map (map Frame.body) = (s.map Frame.body).step e
  rw [← step_map, label_body]

end Broker

end Overacp
