import Overacp.Lib.BoundedFifo
import Overacp.Lib.Broadcast
import Overacp.Server.Registry.Agent

/-!
# The stream broker in memory

One broadcast channel for each agent, made when it is first asked for and never removed. Whatever other agents
publish and other subscribers do, a subscriber's stream is the mailbox of its own agent's frames.
-/

namespace Overacp

/-- How many frames a channel keeps. -/
def streamBuffer : Nat := 128

structure InMemoryStreamBroker (φ : Type) where
  bus : DashMap Uuid (Broadcast.Channel Nat φ)

namespace InMemoryStreamBroker

variable {φ : Type}

def new : InMemoryStreamBroker φ := ⟨∅⟩

/-- Get or create. -/
def senderFor (broker : InMemoryStreamBroker φ) (agentId : Uuid) : Broadcast.Channel Nat φ × InMemoryStreamBroker φ :=
  match broker.bus.lookup agentId with
  | some channel => (channel, broker)
  | none => (.new, ⟨broker.bus.insert agentId .new⟩)

/-- A channel is shared: what is done with a sender or a receiver of it shows in the bus. -/
def store (broker : InMemoryStreamBroker φ) (agentId : Uuid) (channel : Broadcast.Channel Nat φ) :
    InMemoryStreamBroker φ :=
  ⟨broker.bus.insert agentId channel⟩

/-- Without a subscriber the frame is gone. -/
def publish (broker : InMemoryStreamBroker φ) (agentId : Uuid) (frame : φ) : InMemoryStreamBroker φ :=
  (broker.senderFor agentId).2.store agentId ((broker.senderFor agentId).1.sent streamBuffer frame)

def subscribe (broker : InMemoryStreamBroker φ) (agentId : Uuid) (receiver : Nat) : InMemoryStreamBroker φ :=
  (broker.senderFor agentId).2.store agentId ((broker.senderFor agentId).1.subscribe receiver)

/-- The channel of an agent, which there is as soon as it is asked for. -/
def channel (broker : InMemoryStreamBroker φ) (agentId : Uuid) : Broadcast.Channel Nat φ :=
  (broker.senderFor agentId).1

theorem channel_eq (broker : InMemoryStreamBroker φ) (agentId : Uuid) :
    broker.channel agentId = (broker.bus.lookup agentId).getD .new := by
  rw [channel, senderFor]
  cases broker.bus.lookup agentId <;> rfl

theorem channel_store_self (broker : InMemoryStreamBroker φ) (agentId : Uuid) (ch : Broadcast.Channel Nat φ) :
    (broker.store agentId ch).channel agentId = ch := by
  rw [channel_eq, store, AList.lookup_insert, Option.getD_some]

theorem channel_store_ne (broker : InMemoryStreamBroker φ) {agentId other : Uuid} (h : other ≠ agentId)
    (ch : Broadcast.Channel Nat φ) : (broker.store agentId ch).channel other = broker.channel other := by
  rw [channel_eq, channel_eq, store, AList.lookup_insert_ne h]

/-- To make a channel changes none. -/
theorem channel_senderFor (broker : InMemoryStreamBroker φ) (agentId other : Uuid) :
    (broker.senderFor agentId).2.channel other = broker.channel other := by
  rw [senderFor]
  cases hlookup : broker.bus.lookup agentId with
  | some ch => rfl
  | none =>
      by_cases hother : other = agentId
      · rw [hother]
        refine (channel_store_self broker agentId .new).trans ?_
        rw [channel_eq, hlookup]
        rfl
      · exact channel_store_ne broker hother .new

theorem channel_publish_self (broker : InMemoryStreamBroker φ) (agentId : Uuid) (frame : φ) :
    (broker.publish agentId frame).channel agentId = (broker.channel agentId).sent streamBuffer frame :=
  channel_store_self _ agentId _

theorem channel_publish_ne (broker : InMemoryStreamBroker φ) {agentId other : Uuid} (h : other ≠ agentId)
    (frame : φ) : (broker.publish agentId frame).channel other = broker.channel other :=
  (channel_store_ne _ h _).trans (channel_senderFor broker agentId other)

theorem channel_subscribe_self (broker : InMemoryStreamBroker φ) (agentId : Uuid) (receiver : Nat) :
    (broker.subscribe agentId receiver).channel agentId = (broker.channel agentId).subscribe receiver :=
  channel_store_self _ agentId _

theorem channel_subscribe_ne (broker : InMemoryStreamBroker φ) {agentId other : Uuid} (h : other ≠ agentId)
    (receiver : Nat) : (broker.subscribe agentId receiver).channel other = broker.channel other :=
  (channel_store_ne _ h _).trans (channel_senderFor broker agentId other)

end InMemoryStreamBroker

/-! ### Publishers and subscribers -/

/-- What the tunnels and the handlers of `GET /agents/\x7bid\x7d/stream` do. A stream asks its receiver until it
gets a frame or there is none. -/
inductive StreamCall (φ : Type) where
  | publish (agentId : Uuid) (frame : φ)
  | subscribe (agentId : Uuid)
  | recv (stream : Nat)
  | drop (stream : Nat)
  deriving DecidableEq, Repr

/-- The broker, and the agent of each stream there was. -/
structure Fanout (φ : Type) where
  broker : InMemoryStreamBroker φ
  streams : List Uuid

namespace Fanout

variable {φ : Type}

def new : Fanout φ := ⟨.new, []⟩

/-- Streams are numbered as they are made; only a stream that is not dropped is answered. -/
def step (fanout : Fanout φ) : StreamCall φ → Option (Broadcast.Received φ) × Fanout φ
  | .publish agentId frame => (none, { fanout with broker := fanout.broker.publish agentId frame })
  | .subscribe agentId =>
      (none, ⟨fanout.broker.subscribe agentId fanout.streams.length, fanout.streams ++ [agentId]⟩)
  | .recv stream =>
      match fanout.streams[stream]? with
      | none => (none, fanout)
      | some agentId =>
          match (fanout.broker.channel agentId).recv stream with
          | none => (none, fanout)
          | some (received, ch) => (some received, { fanout with broker := fanout.broker.store agentId ch })
  | .drop stream =>
      match fanout.streams[stream]? with
      | none => (none, fanout)
      | some agentId =>
          (none, { fanout with
            broker := fanout.broker.store agentId ((fanout.broker.channel agentId).drop stream) })

/-- The broker after the calls. -/
def after (fanout : Fanout φ) (calls : List (StreamCall φ)) : Fanout φ :=
  calls.foldl (fun fanout call => (fanout.step call).2) fanout

/-- What a call was answered, if it asked the stream. -/
def answerTo (stream : Nat) : StreamCall φ → Option (Broadcast.Received φ) → List (Broadcast.Received φ)
  | .recv n, answer => if n = stream then answer.toList else []
  | .publish _ _, _ | .subscribe _, _ | .drop _, _ => []

/-- What a stream's receiver answered, call by call. -/
def given (fanout : Fanout φ) (stream : Nat) : List (StreamCall φ) → List (Broadcast.Received φ)
  | [] => []
  | call :: calls => answerTo stream call (fanout.step call).1 ++ given (fanout.step call).2 stream calls

/-! ### One stream -/

open Broadcast (Mailbox)

/-- What a call is to the mailbox of a stream. -/
def seenBy (agentId : Uuid) (stream : Nat) : StreamCall φ → Option (Mailbox.Event φ)
  | .publish other frame => if other = agentId then some (.post frame) else none
  | .recv n => if n = stream then some .take else none
  | .subscribe _ | .drop _ => none

/-- A frame published for an agent. -/
def frameTo (agentId : Uuid) : StreamCall φ → Option φ
  | .publish other frame => if other = agentId then some frame else none
  | .subscribe _ | .recv _ | .drop _ => none

def publishedTo (agentId : Uuid) (calls : List (StreamCall φ)) : List φ := calls.filterMap (frameTo agentId)

theorem posted_seenBy (agentId : Uuid) (stream : Nat) (calls : List (StreamCall φ)) :
    (calls.filterMap (seenBy agentId stream)).filterMap Mailbox.Event.posted? = publishedTo agentId calls := by
  rw [publishedTo, List.filterMap_filterMap]
  refine List.filterMap_congr fun call _ => ?_
  cases call with
  | publish other frame =>
      rw [seenBy, frameTo]
      split_ifs <;> rfl
  | recv n =>
      rw [seenBy, frameTo]
      split_ifs <;> rfl
  | subscribe | drop => rfl

theorem seenBy_cases (agentId : Uuid) (stream : Nat) (call : StreamCall φ) :
    (∃ frame, call = .publish agentId frame ∧ seenBy agentId stream call = some (.post frame)) ∨
      (call = .recv stream ∧ seenBy agentId stream call = some .take) ∨
      (seenBy agentId stream call = none ∧ ∀ answer, answerTo stream call answer = []) := by
  cases call with
  | publish other frame =>
      by_cases hother : other = agentId
      · exact .inl ⟨frame, by rw [hother], if_pos hother⟩
      · exact .inr (.inr ⟨if_neg hother, fun _ => rfl⟩)
  | recv n =>
      by_cases hn : n = stream
      · exact .inr (.inl ⟨by rw [hn], if_pos hn⟩)
      · exact .inr (.inr ⟨if_neg hn, fun _ => if_neg hn⟩)
  | subscribe | drop => exact .inr (.inr ⟨rfl, fun _ => rfl⟩)

/-- Every channel is full or holds everything. -/
def Sound (fanout : Fanout φ) : Prop := ∀ agentId, (fanout.broker.channel agentId).Filled streamBuffer

theorem sound_store {fanout : Fanout φ} (h : fanout.Sound) {agentId : Uuid} {ch : Broadcast.Channel Nat φ}
    (hch : ch.Filled streamBuffer) (other : Uuid) :
    ((fanout.broker.store agentId ch).channel other).Filled streamBuffer := by
  by_cases hother : other = agentId
  · rw [hother, InMemoryStreamBroker.channel_store_self]
    exact hch
  · rw [InMemoryStreamBroker.channel_store_ne _ hother]
    exact h other

theorem recv_filled {ch : Broadcast.Channel Nat φ} (hch : ch.Filled streamBuffer) {stream : Nat}
    {received : Broadcast.Received φ} {ch' : Broadcast.Channel Nat φ} (h : ch.recv stream = some (received, ch')) :
    ch'.Filled streamBuffer := by
  cases hmailbox : ch.mailbox? stream with
  | none =>
      rw [(Broadcast.Channel.recv_eq_none stream).mpr hmailbox] at h
      cases h
  | some mailbox =>
      obtain ⟨next, hnext, hfilled, -⟩ := Broadcast.Channel.recv_spec hch hmailbox
      rw [h] at hnext
      cases hnext
      exact hfilled

theorem Sound.step {fanout : Fanout φ} (h : fanout.Sound) (call : StreamCall φ) : (fanout.step call).2.Sound := by
  cases call with
  | publish agentId frame =>
      intro other
      by_cases hother : other = agentId
      · rw [hother, Fanout.step]
        dsimp only
        rw [InMemoryStreamBroker.channel_publish_self]
        exact (h agentId).sent frame
      · rw [Fanout.step]
        dsimp only
        rw [InMemoryStreamBroker.channel_publish_ne _ hother]
        exact h other
  | subscribe agentId =>
      intro other
      by_cases hother : other = agentId
      · rw [hother, Fanout.step]
        dsimp only
        rw [InMemoryStreamBroker.channel_subscribe_self]
        exact (h agentId).subscribe _
      · rw [Fanout.step]
        dsimp only
        rw [InMemoryStreamBroker.channel_subscribe_ne _ hother]
        exact h other
  | recv stream =>
      rw [Fanout.step]
      cases fanout.streams[stream]? with
      | none => exact h
      | some agentId =>
          dsimp only
          cases hrecv : (fanout.broker.channel agentId).recv stream with
          | none => exact h
          | some received => exact sound_store h (recv_filled (h agentId) hrecv)
  | drop stream =>
      rw [Fanout.step]
      cases fanout.streams[stream]? with
      | none => exact h
      | some agentId => exact sound_store h ((h agentId).drop stream)

theorem sound_new : (new : Fanout φ).Sound := fun _ => Broadcast.Channel.filled_new

theorem Sound.after {fanout : Fanout φ} (h : fanout.Sound) (calls : List (StreamCall φ)) :
    (fanout.after calls).Sound := by
  induction calls generalizing fanout with
  | nil => exact h
  | cons call calls ih => exact ih (h.step call)

/-- The stream is one of the agent's, and this is its mailbox. -/
structure Tracks (fanout : Fanout φ) (agentId : Uuid) (stream : Nat) (mailbox : Mailbox φ) : Prop where
  agent : fanout.streams[stream]? = some agentId
  mailbox : (fanout.broker.channel agentId).mailbox? stream = some mailbox

section

variable {fanout : Fanout φ} {agentId : Uuid} {stream : Nat} {mailbox : Mailbox φ}

theorem tracks_subscribed (fanout : Fanout φ) (agentId : Uuid) :
    Tracks (fanout.step (.subscribe agentId)).2 agentId fanout.streams.length .new where
  agent := List.getElem?_concat_length
  mailbox := by
    rw [Fanout.step]
    dsimp only
    rw [InMemoryStreamBroker.channel_subscribe_self]
    exact Broadcast.Channel.mailbox?_subscribe_self _

theorem Tracks.publish (h : Tracks fanout agentId stream mailbox) (hsound : fanout.Sound) (frame : φ) :
    Tracks (fanout.step (.publish agentId frame)).2 agentId stream (mailbox.post streamBuffer frame) where
  agent := h.agent
  mailbox := by
    rw [Fanout.step]
    dsimp only
    rw [InMemoryStreamBroker.channel_publish_self, Broadcast.Channel.mailbox?_sent (hsound agentId), h.mailbox]
    rfl

theorem Tracks.recv (h : Tracks fanout agentId stream mailbox) (hsound : fanout.Sound) :
    (fanout.step (.recv stream)).1 = some mailbox.take.1 ∧
      Tracks (fanout.step (.recv stream)).2 agentId stream mailbox.take.2 := by
  obtain ⟨ch, hrecv, -, hmailbox, -⟩ := Broadcast.Channel.recv_spec (hsound agentId) h.mailbox
  have hstep : fanout.step (.recv stream) =
      (some mailbox.take.1, { fanout with broker := fanout.broker.store agentId ch }) := by
    simp only [Fanout.step, h.agent, hrecv]
  rw [hstep]
  refine ⟨rfl, h.agent, ?_⟩
  dsimp only
  rw [InMemoryStreamBroker.channel_store_self]
  exact hmailbox

/-- Whatever another agent's tunnel or another stream does leaves the mailbox as it is. -/
theorem Tracks.other (h : Tracks fanout agentId stream mailbox) (hsound : fanout.Sound) {call : StreamCall φ}
    (hcall : seenBy agentId stream call = none) (hdrop : call ≠ .drop stream) :
    Tracks (fanout.step call).2 agentId stream mailbox := by
  cases call with
  | publish other frame =>
      have hother : agentId ≠ other := by
        rintro rfl
        rw [seenBy, if_pos rfl] at hcall
        cases hcall
      refine ⟨h.agent, ?_⟩
      rw [Fanout.step]
      dsimp only
      rw [InMemoryStreamBroker.channel_publish_ne _ hother]
      exact h.mailbox
  | subscribe other =>
      have hlt := (List.getElem?_eq_some_iff.mp h.agent).1
      refine ⟨(List.getElem?_append_left hlt).trans h.agent, ?_⟩
      rw [Fanout.step]
      dsimp only
      by_cases hother : agentId = other
      · rw [← hother, InMemoryStreamBroker.channel_subscribe_self, Broadcast.Channel.mailbox?_subscribe_ne hlt.ne]
        exact h.mailbox
      · rw [InMemoryStreamBroker.channel_subscribe_ne _ hother]
        exact h.mailbox
  | recv n =>
      have hn : stream ≠ n := by
        rintro rfl
        rw [seenBy, if_pos rfl] at hcall
        cases hcall
      rw [Fanout.step]
      cases hagent : fanout.streams[n]? with
      | none => exact h
      | some other =>
          dsimp only
          cases hrecv : (fanout.broker.channel other).recv n with
          | none => exact h
          | some received =>
              refine ⟨h.agent, ?_⟩
              dsimp only
              by_cases hother : agentId = other
              · subst hother
                rw [InMemoryStreamBroker.channel_store_self]
                cases hmailbox : (fanout.broker.channel agentId).mailbox? n with
                | none =>
                    rw [(Broadcast.Channel.recv_eq_none n).mpr hmailbox] at hrecv
                    cases hrecv
                | some asked =>
                    obtain ⟨ch, hch, -, -, hkept⟩ := Broadcast.Channel.recv_spec (hsound agentId) hmailbox
                    rw [hrecv, Option.some_inj] at hch
                    rw [hch, hkept stream hn]
                    exact h.mailbox
              · rw [InMemoryStreamBroker.channel_store_ne _ hother]
                exact h.mailbox
  | drop n =>
      have hn : stream ≠ n := fun hn => hdrop (hn ▸ rfl)
      rw [Fanout.step]
      cases hagent : fanout.streams[n]? with
      | none => exact h
      | some other =>
          refine ⟨h.agent, ?_⟩
          dsimp only
          by_cases hother : agentId = other
          · rw [← hother, InMemoryStreamBroker.channel_store_self, Broadcast.Channel.mailbox?_drop_ne hn]
            exact h.mailbox
          · rw [InMemoryStreamBroker.channel_store_ne _ hother]
            exact h.mailbox

/-- The stream is given what its mailbox gives. -/
theorem Tracks.given (h : Tracks fanout agentId stream mailbox) (hsound : fanout.Sound) {calls : List (StreamCall φ)}
    (hopen : .drop stream ∉ calls) :
    fanout.given stream calls = (mailbox.run streamBuffer (calls.filterMap (seenBy agentId stream))).1 := by
  induction calls generalizing fanout mailbox with
  | nil => rfl
  | cons call calls ih =>
      rw [List.mem_cons, not_or] at hopen
      rcases seenBy_cases agentId stream call with ⟨frame, rfl, hseen⟩ | ⟨rfl, hseen⟩ | ⟨hseen, hanswer⟩
      · rw [Fanout.given, ih (h.publish hsound frame) (hsound.step _) hopen.2, List.filterMap_cons_some hseen,
          Mailbox.run, answerTo, List.nil_append]
      · obtain ⟨hanswer, hnext⟩ := h.recv hsound
        rw [Fanout.given, hanswer, ih hnext (hsound.step _) hopen.2, List.filterMap_cons_some hseen, answerTo,
          if_pos rfl]
        rfl
      · rw [Fanout.given, hanswer, ih (h.other hsound hseen (Ne.symm hopen.1)) (hsound.step _) hopen.2,
          List.filterMap_cons_none hseen, List.nil_append]

end

/-- What a stream yields: a receiver that lagged says so, and the stream passes over that. -/
def frames (given : List (Broadcast.Received φ)) : List φ := Mailbox.values given

/-- In any run, and whatever came before, a stream is given what a mailbox of its own would give it that only
its agent's frames are posted to. So it yields frames published for its agent since it was made, in their order
and none twice; every other one is waiting, and is among the last, or was missed; and none is missed by a
stream that never has more than the buffer holds waiting. -/
theorem stream_spec (before : List (StreamCall φ)) (agentId : Uuid) (calls : List (StreamCall φ)) :
    let fanout := (new : Fanout φ).after before
    let stream := fanout.streams.length
    let events := calls.filterMap (seenBy agentId stream)
    let given := (fanout.step (.subscribe agentId)).2.given stream calls
    let waiting := (Mailbox.new.run streamBuffer events).2
    .drop stream ∉ calls →
      given = (Mailbox.new.run streamBuffer events).1 ∧
        (frames given ++ waiting.kept).Sublist (publishedTo agentId calls) ∧
        waiting.kept <:+ publishedTo agentId calls ∧ waiting.kept.length ≤ streamBuffer ∧
        (publishedTo agentId calls).length =
          (frames given).length + Mailbox.missedIn given + waiting.missed + waiting.kept.length ∧
        (Mailbox.KeepsUp streamBuffer 0 events → frames given ++ waiting.kept = publishedTo agentId calls) := by
  intro fanout stream events given waiting hopen
  have hsound : fanout.Sound := sound_new.after before
  have hgiven : given = (Mailbox.new.run streamBuffer events).1 :=
    (tracks_subscribed fanout agentId).given (hsound.step _) hopen
  have haccount := (@Mailbox.Account.start φ streamBuffer).run events
  rw [List.nil_append, List.nil_append, ← hgiven, posted_seenBy] at haccount
  refine ⟨hgiven, haccount.order, haccount.recent, haccount.bounded, haccount.count, fun hkeepsUp => ?_⟩
  obtain ⟨-, hcomplete⟩ := @Mailbox.run_of_keepsUp φ streamBuffer .new events rfl hkeepsUp
  rw [← hgiven, posted_seenBy] at hcomplete
  exact hcomplete

/-- A frame for one agent comes out of its stream, and a frame for another does not. -/
theorem stream_spec_two_agents :
    ((new.after [.subscribe 1]).step (.subscribe 2)).2.given 1
        [.publish 2 'x', .publish 1 'y', .recv 0, .recv 1, .recv 1] = [.value 'x', .empty] := by
  have hspec := stream_spec [.subscribe 1] 2 [.publish 2 'x', .publish 1 'y', .recv 0, .recv 1, .recv 1]
  exact (hspec (by decide)).1

end Fanout

end Overacp
