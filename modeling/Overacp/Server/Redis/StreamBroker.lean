import Mathlib.Data.List.Infix
import Overacp.Server.Registry.UuidText

/-!
# The stream broker in Redis

`PUBLISH` goes to whoever has the channel of the agent at that moment. Each stream has a connection of its own
and a task that takes it there: the task connects, subscribes, and then hands on what comes to the receiver of
the stream. From the time its subscription stands until its connection breaks a stream has every frame of its
agent, however far behind its receiver is, and before and after that it has none.
-/

namespace Overacp

def streamChannel (agentId : Uuid) : String := "overacp:stream:" ++ agentId.render

theorem streamChannel_injective : Function.Injective streamChannel := by
  intro agentId other h
  exact Uuid.render_injective (String.append_right_inj _ |>.mp h)

/-! ### Connections -/

/-- A connection for publications: the channel it is subscribed to, and what has come and was not read. -/
structure PubSubConnection (φ : Type) where
  channel : Option String
  inbox : List φ

namespace PubSubConnection

variable {φ : Type}

def new : PubSubConnection φ := ⟨none, []⟩

def subscribe (conn : PubSubConnection φ) (channel : String) : PubSubConnection φ :=
  { conn with channel := some channel }

/-- What `PUBLISH` does to a connection. -/
def publish (channel : String) (frame : φ) (conn : PubSubConnection φ) : PubSubConnection φ :=
  if conn.channel = some channel then { conn with inbox := conn.inbox ++ [frame] } else conn

/-- The server forgets the subscription; what has come is there to be read. -/
def lose (conn : PubSubConnection φ) : PubSubConnection φ := { conn with channel := none }

end PubSubConnection

/-! ### The broker -/

/-- The task of a stream: before its connection is made, with the connection, in its loop, and returned. -/
inductive Listener where
  | starting
  | connected
  | listening
  | returned
  deriving DecidableEq, Repr

/-- `queue` is what the task sent and the receiver has not taken, without a bound; `receiving` until the receiver
is dropped. -/
structure RedisStream (φ : Type) where
  agentId : Uuid
  listener : Listener
  connection : PubSubConnection φ
  queue : List φ
  receiving : Bool

abbrev RedisStreamBroker (φ : Type) := List (RedisStream φ)

/-- What a receiver that is asked has to say. -/
inductive Polled (φ : Type) where
  | frame (frame : φ)
  | pending
  | finished
  deriving DecidableEq, Repr

namespace RedisStream

variable {φ : Type}

def new (agentId : Uuid) : RedisStream φ := ⟨agentId, .starting, .new, [], true⟩

/-- The task returns, and its connection is closed with what was not read. -/
def return_ (stream : RedisStream φ) : RedisStream φ := { stream with listener := .returned, connection := .new }

/-- `Client::open` and `get_async_pubsub`. -/
def connect (stream : RedisStream φ) (ok : Bool) : RedisStream φ :=
  match stream.listener with
  | .starting => if ok then { stream with listener := .connected } else stream.return_
  | _ => stream

/-- `pubsub.subscribe(&channel)`. -/
def subscribe (stream : RedisStream φ) (ok : Bool) : RedisStream φ :=
  match stream.listener with
  | .connected =>
      if ok then
        { stream with
          listener := .listening
          connection := stream.connection.subscribe (streamChannel stream.agentId) }
      else stream.return_
  | _ => stream

/-- The arm of the loop that takes the next message: a connection that is broken has one no more. -/
def forward (stream : RedisStream φ) : RedisStream φ :=
  match stream.listener with
  | .listening =>
      match stream.connection.inbox with
      | [] => if stream.connection.channel = none then stream.return_ else stream
      | frame :: inbox =>
          if stream.receiving then
            { stream with connection := { stream.connection with inbox := inbox }, queue := stream.queue ++ [frame] }
          else stream.return_
  | _ => stream

/-- The arm of the loop that waits for the receiver to be dropped. -/
def closed (stream : RedisStream φ) : RedisStream φ :=
  match stream.listener with
  | .listening => if stream.receiving then stream else stream.return_
  | _ => stream

def lose (stream : RedisStream φ) : RedisStream φ := { stream with connection := stream.connection.lose }

def recv (stream : RedisStream φ) : Polled φ × RedisStream φ :=
  match stream.queue with
  | frame :: queue => (.frame frame, { stream with queue := queue })
  | [] => (if stream.listener = .returned then .finished else .pending, stream)

def drop (stream : RedisStream φ) : RedisStream φ := { stream with queue := [], receiving := false }

end RedisStream

/-- What the tunnels, the streams and their tasks do, and the network. A publication that fails reaches nobody. -/
inductive RedisStreamCall (φ : Type) where
  | publish (agentId : Uuid) (frame : φ) (ok : Bool)
  | subscribe (agentId : Uuid)
  | connect (stream : Nat) (ok : Bool)
  | attach (stream : Nat) (ok : Bool)
  | forward (stream : Nat)
  | closed (stream : Nat)
  | lose (stream : Nat)
  | recv (stream : Nat)
  | drop (stream : Nat)
  deriving DecidableEq, Repr

/-- The stream that a call is for. -/
def RedisStreamCall.stream? {φ : Type} : RedisStreamCall φ → Option Nat
  | publish .. | subscribe _ => none
  | connect stream _ | attach stream _ | forward stream | closed stream | lose stream | recv stream | drop stream =>
      some stream

namespace RedisStreamBroker

variable {φ : Type}

def publish (broker : RedisStreamBroker φ) (agentId : Uuid) (frame : φ) (ok : Bool) : RedisStreamBroker φ :=
  if ok then broker.map fun stream =>
    { stream with connection := stream.connection.publish (streamChannel agentId) frame }
  else broker

def subscribe (broker : RedisStreamBroker φ) (agentId : Uuid) : RedisStreamBroker φ := broker ++ [.new agentId]

/-- Streams are numbered as they are made. -/
def step (broker : RedisStreamBroker φ) : RedisStreamCall φ → Option (Polled φ) × RedisStreamBroker φ
  | .publish agentId frame ok => (none, broker.publish agentId frame ok)
  | .subscribe agentId => (none, broker.subscribe agentId)
  | .connect n ok => (none, List.modify broker n fun stream => stream.connect ok)
  | .attach n ok => (none, List.modify broker n fun stream => stream.subscribe ok)
  | .forward n => (none, List.modify broker n RedisStream.forward)
  | .closed n => (none, List.modify broker n RedisStream.closed)
  | .lose n => (none, List.modify broker n RedisStream.lose)
  | .recv n => (broker[n]?.map fun stream => stream.recv.1, List.modify broker n fun stream => stream.recv.2)
  | .drop n => (none, List.modify broker n RedisStream.drop)

def after (broker : RedisStreamBroker φ) (calls : List (RedisStreamCall φ)) : RedisStreamBroker φ :=
  calls.foldl (fun broker call => (step broker call).2) broker

/-- The frames that a call gave the receiver of a stream. -/
def answerTo (n : Nat) : RedisStreamCall φ → Option (Polled φ) → List φ
  | .recv m, some (.frame frame) => if m = n then [frame] else []
  | _, _ => []

/-- The frames the receiver of a stream was given. -/
def given (broker : RedisStreamBroker φ) (n : Nat) : List (RedisStreamCall φ) → List φ
  | [] => []
  | call :: calls => answerTo n call (step broker call).1 ++ given (step broker call).2 n calls

/-! ### What a stream hears -/

/-- How far a subscription has come. -/
inductive Stage where
  | starting
  | connected
  | hearing
  | ended
  deriving DecidableEq, Repr

def Stage.next (n : Nat) : Stage → RedisStreamCall φ → Stage
  | .starting, .connect m ok => if m = n then (if ok then .connected else .ended) else .starting
  | .connected, .attach m ok => if m = n then (if ok then .hearing else .ended) else .connected
  | .hearing, .lose m => if m = n then .ended else .hearing
  | stage, _ => stage

/-- A frame published for the agent. -/
def frameTo (agentId : Uuid) : RedisStreamCall φ → Option φ
  | .publish other frame ok => if other = agentId ∧ ok = true then some frame else none
  | _ => none

def publishedTo (agentId : Uuid) (calls : List (RedisStreamCall φ)) : List φ := calls.filterMap (frameTo agentId)

/-- The frames published for the agent while the subscription stands. -/
def heard (agentId : Uuid) (n : Nat) : Stage → List (RedisStreamCall φ) → List φ
  | _, [] => []
  | stage, call :: calls =>
      (if stage = .hearing then (frameTo agentId call).toList else []) ++ heard agentId n (stage.next n call) calls

end RedisStreamBroker

namespace RedisStream

open RedisStreamBroker (Stage frameTo)

variable {φ : Type}

/-- Where a stream is in its life, as its task and the server have it. -/
def Stands (stream : RedisStream φ) : Stage → Prop
  | .starting => stream.listener = .starting ∧ stream.connection = .new
  | .connected => stream.listener = .connected ∧ stream.connection = .new
  | .hearing => stream.listener = .listening ∧ stream.connection.channel = some (streamChannel stream.agentId)
  | .ended => (stream.listener = .listening ∨ stream.listener = .returned) ∧ stream.connection.channel = none

/-- A stream of the agent whose receiver is there, with what is on its way to the receiver. -/
structure Live (agentId : Uuid) (stream : RedisStream φ) (stage : Stage) (waiting : List φ) : Prop where
  agent : stream.agentId = agentId
  receiving : stream.receiving = true
  stands : stream.Stands stage
  waiting : waiting = stream.queue ++ stream.connection.inbox

variable {agentId : Uuid} {stream : RedisStream φ} {stage : Stage} {waiting : List φ}

theorem live_new (agentId : Uuid) : (new agentId : RedisStream φ).Live agentId .starting [] :=
  ⟨rfl, rfl, ⟨rfl, rfl⟩, rfl⟩

theorem Live.connect (h : stream.Live agentId stage waiting) (n : Nat) (ok : Bool) :
    (stream.connect ok).Live agentId (stage.next n (.connect n ok : RedisStreamCall φ)) waiting := by
  obtain ⟨hagent, hreceiving, hstands, hwaiting⟩ := h
  cases stage with
  | starting =>
      obtain ⟨hlistener, hconn⟩ := hstands
      rw [RedisStream.connect, hlistener, Stage.next, if_pos rfl]
      cases ok with
      | true => exact ⟨hagent, hreceiving, ⟨rfl, hconn⟩, hwaiting⟩
      | false => exact ⟨hagent, hreceiving, ⟨.inr rfl, rfl⟩, by rw [hwaiting, hconn]; rfl⟩
  | connected =>
      rw [RedisStream.connect, hstands.1]
      exact ⟨hagent, hreceiving, hstands, hwaiting⟩
  | hearing =>
      rw [RedisStream.connect, hstands.1]
      exact ⟨hagent, hreceiving, hstands, hwaiting⟩
  | ended =>
      have hsame : stream.connect ok = stream := by
        rw [RedisStream.connect]
        rcases hstands.1 with hlistener | hlistener <;> rw [hlistener]
      rw [hsame]
      exact ⟨hagent, hreceiving, hstands, hwaiting⟩

theorem Live.subscribe (h : stream.Live agentId stage waiting) (n : Nat) (ok : Bool) :
    (stream.subscribe ok).Live agentId (stage.next n (.attach n ok : RedisStreamCall φ)) waiting := by
  obtain ⟨hagent, hreceiving, hstands, hwaiting⟩ := h
  cases stage with
  | starting =>
      rw [RedisStream.subscribe, hstands.1]
      exact ⟨hagent, hreceiving, hstands, hwaiting⟩
  | connected =>
      obtain ⟨hlistener, hconn⟩ := hstands
      rw [RedisStream.subscribe, hlistener, Stage.next, if_pos rfl]
      cases ok with
      | true => exact ⟨hagent, hreceiving, ⟨rfl, rfl⟩, hwaiting⟩
      | false => exact ⟨hagent, hreceiving, ⟨.inr rfl, rfl⟩, by rw [hwaiting, hconn]; rfl⟩
  | hearing =>
      rw [RedisStream.subscribe, hstands.1]
      exact ⟨hagent, hreceiving, hstands, hwaiting⟩
  | ended =>
      have hsame : stream.subscribe ok = stream := by
        rw [RedisStream.subscribe]
        rcases hstands.1 with hlistener | hlistener <;> rw [hlistener]
      rw [hsame]
      exact ⟨hagent, hreceiving, hstands, hwaiting⟩

/-- What is handed on stays on its way; a task that returns has nothing left to hand on. -/
theorem Live.forward (h : stream.Live agentId stage waiting) : stream.forward.Live agentId stage waiting := by
  have hkept := h
  obtain ⟨hagent, hreceiving, hstands, hwaiting⟩ := h
  unfold RedisStream.forward
  cases hlistener : stream.listener with
  | starting | connected | returned => exact hkept
  | listening =>
      dsimp only
      cases hinbox : stream.connection.inbox with
      | nil =>
          dsimp only
          split_ifs with hlost
          · cases stage with
            | starting => exact absurd (hlistener.symm.trans hstands.1) nofun
            | connected => exact absurd (hlistener.symm.trans hstands.1) nofun
            | hearing => exact absurd (hlost.symm.trans hstands.2) nofun
            | ended => exact ⟨hagent, hreceiving, ⟨.inr rfl, rfl⟩, by rw [hwaiting, hinbox]; rfl⟩
          · exact hkept
      | cons frame inbox =>
          dsimp only
          rw [if_pos hreceiving]
          refine ⟨hagent, hreceiving, ?_, ?_⟩
          · cases stage with
            | starting => exact absurd (hlistener.symm.trans hstands.1) nofun
            | connected => exact absurd (hlistener.symm.trans hstands.1) nofun
            | hearing => exact ⟨rfl, hstands.2⟩
            | ended => exact ⟨.inl rfl, hstands.2⟩
          · rw [hwaiting, hinbox, List.append_assoc]
            rfl

theorem Live.closed (h : stream.Live agentId stage waiting) : stream.closed.Live agentId stage waiting := by
  unfold RedisStream.closed
  cases stream.listener with
  | starting | connected | returned => exact h
  | listening =>
      dsimp only
      rw [if_pos h.receiving]
      exact h

theorem Live.lose (h : stream.Live agentId stage waiting) (n : Nat) :
    stream.lose.Live agentId (stage.next n (.lose n : RedisStreamCall φ)) waiting := by
  obtain ⟨hagent, hreceiving, hstands, hwaiting⟩ := h
  refine ⟨hagent, hreceiving, ?_, hwaiting⟩
  cases stage with
  | starting => exact ⟨hstands.1, by rw [RedisStream.lose, hstands.2]; rfl⟩
  | connected => exact ⟨hstands.1, by rw [RedisStream.lose, hstands.2]; rfl⟩
  | hearing =>
      rw [Stage.next, if_pos rfl]
      exact ⟨.inl hstands.1, rfl⟩
  | ended => exact ⟨hstands.1, rfl⟩

/-- A frame comes to a stream that hears its agent, and to no other. -/
theorem Live.publish (h : stream.Live agentId stage waiting) (other : Uuid) (frame : φ) :
    Live agentId { stream with connection := stream.connection.publish (streamChannel other) frame } stage
      (waiting ++ if stage = .hearing then (frameTo agentId (.publish other frame true)).toList else []) := by
  obtain ⟨hagent, hreceiving, hstands, hwaiting⟩ := h
  have hdeaf (hchannel : stream.connection.channel = none) :
      stream.connection.publish (streamChannel other) frame = stream.connection := by
    rw [PubSubConnection.publish, if_neg]
    rw [hchannel]
    exact nofun
  have hsilent (hchannel : stream.connection.channel = none) (hstage : stage ≠ .hearing) :
      Live agentId { stream with connection := stream.connection.publish (streamChannel other) frame } stage
        (waiting ++ if stage = .hearing then (frameTo agentId (.publish other frame true)).toList else []) := by
    rw [hdeaf hchannel, if_neg hstage, List.append_nil]
    exact ⟨hagent, hreceiving, hstands, hwaiting⟩
  cases stage with
  | starting => exact hsilent (by rw [hstands.2]; rfl) nofun
  | connected => exact hsilent (by rw [hstands.2]; rfl) nofun
  | ended => exact hsilent hstands.2 nofun
  | hearing =>
      rw [if_pos rfl]
      by_cases hother : other = agentId
      · have hheard : stream.connection.channel = some (streamChannel other) := by
          rw [hstands.2, hagent, hother]
        rw [PubSubConnection.publish, if_pos hheard, frameTo, if_pos ⟨hother, rfl⟩]
        refine ⟨hagent, hreceiving, hstands, ?_⟩
        rw [hwaiting, List.append_assoc]
        rfl
      · have hunheard : stream.connection.channel ≠ some (streamChannel other) := by
          rw [hstands.2, hagent]
          intro hsame
          exact hother (streamChannel_injective (Option.some.inj hsame)).symm
        rw [PubSubConnection.publish, if_neg hunheard, frameTo, if_neg fun hto => hother hto.1]
        exact ⟨hagent, hreceiving, hstands, by rw [hwaiting]; exact List.append_nil _⟩

theorem Live.recv (h : stream.Live agentId stage waiting) (n : Nat) : ∃ waiting',
    stream.recv.2.Live agentId stage waiting' ∧
      RedisStreamBroker.answerTo n (.recv n) (some stream.recv.1) ++ waiting' = waiting := by
  have hkept := h
  obtain ⟨hagent, hreceiving, hstands, hwaiting⟩ := h
  unfold RedisStream.recv
  cases hqueue : stream.queue with
  | nil =>
      refine ⟨waiting, hkept, ?_⟩
      dsimp only
      split_ifs <;> rfl
  | cons frame queue =>
      rw [hqueue] at hwaiting
      refine ⟨queue ++ stream.connection.inbox, ⟨hagent, hreceiving, ?_, rfl⟩, ?_⟩
      · cases stage <;> exact hstands
      · rw [RedisStreamBroker.answerTo, if_pos rfl, hwaiting]
        rfl

end RedisStream

namespace RedisStreamBroker

variable {φ : Type}

/-! ### One stream -/

theorem modify_other {broker : RedisStreamBroker φ} {stream : RedisStream φ} {m n : Nat} (h : broker[n]? = some stream)
    (hm : m ≠ n) (f : RedisStream φ → RedisStream φ) : (List.modify broker m f)[n]? = some stream := by
  rw [List.getElem?_modify_ne _ _ hm, h]

theorem modify_same {broker : RedisStreamBroker φ} {stream : RedisStream φ} {n : Nat} (h : broker[n]? = some stream)
    (f : RedisStream φ → RedisStream φ) : (List.modify broker n f)[n]? = some (f stream) := by
  rw [List.getElem?_modify_eq, h]
  rfl

theorem next_other {n m : Nat} (hm : m ≠ n) (stage : Stage) {call : RedisStreamCall φ}
    (hcall : call.stream? = some m) : stage.next n call = stage := by
  cases call <;> cases hcall <;> cases stage <;> first | rfl | exact if_neg hm

/-- A call for another stream does not concern this one. -/
theorem step_other {broker : RedisStreamBroker φ} {stream : RedisStream φ} {m n : Nat} (h : broker[n]? = some stream)
    (hm : m ≠ n) (agentId : Uuid) {call : RedisStreamCall φ} (hcall : call.stream? = some m) :
    (step broker call).2[n]? = some stream ∧ answerTo n call (step broker call).1 = [] ∧
      frameTo agentId call = none := by
  cases call with
  | publish | subscribe => cases hcall
  | connect | attach | forward | closed | lose | drop =>
      obtain rfl := Option.some.inj hcall
      exact ⟨modify_other h hm _, rfl, rfl⟩
  | recv k =>
      obtain rfl := Option.some.inj hcall
      refine ⟨modify_other h hm _, ?_, rfl⟩
      rw [step]
      dsimp only
      cases broker[k]? with
      | none => rfl
      | some other =>
          cases hpolled : other.recv.1 with
          | frame frame =>
              rw [Option.map_some, hpolled, answerTo, if_neg hm]
          | pending | finished => rw [Option.map_some, hpolled]; rfl

/-- One call: what the receiver is given and what is then on its way are what was on its way and what is heard. -/
theorem step_live {broker : RedisStreamBroker φ} {agentId : Uuid} {n : Nat} {stream : RedisStream φ} {stage : Stage}
    {waiting : List φ} (hstream : broker[n]? = some stream) (h : stream.Live agentId stage waiting)
    (call : RedisStreamCall φ) (hdrop : call ≠ .drop n) : ∃ stream' waiting',
      (step broker call).2[n]? = some stream' ∧ stream'.Live agentId (stage.next n call) waiting' ∧
        answerTo n call (step broker call).1 ++ waiting' =
          waiting ++ if stage = .hearing then (frameTo agentId call).toList else [] := by
  have hquiet : waiting = waiting ++ if stage = .hearing then [] else [] := by
    rw [ite_self, List.append_nil]
  by_cases hother : ∃ m, call.stream? = some m ∧ m ≠ n
  · obtain ⟨m, hcall, hm⟩ := hother
    obtain ⟨hsame, hanswer, hframe⟩ := step_other hstream hm agentId hcall
    refine ⟨stream, waiting, hsame, ?_, ?_⟩
    · rw [next_other hm stage hcall]
      exact h
    · rw [hanswer, hframe]
      exact hquiet
  have hself {m : Nat} (hcall : call.stream? = some m) : m = n := by
    by_contra hm
    exact hother ⟨m, hcall, hm⟩
  cases call with
  | publish other frame ok =>
      have hnext : stage.next n (.publish other frame ok) = stage := by cases stage <;> rfl
      rw [hnext]
      cases ok with
      | true =>
          have hpublished := h.publish other frame
          refine ⟨_, _, ?_, hpublished, rfl⟩
          show (broker.publish other frame true)[n]? = _
          rw [RedisStreamBroker.publish, if_pos rfl, List.getElem?_map, hstream]
          rfl
      | false =>
          have hlost : frameTo agentId (.publish other frame false) = none := if_neg fun hto => Bool.noConfusion hto.2
          refine ⟨stream, waiting, hstream, h, ?_⟩
          rw [hlost]
          exact hquiet
  | subscribe other =>
      have hnext : stage.next n (.subscribe other : RedisStreamCall φ) = stage := by cases stage <;> rfl
      rw [hnext]
      refine ⟨stream, waiting, ?_, h, hquiet⟩
      show (broker ++ [_])[n]? = _
      rw [List.getElem?_append_left (List.getElem?_eq_some_iff.mp hstream).1, hstream]
  | connect m ok =>
      obtain rfl := hself rfl
      exact ⟨_, waiting, modify_same hstream _, h.connect m ok, hquiet⟩
  | attach m ok =>
      obtain rfl := hself rfl
      exact ⟨_, waiting, modify_same hstream _, h.subscribe m ok, hquiet⟩
  | forward m =>
      obtain rfl := hself rfl
      have hnext : stage.next m (.forward m : RedisStreamCall φ) = stage := by cases stage <;> rfl
      rw [hnext]
      exact ⟨_, waiting, modify_same hstream _, h.forward, hquiet⟩
  | closed m =>
      obtain rfl := hself rfl
      have hnext : stage.next m (.closed m : RedisStreamCall φ) = stage := by cases stage <;> rfl
      rw [hnext]
      exact ⟨_, waiting, modify_same hstream _, h.closed, hquiet⟩
  | lose m =>
      obtain rfl := hself rfl
      exact ⟨_, waiting, modify_same hstream _, h.lose m, hquiet⟩
  | recv m =>
      obtain rfl := hself rfl
      have hnext : stage.next m (.recv m : RedisStreamCall φ) = stage := by cases stage <;> rfl
      rw [hnext]
      obtain ⟨waiting', hlive, hgiven⟩ := h.recv m
      refine ⟨_, waiting', modify_same hstream _, hlive, ?_⟩
      rw [step, hstream, Option.map_some, hgiven]
      exact hquiet
  | drop m => exact absurd (congrArg RedisStreamCall.drop (hself rfl)) hdrop

/-- What is on its way to the receiver of a stream. -/
def waiting (broker : RedisStreamBroker φ) (n : Nat) : List φ :=
  (broker[n]?.map fun stream => stream.queue ++ stream.connection.inbox).getD []

theorem run_live {broker : RedisStreamBroker φ} {agentId : Uuid} {n : Nat} {stream : RedisStream φ} {stage : Stage}
    {before : List φ} (hstream : broker[n]? = some stream) (h : stream.Live agentId stage before)
    {calls : List (RedisStreamCall φ)} (hopen : .drop n ∉ calls) :
    given broker n calls ++ waiting (after broker calls) n = before ++ heard agentId n stage calls := by
  induction calls generalizing broker stream stage before with
  | nil =>
      rw [given, after, List.foldl_nil, waiting, hstream, heard, h.waiting, List.append_nil]
      rfl
  | cons call calls ih =>
      rw [List.mem_cons, not_or] at hopen
      obtain ⟨stream', before', hstream', hlive, hgiven⟩ := step_live hstream h call (Ne.symm hopen.1)
      have hrest := ih hstream' hlive hopen.2
      rw [given, heard, after, List.foldl_cons, ← after, List.append_assoc, hrest, ← List.append_assoc, hgiven,
        List.append_assoc]

/-! ### What is heard -/

theorem heard_over (agentId : Uuid) (n : Nat) (calls : List (RedisStreamCall φ)) :
    heard agentId n .ended calls = [] := by
  induction calls with
  | nil => rfl
  | cons call calls ih => exact ih

theorem publishedTo_cons (agentId : Uuid) (call : RedisStreamCall φ) (calls : List (RedisStreamCall φ)) :
    publishedTo agentId (call :: calls) = (frameTo agentId call).toList ++ publishedTo agentId calls := by
  rw [publishedTo, List.filterMap_cons]
  cases frameTo agentId call <;> rfl

theorem next_hearing (n : Nat) (call : RedisStreamCall φ) :
    (call = .lose n ∧ Stage.next n .hearing call = .ended) ∨
      (call ≠ .lose n ∧ Stage.next n .hearing call = .hearing) := by
  cases call with
  | lose m =>
      by_cases hm : m = n
      · exact .inl ⟨by rw [hm], if_pos hm⟩
      · exact .inr ⟨fun heq => hm (RedisStreamCall.lose.inj heq), if_neg hm⟩
  | publish | subscribe | connect | attach | forward | closed | recv | drop => exact .inr ⟨nofun, rfl⟩

/-- A subscription that stands hears everything up to the break of its connection. -/
theorem heard_hearing (agentId : Uuid) (n : Nat) (calls : List (RedisStreamCall φ)) :
    heard agentId n .hearing calls <+: publishedTo agentId calls ∧
      (.lose n ∉ calls → heard agentId n .hearing calls = publishedTo agentId calls) := by
  induction calls with
  | nil => exact ⟨List.prefix_refl _, fun _ => rfl⟩
  | cons call calls ih =>
      rw [heard, if_pos rfl, publishedTo_cons]
      rcases next_hearing n call with ⟨hcall, hnext⟩ | ⟨_, hnext⟩
      · rw [hnext, heard_over, List.append_nil]
        refine ⟨List.prefix_append _ _, fun hnot => absurd ?_ hnot⟩
        rw [hcall]
        exact List.mem_cons_self
      · rw [hnext]
        refine ⟨(List.prefix_append_right_inj _).mpr ih.1, fun hnot => ?_⟩
        rw [ih.2 fun hmem => hnot (List.mem_cons_of_mem _ hmem)]

theorem heard_within (agentId : Uuid) (n : Nat) (stage : Stage) (calls : List (RedisStreamCall φ)) :
    heard agentId n stage calls <:+: publishedTo agentId calls := by
  induction calls generalizing stage with
  | nil => exact List.infix_refl _
  | cons call calls ih =>
      by_cases hstage : stage = .hearing
      · rw [hstage]
        exact (heard_hearing agentId n (call :: calls)).1.isInfix
      · rw [heard, if_neg hstage, List.nil_append, publishedTo_cons]
        exact (ih _).trans (List.suffix_append _ _).isInfix

/-- How far a subscription has come after the calls. -/
def stageAfter (n : Nat) (stage : Stage) (calls : List (RedisStreamCall φ)) : Stage := calls.foldl (Stage.next n) stage

theorem heard_append (agentId : Uuid) (n : Nat) (stage : Stage) (calls more : List (RedisStreamCall φ)) :
    heard agentId n stage (calls ++ more) =
      heard agentId n stage calls ++ heard agentId n (stageAfter n stage calls) more := by
  induction calls generalizing stage with
  | nil => rfl
  | cons call calls ih =>
      rw [List.cons_append, heard, ih, heard, List.append_assoc]
      rfl

/-- In any run, and whatever came before: what a stream was given and what is on its way to it are the frames that
were published for its agent while its subscription stood, in a row. From the time it stands, and as long as its
connection does not break, no frame is lost, however far behind the receiver is. -/
theorem redis_stream_spec (before : List (RedisStreamCall φ)) (agentId : Uuid) (calls : List (RedisStreamCall φ)) :
    let broker := after ([] : RedisStreamBroker φ) before
    let n := broker.length
    let subscribed := (step broker (.subscribe agentId)).2
    .drop n ∉ calls →
      given subscribed n calls ++ waiting (after subscribed calls) n <:+: publishedTo agentId calls ∧
        ∀ opening rest, calls = opening ++ rest → stageAfter n .starting opening = .hearing → .lose n ∉ rest →
          given subscribed n calls ++ waiting (after subscribed calls) n =
            heard agentId n .starting opening ++ publishedTo agentId rest := by
  intro broker n subscribed hopen
  have hstream : subscribed[n]? = some (RedisStream.new agentId) := List.getElem?_concat_length
  have hrun := run_live hstream (RedisStream.live_new agentId) hopen
  rw [List.nil_append] at hrun
  rw [hrun]
  refine ⟨heard_within agentId n .starting calls, ?_⟩
  rintro opening rest rfl hstage hlose
  rw [heard_append, hstage, (heard_hearing agentId n rest).2 hlose]

/-- The receiver never asks, and every frame since the subscription stands is there. -/
theorem redis_stream_spec_unread :
    let calls : List (RedisStreamCall Char) := [.publish 7 'a' true, .connect 0 true, .attach 0 true,
      .publish 7 'b' true, .publish 8 'c' true, .forward 0, .publish 7 'd' true]
    given [RedisStream.new 7] 0 calls ++ waiting (after [RedisStream.new 7] calls) 0 = ['b', 'd'] := by
  intro calls
  have hspec := redis_stream_spec [] 7 calls
  exact (hspec (by decide)).2 [.publish 7 'a' true, .connect 0 true, .attach 0 true] _ rfl (by decide) (by decide)

end RedisStreamBroker

end Overacp
