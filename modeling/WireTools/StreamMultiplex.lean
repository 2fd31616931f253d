import WireTools.Runs
import WireTools.Text

/-! # Stream subscriptions over one socket

A client multiplexes its subscriptions over the socket it holds; the server runs a stream for each
and numbers them as it starts them.

* `Conn` is one connection with the frames in flight in either direction, its two ready states and
  the server's subscription map for it.  Frames arrive in order as long as the network is `up`;
  after that each end sees the close at its own time;
* `State.step`: a call of the client or of a consumer, the arrival of the next frame at either
  end, what happens to a connection, the detach of the server, and the steps of its streams.  A
  stream starts asynchronously, and a run of its timer or watcher may be under way when it is
  stopped.  Stopping awaits nothing, so a frame or a detach is handled in one step;
* the stream in an event frame, `emitted`, `late` and `atClose` are for the statements below; no
  code reads them;
* `Multiplexed`: calls do not hang, a subscription receives its own events and none once it is
  closed, a stream that is over is quiet, and both ends agree when nothing is in flight. -/

namespace WireTools.Streams

inductive StreamTopic where
  | processLiveness
  | logTail
  | envelopeWatch
  deriving DecidableEq

/-- The stream that `createStream` makes for a topic. -/
def topicOf (topic : Text) : Option StreamTopic :=
  if topic = text "log-tail" then some .logTail
  else if topic = text "process-liveness" then some .processLiveness
  else if topic = text "envelope-watch" then some .envelopeWatch
  else none

inductive ClosedReason where
  | clientRequested
  | serverShutdown
  | unsupportedTopic
  | invalidParams
  | internalError
  deriving DecidableEq

inductive StreamErrorCode where
  | parseError
  | invalidFrameType
  | unknownTopic
  | invalidParams
  | internal
  deriving DecidableEq

inductive StreamFrame where
  | subscribe (id : ℕ) (topic : Text)
  | subscribed (id : ℕ)
  | event (id : ℕ) (payload : Text) (stream : ℕ)
  | unsubscribe (id : ℕ)
  | closed (id : ℕ) (reason : ClosedReason)
  /-- A fault of the connection; it names no subscription. -/
  | error (code : StreamErrorCode) (message : Text)
  deriving DecidableEq

def StreamFrame.type : StreamFrame → Text
  | .subscribe _ _ => text "subscribe"
  | .subscribed _ => text "subscribed"
  | .event _ _ _ => text "event"
  | .unsubscribe _ => text "unsubscribe"
  | .closed _ _ => text "closed"
  | .error _ _ => text "error"

/-- The subscriptions asked for by the frames on their way to the server. -/
def subscribeIds (frames : List StreamFrame) : List ℕ :=
  frames.filterMap fun
    | .subscribe id _ => some id
    | _ => none

/-! ### Connections -/

inductive ReadyState where
  | connecting
  | open
  | closing
  | closed
  deriving DecidableEq

structure Conn where
  client : ReadyState
  server : ReadyState
  up : Bool
  toServer : List StreamFrame
  toClient : List StreamFrame
  /-- The server's map from ids to streams; none when it has none for this connection. -/
  perConn : Option (List (ℕ × ℕ))

namespace Conn

/-- A connection that nobody has made yet. -/
def absent : Conn := ⟨.closed, .closed, false, [], [], none⟩

variable (conn : Conn)

def entries : List (ℕ × ℕ) := conn.perConn.getD []

/-- The ids that are active at the server. -/
def ids : List ℕ := conn.entries.map Prod.fst

/-- Both ends can send, and frames arrive. -/
def IsOpen : Prop := conn.client = .open ∧ conn.server = .open ∧ conn.up = true

instance : Decidable conn.IsOpen := inferInstanceAs (Decidable (_ ∧ _ ∧ _))

def clientSend (frame : StreamFrame) : Conn :=
  if conn.client = .open ∧ conn.up = true then { conn with toServer := conn.toServer ++ [frame] }
  else conn

def serverSend (frame : StreamFrame) : Conn :=
  if conn.server = .open ∧ conn.up = true then { conn with toClient := conn.toClient ++ [frame] }
  else conn

theorem link_serverSend (conn : Conn) (frame : StreamFrame) :
    (conn.serverSend frame).server = conn.server ∧ (conn.serverSend frame).up = conn.up ∧
      (conn.serverSend frame).toServer = conn.toServer ∧
      (conn.serverSend frame).perConn = conn.perConn := by
  unfold serverSend
  split <;> exact ⟨rfl, rfl, rfl, rfl⟩

theorem mem_serverSend {conn : Conn} {frame other : StreamFrame} :
    other ∈ (conn.serverSend frame).toClient ↔
      other ∈ conn.toClient ∨ conn.server = .open ∧ conn.up = true ∧ other = frame := by
  unfold serverSend
  split
  · next hsends => simp [hsends.1, hsends.2]
  · next hsends =>
      exact ⟨Or.inl, fun h => h.resolve_right fun hnew => hsends ⟨hnew.1, hnew.2.1⟩⟩

/-- Something in flight will settle the call: its request, its acknowledgement, or an error. -/
def Awaits (id : ℕ) : Prop :=
  conn.up = true ∧ conn.client = .open ∧
    (conn.server = .open ∧ id ∈ subscribeIds conn.toServer ∨
      .subscribed id ∈ conn.toClient ∨ ∃ code message, .error code message ∈ conn.toClient)

def setEntry (id stream : ℕ) : Conn :=
  { conn with perConn := conn.perConn.map fun m => m.filter (·.1 ≠ id) ++ [(id, stream)] }

def deleteEntry (id : ℕ) : Conn :=
  { conn with perConn := conn.perConn.map fun m => m.filter (·.1 ≠ id) }

theorem entries_deleteEntry (conn : Conn) (id : ℕ) :
    (conn.deleteEntry id).entries = conn.entries.filter (·.1 ≠ id) := by
  unfold deleteEntry entries
  cases conn.perConn <;> rfl

end Conn

/-! ### Both ends -/

structure ServerStream where
  conn : ℕ
  id : ℕ
  topic : StreamTopic
  /-- `start` has not returned. -/
  starting : Bool
  stopped : Bool
  /-- The timer or the watcher is there. -/
  live : Bool
  /-- Runs that were not stopped when they began and have not ended. -/
  running : ℕ
  emitted : List Text
  /-- It has emitted when it was no longer active and its start had returned. -/
  late : Bool

namespace ServerStream

def create (conn id : ℕ) (topic : StreamTopic) : ServerStream :=
  ⟨conn, id, topic, true, false, false, 0, [], false⟩

def stop (st : ServerStream) : ServerStream :=
  { st with
    stopped := true
    live := false }

end ServerStream

/-- The promise that a call of `subscribe` waits for. -/
inductive Ack where
  | pending
  | resolved
  | rejected (message : Text)
  deriving DecidableEq

structure Subscription where
  topic : Text
  ack : Ack
  closed : Option ClosedReason
  /-- The payloads taken, each with the stream that sent it. -/
  received : List (ℕ × Text)
  atClose : List (ℕ × Text)

namespace Subscription

variable (sub : Subscription)

def resolve : Subscription :=
  { sub with ack := if sub.ack = .pending then .resolved else sub.ack }

def reject (message : Text) : Subscription :=
  { sub with ack := if sub.ack = .pending then .rejected message else sub.ack }

def emitEvent (stream : ℕ) (payload : Text) : Subscription :=
  if sub.closed = none then { sub with received := sub.received ++ [(stream, payload)] } else sub

def notifyClosed (reason : ClosedReason) : Subscription :=
  if sub.closed = none then
    { sub with
      closed := some reason
      atClose := sub.received }
  else sub

end Subscription

structure State where
  ws : Option ℕ
  nextId : ℕ
  /-- The ids active at the client. -/
  subs : List ℕ
  /-- Every subscription made, also after the client has dropped it. -/
  subscription : ℕ → Option Subscription
  conns : ℕ → Conn
  nextConn : ℕ
  streams : ℕ → Option ServerStream
  nextStream : ℕ
  attached : Bool

inductive Event where
  | connect
  | opened (c : ℕ)
  | connectFailed (c : ℕ)
  | subscribe (topic : Text)
  | close (id : ℕ) (reason : ClosedReason)
  | disconnect
  | atServer (c : ℕ)
  | atClient (c : ℕ)
  | lost (c : ℕ)
  | serverClosed (c : ℕ)
  | clientClosed (c : ℕ)
  | detach
  | startReturns (k : ℕ) (baseline : Option Text)
  | startFails (k : ℕ) (message : Text)
  | runStarts (k : ℕ)
  | runEmits (k : ℕ) (payload : Text)
  | runEnds (k : ℕ)

namespace State

def init : State where
  ws := none
  nextId := 1
  subs := []
  subscription _ := none
  conns _ := .absent
  nextConn := 0
  streams _ := none
  nextStream := 0
  attached := true

variable (s : State)

def onConn (c : ℕ) (f : Conn → Conn) : State :=
  { s with conns := Function.update s.conns c (f (s.conns c)) }

def onStream (k : ℕ) (f : ServerStream → ServerStream) : State :=
  { s with streams := Function.update s.streams k ((s.streams k).map f) }

def onSubscription (id : ℕ) (f : Subscription → Subscription) : State :=
  { s with subscription := Function.update s.subscription id ((s.subscription id).map f) }

theorem conns_onConn (c : ℕ) (f : Conn → Conn) (d : ℕ) :
    (s.onConn c f).conns d = if d = c then f (s.conns d) else s.conns d := by
  simp only [onConn, Function.update_apply]
  split
  · next h => rw [h]
  · rfl

theorem streams_onStream (k : ℕ) (f : ServerStream → ServerStream) (j : ℕ) :
    (s.onStream k f).streams j = if j = k then (s.streams j).map f else s.streams j := by
  simp only [onStream, Function.update_apply]
  split
  · next h => rw [h]
  · rfl

theorem subscription_onSubscription (id : ℕ) (f : Subscription → Subscription) (i : ℕ) :
    (s.onSubscription id f).subscription i =
      if i = id then (s.subscription i).map f else s.subscription i := by
  simp only [onSubscription, Function.update_apply]
  split
  · next h => rw [h]
  · rfl

/-- A stream is active while the map of its connection has it under its id. -/
def active (k : ℕ) (st : ServerStream) : Bool :=
  (st.id, k) ∈ (s.conns st.conn).entries

/-! #### The client -/

def send (frame : StreamFrame) : State :=
  match s.ws with
  | none => s
  | some c => s.onConn c (·.clientSend frame)

/-- Every active subscription is dropped. -/
def dropAll (f : Subscription → Subscription) : State :=
  { s with
    subs := []
    subscription := fun id =>
      if id ∈ s.subs then (s.subscription id).map f else s.subscription id }

def connect : State :=
  match s.ws with
  | some _ => s
  | none =>
      { s with
        ws := some s.nextConn
        conns := Function.update s.conns s.nextConn ⟨.connecting, .connecting, true, [], [], none⟩
        nextConn := s.nextConn + 1 }

/-- Without a socket the call throws. -/
def subscribe (topic : Text) : State :=
  match s.ws with
  | none => s
  | some _ =>
      ({ s with
        nextId := s.nextId + 1
        subs := s.nextId :: s.subs
        subscription := Function.update s.subscription s.nextId
          (some ⟨topic, .pending, none, [], []⟩) }).send (.subscribe s.nextId topic)

def sendUnsubscribe (id : ℕ) : State :=
  if id ∈ s.subs then ({ s with subs := s.subs.filter (· ≠ id) }).send (.unsubscribe id) else s

/-- A consumer closes a subscription it holds. -/
def close (id : ℕ) (reason : ClosedReason) (sub : Subscription) : State :=
  if sub.closed = none then (s.sendUnsubscribe id).onSubscription id (·.notifyClosed reason) else s

def disconnect : State :=
  let s := s.dropAll (·.notifyClosed .serverShutdown)
  match s.ws with
  | none => s
  | some c => { s.onConn c (fun conn => { conn with client := .closing }) with ws := none }

def onMessage : StreamFrame → State
  | .subscribed id => if id ∈ s.subs then s.onSubscription id (·.resolve) else s
  | .event id payload k =>
      if id ∈ s.subs then s.onSubscription id (·.emitEvent k payload) else s
  | .closed id reason =>
      if id ∈ s.subs then
        ({ s with subs := s.subs.filter (· ≠ id) }).onSubscription id (·.notifyClosed reason)
      else s
  | .error _ message => s.dropAll fun sub => (sub.reject message).notifyClosed .internalError
  | .subscribe _ _ | .unsubscribe _ => s

/-- The close event of any connection drops whatever the client holds by now. -/
def onClientClose : State :=
  { s.dropAll (·.notifyClosed .serverShutdown) with ws := none }

/-! #### The server -/

def stopAll (keys : List ℕ) : State :=
  { s with streams := fun k => if k ∈ keys then (s.streams k).map (·.stop) else s.streams k }

def handleSubscribe (c id : ℕ) (topic : Text) : State :=
  match (s.conns c).perConn with
  | none => s
  | some _ =>
      match topicOf topic with
      | none => s.onConn c (·.serverSend (.error .unknownTopic (text "No such topic: " ++ topic)))
      | some topic =>
          ({ s with
            streams := Function.update s.streams s.nextStream (some (.create c id topic))
            nextStream := s.nextStream + 1 }).onConn c fun conn =>
              (conn.setEntry id s.nextStream).serverSend (.subscribed id)

def handleUnsubscribe (c id : ℕ) : State :=
  match (s.conns c).entries.lookup id with
  | none => s
  | some k => (s.onStream k (·.stop)).onConn c fun conn =>
      (conn.deleteEntry id).serverSend (.closed id .clientRequested)

def onServerMessage (c : ℕ) : StreamFrame → State
  | .subscribe id topic => s.handleSubscribe c id topic
  | .unsubscribe id => s.handleUnsubscribe c id
  | frame => s.onConn c (·.serverSend (.error .invalidFrameType
      (text "Server does not accept frames of type " ++ frame.type)))

def onServerClose (c : ℕ) : State :=
  (s.stopAll ((s.conns c).entries.map Prod.snd)).onConn c fun conn =>
    { conn with
      server := .closed
      perConn := none }

/-- Every stream of every connection. -/
def allStreams : List ℕ :=
  (List.range s.nextConn).flatMap fun c => (s.conns c).entries.map Prod.snd

def detach : State :=
  { s.stopAll s.allStreams with
    attached := false
    conns := fun c =>
      { s.conns c with
        server := if (s.conns c).server = .open then .closing else (s.conns c).server
        perConn := none } }

/-! #### Streams -/

def emit (k : ℕ) (st : ServerStream) (payload : Text) : State :=
  (s.onStream k fun st => { st with emitted := st.emitted ++ [payload] }).onConn st.conn
    (·.serverSend (.event st.id payload k))

/-- The stream is up, whether or not it has been stopped meanwhile. -/
def startReturns (k : ℕ) (st : ServerStream) (baseline : Option Text) : State :=
  let s := match baseline with
    | none => s
    | some payload => s.emit k st payload
  s.onStream k fun st =>
    { st with
      starting := false
      live := true }

def startFails (k : ℕ) (st : ServerStream) (message : Text) : State :=
  (s.onStream k fun st => { st with starting := false }).onConn st.conn fun conn =>
    (conn.deleteEntry st.id).serverSend (.error .internal (text "Subscribe failed: " ++ message))

def runEmits (k : ℕ) (st : ServerStream) (payload : Text) : State :=
  (s.emit k st payload).onStream k fun running =>
    { running with
      running := running.running - 1
      late := running.late || !s.active k st }

/-- None for an event that cannot happen in this state. -/
def step : Event → Option State
  | .connect => some s.connect
  | .opened c =>
      if (s.conns c).client = .connecting ∧ (s.conns c).up = true ∧ s.attached = true then
        some (s.onConn c fun conn =>
          { conn with
            client := .open
            server := .open
            perConn := some [] })
      else none
  | .connectFailed c =>
      if (s.conns c).client = .connecting then
        some (s.onConn c fun conn =>
          { conn with
            client := .closed
            up := false })
      else none
  | .subscribe topic => some (s.subscribe topic)
  | .close id reason =>
      match s.subscription id with
      | some sub => if sub.ack = .resolved then some (s.close id reason sub) else none
      | none => none
  | .disconnect => some s.disconnect
  | .atServer c =>
      if (s.conns c).up = true ∧ (s.conns c).server ≠ .connecting then
        match (s.conns c).toServer with
        | [] => none
        | frame :: rest =>
            some ((s.onConn c fun conn => { conn with toServer := rest }).onServerMessage c frame)
      else none
  | .atClient c =>
      if (s.conns c).up = true ∧ (s.conns c).client ≠ .connecting then
        match (s.conns c).toClient with
        | [] => none
        | frame :: rest =>
            some ((s.onConn c fun conn => { conn with toClient := rest }).onMessage frame)
      else none
  | .lost c => some (s.onConn c fun conn => { conn with up := false })
  | .serverClosed c =>
      if (s.conns c).up = false ∧ ((s.conns c).server = .open ∨ (s.conns c).server = .closing) then
        some (s.onServerClose c)
      else none
  | .clientClosed c =>
      if (s.conns c).up = false ∧ (s.conns c).server ≠ .connecting ∧
          ((s.conns c).client = .open ∨ (s.conns c).client = .closing) then
        some (s.onConn c fun conn => { conn with client := .closed }).onClientClose
      else none
  | .detach => some s.detach
  | .startReturns k baseline =>
      match s.streams k with
      | some st => if st.starting = true then some (s.startReturns k st baseline) else none
      | none => none
  | .startFails k message =>
      match s.streams k with
      | some st => if st.starting = true then some (s.startFails k st message) else none
      | none => none
  | .runStarts k =>
      match s.streams k with
      | some st =>
          if st.live = true ∧ st.stopped = false then
            some (s.onStream k fun st => { st with running := st.running + 1 })
          else none
      | none => none
  | .runEmits k payload =>
      match s.streams k with
      | some st => if st.running ≠ 0 then some (s.runEmits k st payload) else none
      | none => none
  | .runEnds k =>
      match s.streams k with
      | some st =>
          if st.running ≠ 0 then
            some (s.onStream k fun st => { st with running := st.running - 1 })
          else none
      | none => none

/-! ### What the protocol promises -/

/-- No call of an active subscription is waiting. -/
def Settled : Prop :=
  ∀ id ∈ s.subs, ∀ sub ∈ s.subscription id, sub.ack ≠ .pending

instance : Decidable s.Settled :=
  inferInstanceAs (Decidable (∀ id ∈ s.subs, ∀ sub ∈ s.subscription id, _))

/-- The start of the stream has returned, and no run of it is under way. -/
def Calm (k : ℕ) : Prop :=
  ∀ st ∈ s.streams k, st.starting = false ∧ st.running = 0

instance (k : ℕ) : Decidable (s.Calm k) :=
  inferInstanceAs (Decidable (∀ st ∈ s.streams k, _))

/-- What the client holds, the server does not know and is not about to know. -/
def Unknown : Prop :=
  ∀ c ∈ s.ws, ∀ id ∈ s.subs,
    id ∉ (s.conns c).ids ∧ id ∉ subscribeIds (s.conns c).toServer

instance : Decidable s.Unknown :=
  inferInstanceAs (Decidable (∀ c ∈ s.ws, ∀ id ∈ s.subs, _))

/-- A call is made on an open connection or without a socket; the connection is not lost, left or
detached while a call or a request waits; an error frame reaches a client that holds nothing the
server knows; a close event concerns the socket that the client holds; and the streams that are
stopped are calm. -/
def Orderly : Event → Prop
  | .subscribe _ => ∀ c ∈ s.ws, (s.conns c).IsOpen
  | .disconnect => s.Settled
  | .lost c => s.ws = some c → s.Settled
  | .atServer c =>
      match (s.conns c).toServer with
      | .unsubscribe id :: _ => ∀ k ∈ (s.conns c).entries.lookup id, s.Calm k
      | _ => True
  | .atClient c =>
      match (s.conns c).toClient with
      | .error _ _ :: _ => s.Unknown
      | _ => True
  | .clientClosed c => ∀ d ∈ s.ws, d = c
  | .serverClosed c => ∀ entry ∈ (s.conns c).entries, s.Calm entry.2
  | .detach =>
      (∀ k ∈ s.allStreams, s.Calm k) ∧ ∀ c ∈ s.ws, subscribeIds (s.conns c).toServer = []
  | _ => True

instance : ∀ ev, Decidable (s.Orderly ev)
  | .subscribe _ => inferInstanceAs (Decidable (∀ c ∈ s.ws, (s.conns c).IsOpen))
  | .disconnect => inferInstanceAs (Decidable s.Settled)
  | .lost c => inferInstanceAs (Decidable (s.ws = some c → s.Settled))
  | .atServer c =>
      match hto : (s.conns c).toServer with
      | .unsubscribe id :: _ =>
          decidable_of_iff (∀ k ∈ (s.conns c).entries.lookup id, s.Calm k) (by simp [Orderly, hto])
      | [] | .subscribe _ _ :: _ | .subscribed _ :: _ | .event _ _ _ :: _ | .closed _ _ :: _
      | .error _ _ :: _ => isTrue (by simp [Orderly, hto])
  | .atClient c =>
      match hto : (s.conns c).toClient with
      | .error _ _ :: _ => decidable_of_iff s.Unknown (by simp [Orderly, hto])
      | [] | .subscribe _ _ :: _ | .subscribed _ :: _ | .event _ _ _ :: _ | .closed _ _ :: _
      | .unsubscribe _ :: _ => isTrue (by simp [Orderly, hto])
  | .clientClosed c => inferInstanceAs (Decidable (∀ d ∈ s.ws, d = c))
  | .serverClosed c =>
      inferInstanceAs (Decidable (∀ entry ∈ (s.conns c).entries, s.Calm entry.2))
  | .detach =>
      inferInstanceAs (Decidable ((∀ k ∈ s.allStreams, s.Calm k) ∧
        ∀ c ∈ s.ws, subscribeIds (s.conns c).toServer = []))
  | .connect | .opened _ | .connectFailed _ | .close _ _ | .startReturns _ _ | .startFails _ _
  | .runStarts _ | .runEmits _ _ | .runEnds _ => isTrue trivial

end State

end WireTools.Streams
