import PiRp.ClientState

/-! The snapshots a server sends of its session and model lists: `packages/server/src/snapshots.ts`, and the
handshake and the sends of `packages/server/src/server.ts`. Every `await` ends a step. A list call reads its
list at one moment before it completes, and a send that fails is a transport that closes right before it. -/

namespace PiRp.Server

open Client (ServerSnapshot ClientState)

/-- The stages of a connection; one that is closed is gone from the server. -/
inductive ConnectionStage where
  | awaitingHello
  | handshaking
  | ready
  | closing
  deriving DecidableEq

/-- A snapshot that is being read: its revision is taken first, then each list is asked for. -/
structure SnapshotCall where
  revision : Nat
  sessions : Option (List JsStr)
  models : Option (List JsStr)

namespace SnapshotCall

def start (revision : Nat) : SnapshotCall := ⟨revision, none, none⟩

def ofSnapshot (snapshot : ServerSnapshot) : SnapshotCall :=
  ⟨snapshot.revision, some snapshot.sessions, some snapshot.models⟩

def snapshot? (call : SnapshotCall) : Option ServerSnapshot :=
  match call.sessions, call.models with
  | some sessions, some models => some ⟨call.revision, sessions, models⟩
  | _, _ => none

/-- `get` reads the sessions, then the models. -/
def answer (call : SnapshotCall) (sessions models : List JsStr) : SnapshotCall :=
  match call.sessions, call.models with
  | none, _ => { call with sessions := some sessions }
  | some _, none => { call with models := some models }
  | some _, some _ => call

/-- `performBroadcast` reads the models itself, then leaves the sessions to `get`. -/
def answerModelsFirst (call : SnapshotCall) (sessions models : List JsStr) : SnapshotCall :=
  match call.models, call.sessions with
  | none, _ => { call with models := some models }
  | some _, none => { call with sessions := some sessions }
  | some _, some _ => call

end SnapshotCall

/-- Where `finishHandshake` waits. -/
inductive HandshakeTask where
  | reading (call : SnapshotCall)
  /-- The hello with the snapshot is being sent. -/
  | greeting (snapshot : ServerSnapshot)
  /-- The lists are read again, as the revision has changed. -/
  | rereading (call : SnapshotCall)
  | updating

/-- A connection with its client; `closed` is that of the transport, `inbox` what is on the way to the client. -/
structure Connection where
  stage : ConnectionStage
  closed : Bool
  handshake : Option HandshakeTask
  inbox : List ServerSnapshot
  client : ClientState

namespace Connection

def accepted : Connection := ⟨.awaitingHello, false, none, [], .initial⟩

def sendMessage (connection : Connection) (snapshot : ServerSnapshot) : Connection :=
  if connection.closed then connection else { connection with inbox := connection.inbox ++ [snapshot] }

def dispatchHello (connection : Connection) (revision : Nat) : Connection :=
  if connection.stage = .awaitingHello then
    { connection with stage := .handshaking, handshake := some (.reading (.start revision)) }
  else connection

/-- A list call of the handshake is answered. -/
def answer (connection : Connection) (sessions models : List JsStr) : Connection :=
  match connection.handshake with
  | some (.reading call) => { connection with handshake := some (.reading (call.answer sessions models)) }
  | some (.rereading call) => { connection with handshake := some (.rereading (call.answer sessions models)) }
  | _ => connection

/-- `finishHandshake` goes on; `currentRevision` is that of the publisher. -/
def finishHandshake (connection : Connection) (currentRevision : Nat) : Connection :=
  match connection.handshake with
  | none => connection
  | some (.reading call) =>
    match call.snapshot? with
    | none => connection
    | some snapshot =>
      if connection.stage = .handshaking ∧ connection.closed = false then
        { connection.sendMessage snapshot with handshake := some (.greeting snapshot) }
      else { connection with handshake := none }
  | some (.greeting snapshot) =>
    if connection.stage = .handshaking then
      { connection with
        stage := .ready
        handshake :=
          if snapshot.revision = currentRevision then none else some (.rereading (.start currentRevision)) }
    else { connection with handshake := none }
  | some (.rereading call) =>
    match call.snapshot? with
    | none => connection
    | some snapshot => { connection.sendMessage snapshot with handshake := some .updating }
  | some .updating => { connection with handshake := none }

def failProtocol (connection : Connection) : Connection := { connection with stage := .closing }

/-- A list call of the handshake is rejected. -/
def rejectHandshake (connection : Connection) : Connection := { connection with handshake := none }.failProtocol

def close (connection : Connection) : Connection := { connection with closed := true }

/-- The client takes the next message. -/
def deliver (connection : Connection) : Connection :=
  match connection.inbox with
  | [] => connection
  | snapshot :: inbox => { connection with inbox, client := connection.client.applyServerSnapshot snapshot }

end Connection

/-- A `performBroadcast` that has not returned, with the connections it has yet to send to. -/
structure Broadcast where
  call : SnapshotCall
  targets : List Nat

/-- A server with its publisher; `queued` broadcasts wait in `broadcastQueue`. -/
structure ServerState where
  sessions : List JsStr
  models : List JsStr
  /-- `broadcast` has been called since the lists changed. -/
  announced : Bool
  revision : Nat
  queued : Nat
  running : Option Broadcast
  connections : JsMap Nat Connection
  next : Nat

namespace ServerState

def initial (sessions models : List JsStr) : ServerState where
  sessions
  models
  announced := true
  revision := 0
  queued := 0
  running := none
  connections := .empty
  next := 0

def accept (state : ServerState) : ServerState :=
  { state with
    connections := state.connections.set state.next .accepted
    next := state.next + 1 }

def update (state : ServerState) (id : Nat) (change : Connection → Connection) : ServerState :=
  { state with connections := state.connections.modify id change }

def disconnect (state : ServerState) (id : Nat) : ServerState :=
  { state with connections := state.connections.delete id }

def broadcast (state : ServerState) : ServerState :=
  { state with announced := true, queued := state.queued + 1 }

def readyConnections (state : ServerState) : List Nat :=
  (state.connections.filter fun _ connection => connection.stage = .ready).keys

/-- The next broadcast of the queue starts, up to the first `await`. -/
def performBroadcast (state : ServerState) : ServerState :=
  if state.queued = 0 ∨ state.running.isSome then state
  else if state.readyConnections = [] then { state with queued := state.queued - 1 }
  else { state with
    queued := state.queued - 1
    revision := state.revision + 1
    running := some ⟨.start (state.revision + 1), state.readyConnections⟩ }

/-- A list call of the broadcast is answered. -/
def answerBroadcast (state : ServerState) : ServerState :=
  match state.running with
  | none => state
  | some running => { state with
      running := some { running with call := running.call.answerModelsFirst state.sessions state.models } }

/-- The broadcast goes on: it sends to the next connection, or is over. -/
def resumeBroadcast (state : ServerState) : ServerState :=
  match state.running with
  | none => state
  | some running =>
    match running.call.snapshot?, running.targets with
    | none, _ => state
    | some _, [] => { state with running := none }
    | some snapshot, id :: targets =>
      { state.update id fun connection => connection.sendMessage snapshot with
        running := some { running with targets } }

end ServerState

inductive Event where
  | changeSessions (sessions : List JsStr)
  | changeModels (models : List JsStr)
  | broadcast
  | performBroadcast
  | answerBroadcast
  | resumeBroadcast
  | accept
  | hello (id : Nat)
  | answer (id : Nat)
  | finishHandshake (id : Nat)
  | rejectHandshake (id : Nat)
  | failProtocol (id : Nat)
  | close (id : Nat)
  | disconnect (id : Nat)
  | deliver (id : Nat)

def step (state : ServerState) : Event → ServerState
  | .changeSessions sessions => { state with sessions, announced := false }
  | .changeModels models => { state with models, announced := false }
  | .broadcast => state.broadcast
  | .performBroadcast => state.performBroadcast
  | .answerBroadcast => state.answerBroadcast
  | .resumeBroadcast => state.resumeBroadcast
  | .accept => state.accept
  | .hello id => state.update id fun connection => connection.dispatchHello state.revision
  | .answer id => state.update id fun connection => connection.answer state.sessions state.models
  | .finishHandshake id => state.update id fun connection => connection.finishHandshake state.revision
  | .rejectHandshake id => state.update id Connection.rejectHandshake
  | .failProtocol id => state.update id Connection.failProtocol
  | .close id => state.update id Connection.close
  | .disconnect id => state.disconnect id
  | .deliver id => state.update id Connection.deliver

/-- A run of a server and of the clients that connect to it. -/
def run (sessions models : List JsStr) (events : List Event) : ServerState :=
  events.foldl step (.initial sessions models)

end PiRp.Server
