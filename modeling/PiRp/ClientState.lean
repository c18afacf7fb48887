import PiRp.JsMap
import PiRp.JsonValue

/-! What a client knows of its server, `packages/client/src/state.ts`. Snapshots of a session carry a
revision; one that is older than the snapshot the client has is dropped, with the attachment it tells of. -/

namespace PiRp.Client

/-- A snapshot of a session, as far as the client looks at it. -/
structure SessionSnapshot where
  id : JsStr
  revision : Nat
  attached : Bool

structure ServerSnapshot where
  revision : Nat
  sessions : List JsStr
  models : List JsStr

/-- The commands on an attached session that answer with a snapshot of it. -/
inductive SessionCommand where
  | prompt
  | steer
  | abort
  | setModel
  | setThinking
  | reroll
  | editMessage
  | navigateTree
  deriving DecidableEq

inductive Command where
  | list
  | listModels
  | create
  | attach (sessionId : JsStr)
  | detach (sessionId : JsStr)
  | getTree (sessionId : JsStr)
  | session (command : SessionCommand) (sessionId : JsStr)

inductive CommandResult where
  | list
  | listModels
  | create (session : SessionSnapshot)
  | attach (session : SessionSnapshot)
  | detach (sessionId : JsStr)
  | getTree
  | session (command : SessionCommand) (session : SessionSnapshot)

/-- The name of a command. -/
inductive CommandName where
  | list
  | listModels
  | create
  | attach
  | detach
  | getTree
  | session (command : SessionCommand)
  deriving DecidableEq

def Command.name : Command → CommandName
  | .list => .list
  | .listModels => .listModels
  | .create => .create
  | .attach _ => .attach
  | .detach _ => .detach
  | .getTree _ => .getTree
  | .session command _ => .session command

def CommandResult.name : CommandResult → CommandName
  | .list => .list
  | .listModels => .listModels
  | .create _ => .create
  | .attach _ => .attach
  | .detach _ => .detach
  | .getTree => .getTree
  | .session command _ => .session command

inductive ServerEvent where
  | serverSnapshot (snapshot : ServerSnapshot)
  | sessionSnapshot (snapshot : SessionSnapshot)
  | sessionProgress (sessionId : JsStr)
  | sessionRemoved (sessionId : JsStr)

/-- A `ClientState` without its listeners. -/
structure ClientState where
  snapshot : Option ServerSnapshot
  sessionSnapshots : JsMap JsStr SessionSnapshot
  attachedSessionIds : JsMap JsStr Unit

namespace ClientState

def initial : ClientState := ⟨none, .empty, .empty⟩

def reset (_ : ClientState) : ClientState := initial

def clearAttachments (state : ClientState) : ClientState := { state with attachedSessionIds := .empty }

def isSessionAttached (state : ClientState) (sessionId : JsStr) : Bool :=
  state.attachedSessionIds.has sessionId

def forgetSessionSnapshot (state : ClientState) (sessionId : JsStr) : ClientState :=
  { state with sessionSnapshots := state.sessionSnapshots.delete sessionId }

def restoreSessionSnapshot (state : ClientState) (snapshot : SessionSnapshot) : ClientState :=
  if state.sessionSnapshots.has snapshot.id then state
  else { state with sessionSnapshots := state.sessionSnapshots.set snapshot.id snapshot }

/-- `#applySessionSnapshot` without the check of the revision. -/
def storeSessionSnapshot (state : ClientState) (snapshot : SessionSnapshot) : ClientState :=
  { state with
    sessionSnapshots := state.sessionSnapshots.set snapshot.id snapshot
    attachedSessionIds :=
      if snapshot.attached then state.attachedSessionIds.set snapshot.id ()
      else state.attachedSessionIds.delete snapshot.id }

def isStale (state : ClientState) (snapshot : SessionSnapshot) : Bool :=
  match state.sessionSnapshots.get? snapshot.id with
  | none => false
  | some current => snapshot.revision < current.revision

def applySessionSnapshot (state : ClientState) (snapshot : SessionSnapshot) : ClientState :=
  if state.isStale snapshot then state else state.storeSessionSnapshot snapshot

def applyServerSnapshot (state : ClientState) (snapshot : ServerSnapshot) : ClientState :=
  match state.snapshot with
  | none => { state with snapshot := some snapshot }
  | some current =>
    if snapshot.revision < current.revision then state else { state with snapshot := some snapshot }

def applyResult (state : ClientState) : CommandResult → ClientState
  | .list | .listModels | .getTree => state
  | .detach sessionId =>
    let detached := { state with attachedSessionIds := state.attachedSessionIds.delete sessionId }
    match state.sessionSnapshots.get? sessionId with
    | none => detached
    | some snapshot => detached.storeSessionSnapshot { snapshot with attached := false }
  | .create session | .attach session | .session _ session => state.applySessionSnapshot session

def applyEvent (state : ClientState) : ServerEvent → ClientState
  | .serverSnapshot snapshot => state.applyServerSnapshot snapshot
  | .sessionSnapshot snapshot => state.applySessionSnapshot snapshot
  | .sessionProgress _ => state
  | .sessionRemoved sessionId =>
    { state with
      sessionSnapshots := state.sessionSnapshots.delete sessionId
      attachedSessionIds := state.attachedSessionIds.delete sessionId }

end ClientState

end PiRp.Client
