import PiRp.ClientLeases

/-! The client of a session server, `packages/client/src/client.ts`. Every `await` of the client ends a
step; what comes after it is an event of its own, in any order with the calls of the client, the messages
of the server and the changes of the connection. -/

namespace PiRp.Client

/-- The errors a call can be rejected with. -/
inductive ClientError where
  | disposed
  | disconnected
  /-- A `PiServerError`. -/
  | server
  | protocol
  | ownership
  | detached

inductive ConnectionState where
  | disconnected
  | connecting
  | connected
  deriving DecidableEq

inductive ServerMessage where
  | response (id : Nat) (result : Except ClientError CommandResult)
  | event (event : ServerEvent)

/-- A call of `#attachSession`, with the snapshot it puts back on failure. -/
structure AttachTask where
  sessionId : JsStr
  previous : Option SessionSnapshot

/-- A `PiClient` without its listeners. A promise is known by the number of the request it stands for; the
numbers are those of tokens, too. -/
structure PiClient where
  connection : ConnectionState
  disposed : Bool
  state : ClientState
  leases : Leases
  pendingRequests : JsMap Nat Command
  /-- How requests have ended. -/
  results : JsMap Nat (Except ClientError CommandResult)
  /-- The frame of the command can be encoded. -/
  encodes : Command → Bool
  /-- The requests that have been sent. -/
  sent : List (Nat × Command)
  /-- The calls of `createSession` that wait. -/
  creations : JsMap Nat Unit
  /-- The calls of `#attachSession` that wait, and how others have ended. -/
  attaching : JsMap Nat AttachTask
  attached : JsMap Nat (Option ClientError)
  /-- The promises of the session: `#sessionAttachments`, `#sessionDetachments`. -/
  sessionAttachments : JsMap JsStr Nat
  sessionDetachments : JsMap JsStr Nat
  sessionCleanupRequired : JsMap JsStr Unit
  sessionReconciliations : JsMap JsStr Nat
  /-- The reconciliations that wait, those whose handler has run, and how others have ended. -/
  reconciling : JsMap Nat JsStr
  settling : JsMap Nat (JsStr × Option ClientError)
  reconciled : JsMap Nat (Option ClientError)
  next : Nat

namespace PiClient

def initial (encodes : Command → Bool) : PiClient where
  connection := .disconnected
  disposed := false
  state := .initial
  leases := .initial
  pendingRequests := .empty
  results := .empty
  encodes
  sent := []
  creations := .empty
  attaching := .empty
  attached := .empty
  sessionAttachments := .empty
  sessionDetachments := .empty
  sessionCleanupRequired := .empty
  sessionReconciliations := .empty
  reconciling := .empty
  settling := .empty
  reconciled := .empty
  next := 0

/-! ### Requests and the connection -/

/-- A number that has not been used. -/
def tick (client : PiClient) : PiClient := { client with next := client.next + 1 }

def reject (client : PiClient) (promise : Nat) (error : ClientError) : PiClient :=
  { client with results := client.results.set promise (.error error) }

/-- `#request`; the promise has the number `next`. A transport that throws while the frame is sent is a
`disconnect` right after it. -/
def request (client : PiClient) (command : Command) : PiClient :=
  let id := client.next
  if client.disposed then client.tick.reject id .disposed
  else if client.connection ≠ .connected then client.tick.reject id .disconnected
  else if !client.encodes command then client.tick.reject id .protocol
  else { client.tick with
    pendingRequests := client.pendingRequests.set id command
    sent := client.sent ++ [(id, command)] }

def rejectPendingRequests (client : PiClient) (error : ClientError) : PiClient :=
  { client.pendingRequests.keys.foldl (fun client id => client.reject id error) client with
    pendingRequests := .empty }

def invalidateSessionLeases (client : PiClient) (sessionId : JsStr) : PiClient :=
  { client with
    leases := client.leases.invalidate sessionId
    sessionCleanupRequired := client.sessionCleanupRequired.delete sessionId }

def invalidateAllSessionLeases (client : PiClient) : PiClient :=
  { client with
    leases := client.leases.invalidateAll
    sessionCleanupRequired := .empty }

/-- The connection ends; `#handleConnectionStateChange`. -/
def disconnect (client : PiClient) (error : ClientError) : PiClient :=
  if client.connection = .disconnected then client
  else
    rejectPendingRequests
      (invalidateAllSessionLeases
        { client with connection := .disconnected, state := client.state.clearAttachments }) error

def connect (client : PiClient) : PiClient :=
  if client.disposed ∨ client.connection ≠ .disconnected then client
  else { client with connection := .connecting, state := client.state.reset }

/-- The server's hello. -/
def handshake (client : PiClient) (snapshot : ServerSnapshot) : PiClient :=
  if client.connection = .connecting then
    { client with connection := .connected, state := client.state.applyServerSnapshot snapshot }
  else client

def dispose (client : PiClient) : PiClient :=
  if client.disposed then client
  else
    let disconnected := ({ client with disposed := true }.rejectPendingRequests .disposed).disconnect .disposed
    { disconnected with state := disconnected.state.reset }.invalidateAllSessionLeases

/-- `#handleMessage`. -/
def receive (client : PiClient) (message : ServerMessage) : PiClient :=
  if client.connection ≠ .connected then client
  else
    match message with
    | .event (.sessionRemoved sessionId) =>
      let invalidated := client.invalidateSessionLeases sessionId
      { invalidated with state := invalidated.state.applyEvent (.sessionRemoved sessionId) }
    | .event event => { client with state := client.state.applyEvent event }
    | .response id result =>
      match client.pendingRequests.get? id with
      | none => client.disconnect .protocol
      | some command =>
        let taken := { client with pendingRequests := client.pendingRequests.delete id }
        match result with
        | .error _ => taken.reject id .server
        | .ok result =>
          if result.name ≠ command.name then (taken.reject id .protocol).disconnect .protocol
          else { taken with
            state := taken.state.applyResult result
            results := taken.results.set id (.ok result) }

/-! ### Acquiring a session -/

/-- `#createSessionLease`. -/
def createSessionLease (client : PiClient) (token : Nat) (lease : Lease) : PiClient :=
  { client with leases := client.leases.createLease token lease }

/-- The acquisition goes on waiting. -/
def await (client : PiClient) (token : Nat) (lease : Lease) (wait : Wait) : PiClient :=
  { client with leases := client.leases.setStage token lease (.acquiring wait) }

/-- The `catch` of `acquireSession`. -/
def failAcquisition (client : PiClient) (token : Nat) (lease : Lease) : PiClient :=
  { client with leases := (client.leases.release lease.sessionId token).setStage token lease .failed }

/-- The start of `#attachSession`, whose promise has the number `next`. -/
def attachSession (client : PiClient) (sessionId : JsStr) : PiClient :=
  let previous := client.state.sessionSnapshots.get? sessionId
  let requested :=
    { client with state := client.state.forgetSessionSnapshot sessionId }.request (.attach sessionId)
  { requested with
    attaching := requested.attaching.set client.next ⟨sessionId, previous⟩
    sessionAttachments := requested.sessionAttachments.set sessionId client.next }

/-- The acquisition makes sure that the session is attached. -/
def ensureAttached (client : PiClient) (token : Nat) (lease : Lease) (reconciled : Bool) : PiClient :=
  if reconciled || !client.state.isSessionAttached lease.sessionId then
    match client.sessionAttachments.get? lease.sessionId with
    | some attachment => client.await token lease (.attachment attachment)
    | none => (client.attachSession lease.sessionId).await token lease (.attachment client.next)
  else client.createSessionLease token lease

/-- The start of a reconciliation, whose promise has the number `next`. -/
def reconcile (client : PiClient) (sessionId : JsStr) : PiClient :=
  let requested := client.request (.detach sessionId)
  { requested with
    reconciling := requested.reconciling.set client.next sessionId
    sessionReconciliations := requested.sessionReconciliations.set sessionId client.next }

/-- The acquisition cleans up after a detach that has failed. -/
def ensureClean (client : PiClient) (token : Nat) (lease : Lease) : PiClient :=
  if client.sessionCleanupRequired.has lease.sessionId then
    match client.sessionReconciliations.get? lease.sessionId with
    | some reconciliation => client.await token lease (.reconciliation reconciliation)
    | none => (client.reconcile lease.sessionId).await token lease (.reconciliation client.next)
  else client.ensureAttached token lease false

/-- `acquireSession` up to its first `await`; the token has the number `next`. -/
def acquireSession (client : PiClient) (sessionId : JsStr) (mode : LeaseMode) : PiClient :=
  if client.disposed then client
  else
    match client.leases.reserve client.next sessionId mode with
    | none => client
    | some leases =>
      let lease : Lease := ⟨sessionId, mode, leases.generationOf sessionId, .reserved⟩
      let reserved := { client.tick with leases }
      match client.sessionDetachments.get? sessionId with
      | some detachment => reserved.await client.next lease (.detachment detachment)
      | none => reserved.ensureClean client.next lease

/-- The `finally` after the attachment. -/
def forgetAttachment (client : PiClient) (sessionId : JsStr) (attachment : Nat) : PiClient :=
  if client.sessionAttachments.get? sessionId = some attachment then
    { client with sessionAttachments := client.sessionAttachments.delete sessionId }
  else client

/-- What the promise has ended with that the acquisition waits for, if it has. -/
def awaited (client : PiClient) : Wait → Option (Option ClientError)
  | .detachment promise => if client.results.has promise then some none else none
  | .reconciliation promise => client.reconciled.get? promise
  | .attachment promise => client.attached.get? promise

/-- The acquisition goes on when what it waits for has ended. -/
def resumeAcquisition (client : PiClient) (token : Nat) : PiClient :=
  match client.leases.tokens.get? token with
  | none => client
  | some lease =>
    match lease.stage with
    | .acquiring wait =>
      match wait, client.awaited wait with
      | _, none => client
      | .detachment _, some _ => client.ensureClean token lease
      | .reconciliation _, some none => client.ensureAttached token lease true
      | .reconciliation _, some (some _) => client.failAcquisition token lease
      | .attachment attachment, some none =>
        (client.forgetAttachment lease.sessionId attachment).createSessionLease token lease
      | .attachment attachment, some (some _) =>
        (client.forgetAttachment lease.sessionId attachment).failAcquisition token lease
    | _ => client

def errorOf {α : Type} : Except ClientError α → Option ClientError
  | .ok _ => none
  | .error error => some error

/-- `#attachSession` goes on after its request. -/
def resumeAttach (client : PiClient) (promise : Nat) : PiClient :=
  match client.attaching.get? promise, client.results.get? promise with
  | some task, some result =>
    { client with
      state :=
        match result, task.previous with
        | .error _, some previous => client.state.restoreSessionSnapshot previous
        | _, _ => client.state
      attaching := client.attaching.delete promise
      attached := client.attached.set promise (errorOf result) }
  | _, _ => client

/-- The handler of a reconciliation runs after its request. -/
def resumeReconciliation (client : PiClient) (promise : Nat) : PiClient :=
  match client.reconciling.get? promise, client.results.get? promise with
  | some sessionId, some result =>
    { client with
      reconciling := client.reconciling.delete promise
      settling := client.settling.set promise (sessionId, errorOf result)
      sessionCleanupRequired :=
        match result with
        | .ok _ => client.sessionCleanupRequired.delete sessionId
        | .error _ => client.sessionCleanupRequired }
  | _, _ => client

/-- The `finally` of a reconciliation. -/
def finishReconciliation (client : PiClient) (promise : Nat) : PiClient :=
  match client.settling.get? promise with
  | none => client
  | some (sessionId, error) =>
    { client with
      settling := client.settling.delete promise
      reconciled := client.reconciled.set promise error
      sessionReconciliations := client.sessionReconciliations.delete sessionId }

def createSession (client : PiClient) : PiClient :=
  let requested := client.request .create
  { requested with creations := requested.creations.set client.next () }

/-- `createSession` goes on after its request. -/
def resumeCreation (client : PiClient) (promise : Nat) : PiClient :=
  match client.creations.get? promise, client.results.get? promise with
  | some _, some result =>
    let taken := { client with creations := client.creations.delete promise }
    match result with
    | .ok (.create session) =>
      match taken.leases.reserve taken.next session.id .exclusive with
      | none => taken
      | some leases =>
        { taken.tick with leases }.createSessionLease taken.next
          ⟨session.id, .exclusive, leases.generationOf session.id, .reserved⟩
    | _ => taken
  | _, _ => client

/-! ### Releasing a lease -/

/-- The lease is active and its session attached. -/
def isActive (client : PiClient) (lease : Lease) : Bool :=
  (client.leases.refresh lease).stage = .active && client.state.isSessionAttached lease.sessionId

def assertActive (client : PiClient) (lease : Lease) : Bool :=
  !client.disposed && client.connection = .connected && client.isActive lease

/-- `release` of a lease, up to its first `await`. -/
def release (client : PiClient) (token : Nat) (relinquish : Bool) : PiClient :=
  match client.leases.tokens.get? token with
  | none => client
  | some lease =>
    match lease.stage with
    | .active =>
      let refreshed := client.leases.refresh lease
      if refreshed.stage = .active && client.assertActive lease then
        if client.leases.countOf lease.sessionId ≤ 1 then
          let requested := client.request (.detach lease.sessionId)
          { requested with
            leases := requested.leases.setStage token lease (.releasing client.next relinquish)
            sessionDetachments := requested.sessionDetachments.set lease.sessionId client.next }
        else
          { client with
            leases := (client.leases.release lease.sessionId token).setStage token lease .released }
      else { client with leases := client.leases.setStage token lease refreshed.stage }
    | _ => client

/-- The `finally` after the detach command. -/
def forgetDetachment (client : PiClient) (sessionId : JsStr) (detachment : Nat) : PiClient :=
  if client.sessionDetachments.get? sessionId = some detachment then
    { client with sessionDetachments := client.sessionDetachments.delete sessionId }
  else client

/-- The release goes on after its detach command. -/
def resumeRelease (client : PiClient) (token : Nat) : PiClient :=
  match client.leases.tokens.get? token with
  | none => client
  | some lease =>
    match lease.stage with
    | .releasing detachment relinquish =>
      match client.results.get? detachment with
      | none => client
      | some (.ok _) =>
        { client with
          leases := (client.leases.release lease.sessionId token).setStage token lease .released
          }.forgetDetachment lease.sessionId detachment
      | some (.error _) =>
        { client with leases := client.leases.setStage token lease (.failing relinquish)
          }.forgetDetachment lease.sessionId detachment
    | _ => client

/-- The handler of a release that has failed. -/
def catchRelease (client : PiClient) (token : Nat) : PiClient :=
  match client.leases.tokens.get? token with
  | none => client
  | some lease =>
    match lease.stage with
    | .failing relinquish =>
      if client.leases.isStale lease then
        { client with leases := client.leases.setStage token lease .invalidated }
      else if relinquish then
        { client with
          leases := (client.leases.release lease.sessionId token).setStage token lease .released
          sessionCleanupRequired := client.sessionCleanupRequired.set lease.sessionId () }
      else { client with leases := client.leases.setStage token lease .active }
    | _ => client

/-- A request by a lease. -/
def leaseRequest (client : PiClient) (token : Nat) (command : JsStr → Command) : PiClient :=
  match client.leases.tokens.get? token with
  | none => client
  | some lease => if client.assertActive lease then client.request (command lease.sessionId) else client

end PiClient

/-! ### Runs -/

/-- What a client asks for that neither attaches nor detaches. -/
inductive Query where
  | list
  | listModels
  | getTree (sessionId : JsStr)
  | session (command : SessionCommand) (sessionId : JsStr)

def Query.command : Query → Command
  | .list => .list
  | .listModels => .listModels
  | .getTree sessionId => .getTree sessionId
  | .session command sessionId => .session command sessionId

inductive Event where
  | connect
  | handshake (snapshot : ServerSnapshot)
  | disconnect (error : ClientError)
  | dispose
  | receive (message : ServerMessage)
  | query (query : Query)
  | createSession
  | acquireSession (sessionId : JsStr) (mode : LeaseMode)
  /-- `detach` of a lease, or `dispose` when it relinquishes. -/
  | release (token : Nat) (relinquish : Bool)
  | leaseQuery (token : Nat) (command : SessionCommand)
  | leaseTree (token : Nat)
  | resumeCreation (promise : Nat)
  | resumeAttach (promise : Nat)
  | resumeReconciliation (promise : Nat)
  | finishReconciliation (promise : Nat)
  | resumeAcquisition (token : Nat)
  | resumeRelease (token : Nat)
  | catchRelease (token : Nat)

def step (client : PiClient) : Event → PiClient
  | .connect => client.connect
  | .handshake snapshot => client.handshake snapshot
  | .disconnect error => client.disconnect error
  | .dispose => client.dispose
  | .receive message => client.receive message
  | .query query => client.request query.command
  | .createSession => client.createSession
  | .acquireSession sessionId mode => client.acquireSession sessionId mode
  | .release token relinquish => client.release token relinquish
  | .leaseQuery token command => client.leaseRequest token (.session command)
  | .leaseTree token => client.leaseRequest token .getTree
  | .resumeCreation promise => client.resumeCreation promise
  | .resumeAttach promise => client.resumeAttach promise
  | .resumeReconciliation promise => client.resumeReconciliation promise
  | .finishReconciliation promise => client.finishReconciliation promise
  | .resumeAcquisition token => client.resumeAcquisition token
  | .resumeRelease token => client.resumeRelease token
  | .catchRelease token => client.catchRelease token

def run (encodes : Command → Bool) (events : List Event) : PiClient :=
  events.foldl step (.initial encodes)

end PiRp.Client
