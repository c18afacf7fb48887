import PiRp.JsMap
import PiRp.JsonValue

/-! The client of the Model Context Protocol, `packages/mcp/src/client.ts`. Every `await` ends a step; calls of the
client, events of the transport, timers, abort signals and the ends of sends come in any order. -/

namespace PiRp.Mcp

/-- An id of JSON-RPC; a number that is not an integer is like a string that no request has. -/
inductive JsonRpcId where
  | number (value : Int)
  | string (value : JsStr)
  deriving DecidableEq

inductive ClientState where
  | idle
  | connecting
  | connected
  | closed
  deriving DecidableEq

structure PendingRequest where
  /-- The request can be given a time; `armTimeout` sets the timer just then. -/
  timed : Bool
  timer : Bool
  /-- There is an abort signal. -/
  signal : Bool
  /-- The spec forbids cancelling `initialize`. -/
  cancellable : Bool
  progressToken : Option JsonRpcId

/-- How a request is settled: by a response with its id, or without one. -/
inductive Settlement where
  | resolved (response : JsonRpcId) (result : Json)
  | errored (response : JsonRpcId)
  | sendFailed
  | aborted
  | timedOut
  | closed

/-- What is given to the transport. -/
inductive Outgoing where
  | request (id : JsonRpcId)
  | initialized
  | notification
  | cancelled (id : JsonRpcId)
  | methodNotFound (id : JsonRpcId)
  | response (id : JsonRpcId)

/-- Where `connect` waits. -/
inductive Handshake where
  | starting
  | initializing (id : JsonRpcId)
  | notifying
  /-- It has failed and waits for `close`. -/
  | closing

structure RequestOptions where
  timed : Bool
  signal : Bool
  /-- The signal is aborted already. -/
  aborted : Bool
  onProgress : Bool

/-! ### The result of `initialize` -/

def isObject : Json → Option (Props Json)
  | .object props => some props
  | _ => none

def stringOf : Json → Option JsStr
  | .string value => some value
  | _ => none

/-- The protocol version of a valid result. -/
def validateInitializeResult (value : Json) : Option JsStr := do
  let props ← isObject value
  let version ← stringOf (← props.get? (js "protocolVersion"))
  let _ ← isObject (← props.get? (js "capabilities"))
  let serverInfo ← isObject (← props.get? (js "serverInfo"))
  let _ ← stringOf (← serverInfo.get? (js "name"))
  let _ ← stringOf (← serverInfo.get? (js "version"))
  match props.get? (js "instructions") with
  | none => some version
  | some instructions => (stringOf instructions).map fun _ => version

def supportedProtocolVersions : List JsStr :=
  [js "2025-11-25", js "2025-06-18", js "2025-03-26", js "2024-11-05"]

/-! ### The client -/

/-- An `McpClient` without its listeners and request handlers. -/
structure McpClient where
  state : ClientState
  /-- `this.transport` is set. -/
  transport : Bool
  /-- The listeners of the transport are not disposed. -/
  listening : Bool
  nextRequestId : Nat
  protocolVersion : Option JsStr
  pending : JsMap JsonRpcId PendingRequest
  progressRequests : JsMap JsonRpcId JsonRpcId
  /-- The requests of the server that are being served. -/
  incoming : JsMap JsonRpcId Unit
  handshake : Option Handshake
  /-- How calls of `connect` have ended: resolved, or rejected. -/
  connects : List Bool
  /-- How often the close listeners have been run. -/
  closeNotices : Nat
  /-- The requests whose promise has been settled, once for each time. -/
  settled : List (JsonRpcId × Settlement)
  sent : List Outgoing

namespace McpClient

def initial : McpClient where
  state := .idle
  transport := false
  listening := false
  nextRequestId := 1
  protocolVersion := none
  pending := .empty
  progressRequests := .empty
  incoming := .empty
  handshake := none
  connects := []
  closeNotices := 0
  settled := []
  sent := []

def send (client : McpClient) (message : Outgoing) : McpClient := { client with sent := client.sent ++ [message] }

def removePending (client : McpClient) (id : JsonRpcId) (entry : PendingRequest) : McpClient :=
  { client with
    pending := client.pending.delete id
    progressRequests :=
      match entry.progressToken with
      | none => client.progressRequests
      | some token => client.progressRequests.delete token }

/-- Removes the request and settles its promise. -/
def settle (client : McpClient) (id : JsonRpcId) (entry : PendingRequest) (settlement : Settlement) : McpClient :=
  { client.removePending id entry with settled := client.settled ++ [(id, settlement)] }

def cancelPending (client : McpClient) (id : JsonRpcId) (settlement : Settlement) (notifyServer : Bool) :
    McpClient :=
  match client.pending.get? id with
  | none => client
  | some entry =>
    let settled := client.settle id entry settlement
    if notifyServer ∧ client.transport then settled.send (.cancelled id) else settled

def rejectPending (client : McpClient) (settlement : Settlement) : McpClient :=
  client.pending.entries.foldl (fun client entry => client.settle entry.1 entry.2 settlement) client

def markClosed (client : McpClient) : McpClient :=
  let rejected := { client with state := .closed }.rejectPending .closed
  { rejected with
    incoming := .empty
    closeNotices := if client.state = .closed then client.closeNotices else client.closeNotices + 1 }

/-- `close`, up to its `await`. -/
def close (client : McpClient) : McpClient := { client with transport := false, listening := false }.markClosed

/-- `requireTransport` does not throw. -/
def hasTransport (client : McpClient) (allowConnecting : Bool) : Bool :=
  client.transport && (client.state = .connected || (allowConnecting && client.state = .connecting))

def armTimeout (entry : PendingRequest) : PendingRequest := { entry with timer := entry.timed }

/-- `requestInternal`; nothing when it throws. -/
def requestInternal (client : McpClient) (options : RequestOptions) (allowConnecting cancellable : Bool) :
    Option McpClient :=
  if !client.hasTransport allowConnecting then none
  else if options.signal && options.aborted then none
  else
    let id := JsonRpcId.number client.nextRequestId
    let progressToken := if options.onProgress then some id else none
    let entry : PendingRequest := armTimeout ⟨options.timed, false, options.signal, cancellable, progressToken⟩
    some { client.send (.request id) with
      nextRequestId := client.nextRequestId + 1
      pending := client.pending.set id entry
      progressRequests := if options.onProgress then client.progressRequests.set id id else client.progressRequests }

def request (client : McpClient) (options : RequestOptions) : McpClient :=
  (client.requestInternal options false true).getD client

def notify (client : McpClient) : McpClient :=
  if client.hasTransport false then client.send .notification else client

/-! ### `connect` -/

/-- The handshake has thrown. -/
def failConnect (client : McpClient) : McpClient := { client.close with handshake := some .closing }

def connect (client : McpClient) : McpClient :=
  if client.state ≠ .idle then { client with connects := client.connects ++ [false] }
  else { client with
    state := .connecting
    transport := true
    listening := true
    handshake := some .starting }

/-- `transport.start` has ended. -/
def transportStarted (client : McpClient) (started timed : Bool) : McpClient :=
  match client.handshake with
  | some .starting =>
    if started then
      match client.requestInternal ⟨timed, false, false, false⟩ true false with
      | none => client.failConnect
      | some requested =>
        { requested with handshake := some (.initializing (.number client.nextRequestId)) }
    else client.failConnect
  | _ => client

def settlementOf (client : McpClient) (id : JsonRpcId) : Option Settlement :=
  (client.settled.find? fun entry => entry.1 = id).map Prod.snd

/-- The promise of `initialize` is settled, and `connect` goes on. -/
def initialized (client : McpClient) : McpClient :=
  match client.handshake with
  | some (.initializing id) =>
    match client.settlementOf id with
    | none => client
    | some (.resolved _ result) =>
      match validateInitializeResult result with
      | none => client.failConnect
      | some version =>
        if version ∈ supportedProtocolVersions then
          let versioned := { client with protocolVersion := some version }
          if versioned.hasTransport true then
            { versioned.send .initialized with handshake := some .notifying }
          else versioned.failConnect
        else client.failConnect
    | some _ => client.failConnect
  | _ => client

/-- The `notifications/initialized` message has been sent, or not. -/
def notified (client : McpClient) (success : Bool) : McpClient :=
  match client.handshake with
  | some .notifying =>
    if success then
      { client with state := .connected, handshake := none, connects := client.connects ++ [true] }
    else client.failConnect
  | _ => client

/-- The `close` of a failed handshake has ended. -/
def rejectConnect (client : McpClient) : McpClient :=
  match client.handshake with
  | some .closing => { client with handshake := none, connects := client.connects ++ [false] }
  | _ => client

/-! ### Events of the transport -/

def handleTransportClose (client : McpClient) : McpClient :=
  if client.listening then client.markClosed else client

/-- A response with the result, or an error. -/
def handleResponse (client : McpClient) (id : JsonRpcId) (result : Option Json) : McpClient :=
  if client.listening then
    match client.pending.get? id with
    | none => client
    | some entry =>
      client.settle id entry
        (match result with
        | some result => .resolved id result
        | none => .errored id)
  else client

/-- A request of the server, up to the handler's `await`. -/
def handleRequest (client : McpClient) (id : JsonRpcId) (handler : Bool) : McpClient :=
  if client.listening ∧ client.transport then
    if handler then { client with incoming := client.incoming.set id () } else client.send (.methodNotFound id)
  else client

/-- The handler of a request has ended; the transport is that of the request. -/
def requestHandled (client : McpClient) (id : JsonRpcId) : McpClient :=
  { client.send (.response id) with incoming := client.incoming.delete id }

def handleProgress (client : McpClient) (progressToken : JsonRpcId) : McpClient :=
  if client.listening then
    match client.progressRequests.get? progressToken with
    | none => client
    | some id => { client with pending := client.pending.modify id armTimeout }
  else client

/-! ### Timers and signals -/

def timeout (client : McpClient) (id : JsonRpcId) : McpClient :=
  match client.pending.get? id with
  | none => client
  | some entry => if entry.timer then client.cancelPending id .timedOut entry.cancellable else client

def abort (client : McpClient) (id : JsonRpcId) : McpClient :=
  match client.pending.get? id with
  | none => client
  | some entry => if entry.signal then client.cancelPending id .aborted entry.cancellable else client

/-- The send of a request has failed. -/
def sendFailed (client : McpClient) (id : JsonRpcId) : McpClient := client.cancelPending id .sendFailed false

end McpClient

inductive Event where
  | connect
  | transportStarted (started timed : Bool)
  | initialized
  | notified (success : Bool)
  | rejectConnect
  | request (options : RequestOptions)
  | notify
  | close
  | transportClose
  | response (id : JsonRpcId) (result : Option Json)
  | serverRequest (id : JsonRpcId) (handler : Bool)
  | requestHandled (id : JsonRpcId)
  | progress (progressToken : JsonRpcId)
  /-- The message aborts the controller of a request of the server. -/
  | cancelled (id : JsonRpcId)
  | timeout (id : JsonRpcId)
  | abort (id : JsonRpcId)
  | sendFailed (id : JsonRpcId)

def step (client : McpClient) : Event → McpClient
  | .connect => client.connect
  | .transportStarted started timed => client.transportStarted started timed
  | .initialized => client.initialized
  | .notified success => client.notified success
  | .rejectConnect => client.rejectConnect
  | .request options => client.request options
  | .notify => client.notify
  | .close => client.close
  | .transportClose => client.handleTransportClose
  | .response id result => client.handleResponse id result
  | .serverRequest id handler => client.handleRequest id handler
  | .requestHandled id => client.requestHandled id
  | .progress progressToken => client.handleProgress progressToken
  | .cancelled _ => client
  | .timeout id => client.timeout id
  | .abort id => client.abort id
  | .sendFailed id => client.sendFailed id

def run (events : List Event) : McpClient := events.foldl step .initial

end PiRp.Mcp
