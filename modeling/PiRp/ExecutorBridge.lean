import PiRp.CborEncoding
import PiRp.Framing
import PiRp.Transcript

/-! The bridge between a session and the executor that runs it, `packages/server/src/executor-runtime.ts`.
An executor is attached over a transport; every transport is a generation of its own. What happens later
with a transport, the data and the end of it, its timers and the outcome of every frame sent on it, are
events that come in any order, also after the next transport has been attached. -/

namespace PiRp.Executor

open Transcript (SessionSnapshot TranscriptState TranscriptProgress createTranscriptState
  applyTranscriptSnapshot applyTranscriptProgress selectTranscript)

/-! ### Messages -/

inductive ErrorCode where
  | busy
  | sessionLocked
  | invalidRequest
  | internalError
  | version
  | notFound
  | notImplemented
  /-- An error that is no `PiServerError`. -/
  | plain
  deriving DecidableEq

structure Failure where
  code : ErrorCode
  message : JsStr
  deriving DecidableEq

def executorProtocolVersion : Nat := 1

/-- The fields every message but the hello begins with. -/
structure RuntimeIdentity where
  sessionId : JsStr
  bindingId : JsStr
  generationId : JsStr

/-- The id of a command. `randomUUID` never gives an id twice: an id is the generation that the command
belongs to with a number. -/
structure CommandId where
  generation : Nat
  number : Nat
  deriving DecidableEq

inductive ExecutorToHost where
  | hello (sessionId : JsStr) (version : Nat) (generationId : JsStr)
  | runtimeSnapshot (identity : RuntimeIdentity) (snapshot : SessionSnapshot)
  | runtimeProgress (identity : RuntimeIdentity) (progress : TranscriptProgress)
  | runtimeCommandResult (identity : RuntimeIdentity) (commandId : CommandId)
      (result : Except Failure SessionSnapshot)
  /-- A snapshot, or with an id the result of a command, that the executor could not send. -/
  | snapshotRejected (identity : RuntimeIdentity) (commandId : Option CommandId)
  | runtimeError (identity : RuntimeIdentity) (isInternal : Bool) (message : JsStr)
  | executorClose (identity : RuntimeIdentity)

inductive RuntimeCommand where
  | prompt (text : JsStr)
  | steer (text : JsStr)
  | abort
  | setModel (provider id : JsStr)
  | setThinking (level : JsStr)
  deriving DecidableEq

/-- Aborts use the reserve. -/
def RuntimeCommand.isAbort (command : RuntimeCommand) : Bool := command = .abort

inductive RejectStage where
  | hello
  | bootstrap
  | snapshot

inductive HostToExecutor where
  | ready (identity : RuntimeIdentity)
  | reject (stage : RejectStage) (sessionId : JsStr) (bindingId : Option JsStr)
      (generationId : JsStr) (error : Failure)
  | bootstrapAck (identity : RuntimeIdentity)
  | runtimeCommand (identity : RuntimeIdentity) (commandId : CommandId) (command : RuntimeCommand)

def ExecutorToHost.identity : ExecutorToHost → Option RuntimeIdentity
  | .hello _ _ _ => none
  | .runtimeSnapshot identity _ | .runtimeProgress identity _ | .runtimeCommandResult identity _ _
  | .snapshotRejected identity _ | .runtimeError identity _ _ | .executorClose identity => some identity

/-! ### Control frames -/

def maxIdentityBytes : Nat := 128

/-- The characters of a UUID. -/
def uuidLength : Nat := 36

def defaultMaxFrameLength : Nat := 16 * 1024 * 1024

/-- The bytes of a message in a frame. -/
def frameSize (message : Cbor.Value) : Nat := Framing.frameHeaderLength + (Cbor.itemBytes message).length

def abortControl (sessionId bindingId generationId commandId : JsStr) : Cbor.Value :=
  .object [(js "type", .text (js "runtime_command")), (js "sessionId", .text sessionId),
    (js "bindingId", .text bindingId), (js "generationId", .text generationId),
    (js "commandId", .text commandId), (js "command", .object [(js "command", .text (js "abort"))])]

def snapshotRejectedControl (sessionId bindingId generationId commandId : JsStr) : Cbor.Value :=
  .object [(js "type", .text (js "executor_snapshot_rejected")), (js "sessionId", .text sessionId),
    (js "bindingId", .text bindingId), (js "generationId", .text generationId),
    (js "scope", .text (js "command_result")), (js "commandId", .text commandId),
    (js "code", .text (js "invalid_snapshot")),
    (js "encodedPayloadBytes", .number (.int (defaultMaxFrameLength + 1))),
    (js "maxPayloadBytes", .number (.int defaultMaxFrameLength)),
    (js "message", .text (js "Snapshot exceeds the executor frame limit"))]

def runtimeErrorControl (sessionId bindingId generationId : JsStr) : Cbor.Value :=
  .object [(js "type", .text (js "runtime_error")), (js "sessionId", .text sessionId),
    (js "bindingId", .text bindingId), (js "generationId", .text generationId),
    (js "error", .object [(js "code", .text (js "invalid_snapshot")),
      (js "message", .text (List.replicate 500 0x78))])]

def boundId : JsStr := List.replicate maxIdentityBytes 0x61

def boundUuid : JsStr := js "00000000-0000-4000-8000-000000000000"

def minAbortControlBytes : Nat :=
  max (frameSize (abortControl boundId boundId boundUuid boundUuid))
    (max (frameSize (snapshotRejectedControl boundId boundId boundUuid boundUuid))
      (frameSize (runtimeErrorControl boundId boundId boundUuid)))

/-- The wire format, as far as the bridge depends on it. -/
class Encoding where
  /-- The length of the encoded frame; without one the encoder throws. -/
  frameLength : HostToExecutor → Option Nat
  /-- A participant can be sent the snapshot. -/
  fitsParticipant : SessionSnapshot → Bool
  /-- The schema asks for UUIDs as the ids of generations and commands. -/
  frameLength_abort : ∀ identity id length, frameLength (.runtimeCommand identity id .abort) = some length →
    (textEncode identity.generationId).length = uuidLength ∧
      ∃ commandId, (textEncode commandId).length = uuidLength ∧
        length = frameSize (abortControl identity.sessionId identity.bindingId identity.generationId commandId)

def maxExecutorInboundChunkBytes : Nat := defaultMaxFrameLength + 4

/-- An id that is not empty and has at most 128 bytes. -/
def ValidIdentity (id : JsStr) : Prop := id ≠ [] ∧ (textEncode id).length ≤ maxIdentityBytes

/-- The options `validateOptions` accepts. -/
structure Options where
  sessionId : JsStr
  bindingId : JsStr
  maxPendingCommands : Nat
  maxQueuedOutboundBytes : Nat
  maxAbortControlBytes : Nat
  session_valid : ValidIdentity sessionId
  binding_valid : ValidIdentity bindingId
  pending_valid : 2 ≤ maxPendingCommands
  abort_valid : minAbortControlBytes ≤ maxAbortControlBytes
  bytes_valid : maxExecutorInboundChunkBytes + maxAbortControlBytes ≤ maxQueuedOutboundBytes

/-! ### The writer -/

/-- What waits for the outcome of a frame. -/
inductive Purpose where
  | ready
  | bootstrapAck
  | reject (error : Failure)
  | command (id : CommandId) (reserved : Bool)

structure Outbound where
  purpose : Purpose
  length : Nat

/-- Only the frame of an abort may use the reserve. -/
def Outbound.reserved (item : Outbound) : Bool :=
  match item.purpose with
  | .command _ reserved => reserved
  | _ => false

inductive SendOutcome where
  | sent
  /-- Executor outbound queue is full. -/
  | full
  | failed (error : Failure)
  deriving DecidableEq

/-- A `BoundedWriter`. It runs while a frame is in flight. -/
structure Writer where
  queued : List Outbound
  inFlight : Option Outbound
  bytes : Int
  closed : Bool

namespace Writer

def new : Writer := ⟨[], none, 0, false⟩

/-- The first queued frame is sent when none is in flight. -/
def drain (writer : Writer) : Writer :=
  match writer.inFlight, writer.closed, writer.queued with
  | none, false, item :: rest => { writer with inFlight := some item, queued := rest }
  | _, _, _ => writer

/-- The frame exceeds its bound or the room that is left for it. -/
def isFull (options : Options) (writer : Writer) (item : Outbound) : Bool :=
  let ordinaryLimit : Int := options.maxQueuedOutboundBytes - options.maxAbortControlBytes
  (if item.reserved then (options.maxAbortControlBytes : Int) else ordinaryLimit) < item.length ||
    (if item.reserved then (options.maxQueuedOutboundBytes : Int) else ordinaryLimit) <
      writer.bytes + item.length

/-- `send`; a frame that is not taken has its outcome at once. -/
def send (options : Options) (writer : Writer) (item : Outbound) : Writer × Option SendOutcome :=
  if writer.closed then (writer, some (.failed ⟨.plain, js "Executor connection is closed"⟩))
  else if writer.isFull options item then (writer, some .full)
  else (drain { writer with bytes := writer.bytes + item.length, queued := writer.queued ++ [item] }, none)

def lengthOf (items : List Outbound) : Int := (items.map fun item => (item.length : Int)).sum

/-- `close`, with the frames that are given up. -/
def close (writer : Writer) : Writer × List Outbound :=
  if writer.closed then (writer, [])
  else ({ writer with closed := true, queued := [], bytes := writer.bytes - lengthOf writer.queued },
    writer.queued)

/-- The frame in flight has been sent. -/
def sent (writer : Writer) : Writer × List Outbound :=
  match writer.inFlight with
  | none => (writer, [])
  | some item => (drain { writer with inFlight := none, bytes := writer.bytes - item.length }, [item])

/-- The frame in flight could not be sent; the writer closes. The frames that fail with it follow. -/
def failed (writer : Writer) : Writer × List Outbound :=
  match writer.inFlight with
  | none => (writer, [])
  | some item =>
    let (closed, dropped) := writer.close
    ({ closed with inFlight := none, bytes := closed.bytes - item.length }, item :: dropped)

end Writer

/-! ### The state of a bridge -/

/-- The outcome of a frame that its callbacks have not seen yet, with the transport it was sent on. -/
structure Reaction where
  transport : Nat
  purpose : Purpose
  outcome : SendOutcome

inductive TimerKind where
  | hello
  | bootstrap
  deriving DecidableEq

/-- A transport is known by the number of its generation. -/
structure Timer where
  kind : TimerKind
  transport : Nat
  deriving DecidableEq

/-- What a generation consists of. -/
structure Core where
  generation : Nat
  generationId : Option JsStr
  /-- The transport of the connection, of its writer and of its decoder. -/
  connection : Option Nat
  writer : Option Nat
  decoder : Option Nat
  bootstrap : Option SessionSnapshot
  bootstrapped : Bool
  state : Option TranscriptState
  revision : Nat
  /-- The pending commands; an abort is `reserved`. -/
  pending : JsMap CommandId Bool
  ordinaryPending : Int
  abortPending : Bool

structure Bridge where
  core : Core
  disposed : Bool
  /-- The transport that was attached last. -/
  attached : Nat
  helloTimer : Option Timer
  bootstrapTimer : Option Timer
  /-- The timers that run. -/
  running : List Timer
  writers : Nat → Writer
  reactions : List Reaction
  nextCommand : Nat
  /-- The commands that have been issued, with the mark of an abort. -/
  issued : JsMap CommandId Bool
  /-- How commands have been settled, the last one first. -/
  settlements : List (CommandId × Except Failure SessionSnapshot)

def Core.initial : Core where
  generation := 0
  generationId := none
  connection := none
  writer := none
  decoder := none
  bootstrap := none
  bootstrapped := false
  state := none
  revision := 0
  pending := .empty
  ordinaryPending := 0
  abortPending := false

def Bridge.initial : Bridge where
  core := .initial
  disposed := false
  attached := 0
  helloTimer := none
  bootstrapTimer := none
  running := []
  writers := fun _ => .new
  reactions := []
  nextCommand := 0
  issued := .empty
  settlements := []

namespace Bridge

def clearTimer (bridge : Bridge) (timer : Option Timer) : Bridge :=
  match timer with
  | none => bridge
  | some timer => { bridge with running := bridge.running.erase timer }

def settle (bridge : Bridge) (id : CommandId) (result : Except Failure SessionSnapshot) : Bridge :=
  { bridge with settlements := (id, result) :: bridge.settlements }

/-- Callbacks for frames with one outcome are due. -/
def due (bridge : Bridge) (transport : Nat) (items : List Outbound) (outcome : SendOutcome) : Bridge :=
  { bridge with
    reactions := bridge.reactions ++ items.map fun item => ⟨transport, item.purpose, outcome⟩ }

def closeWriter (bridge : Bridge) (transport : Nat) (error : Failure) : Bridge :=
  let (writer, dropped) := (bridge.writers transport).close
  { bridge with writers := Function.update bridge.writers transport writer }.due transport dropped
    (.failed error)

/-- The generation after the present one, with nothing attached. -/
def Core.failed (core : Core) : Core :=
  { core with
    generation := core.generation + 1
    generationId := none
    connection := none
    writer := none
    decoder := none
    bootstrapped := false
    pending := .empty
    ordinaryPending := 0
    abortPending := false }

def failGeneration (bridge : Bridge) (error : Failure) : Bridge :=
  let cleared := (bridge.clearTimer bridge.helloTimer).clearTimer bridge.bootstrapTimer
  let rejected := bridge.core.pending.keys.foldl (fun bridge id => bridge.settle id (.error error))
    { cleared with helloTimer := none, bootstrapTimer := none }
  let closed :=
    match bridge.core.writer with
    | none => rejected
    | some transport => rejected.closeWriter transport error
  { closed with core := Core.failed bridge.core }

def sendOn (options : Options) (bridge : Bridge) (transport : Nat) (item : Outbound) : Bridge :=
  let (writer, outcome) := (bridge.writers transport).send options item
  let bridge := { bridge with writers := Function.update bridge.writers transport writer }
  match outcome with
  | none => bridge
  | some outcome => bridge.due transport [item] outcome

variable [Encoding]

/-- `sendControl` during a message of the transport. -/
def sendControl (options : Options) (bridge : Bridge) (transport : Nat) (message : HostToExecutor)
    (purpose : Purpose) : Bridge :=
  match bridge.core.writer, Encoding.frameLength message with
  | none, _ =>
    bridge.due transport [⟨purpose, 0⟩] (.failed ⟨.plain, js "Executor is disconnected"⟩)
  | some _, none =>
    bridge.due transport [⟨purpose, 0⟩] (.failed ⟨.plain, js "Executor message exceeds its limit"⟩)
  | some writer, some length => bridge.sendOn options writer ⟨purpose, length⟩

/-! ### Inbound messages -/

def identity (options : Options) (generationId : JsStr) : RuntimeIdentity :=
  ⟨options.sessionId, options.bindingId, generationId⟩

/-- The hello names the session, in the version of the protocol, and no other hello came before it. -/
def acceptsHello (options : Options) (bridge : Bridge) (sessionId : JsStr) (version : Nat) : Bool :=
  sessionId = options.sessionId && version = executorProtocolVersion && bridge.core.generationId.isNone

def rejectHello (options : Options) (bridge : Bridge) (transport : Nat) (version : Nat)
    (generationId : JsStr) : Bridge :=
  let error : Failure :=
    ⟨.invalidRequest, if version ≠ executorProtocolVersion then js "Executor protocol version mismatch"
      else js "Executor handshake identity mismatch"⟩
  let code := if version ≠ executorProtocolVersion then ErrorCode.version else .invalidRequest
  sendControl options { bridge with core := { bridge.core with generationId := some generationId } } transport
    (.reject .hello options.sessionId none generationId ⟨code, error.message⟩) (.reject error)

def acceptHello (options : Options) (bridge : Bridge) (transport : Nat) (generationId : JsStr) : Bridge :=
  let cleared := bridge.clearTimer bridge.helloTimer
  sendControl options { cleared with
    core := { bridge.core with generationId := some generationId }
    helloTimer := none
    bootstrapTimer := some ⟨.bootstrap, transport⟩
    running := ⟨.bootstrap, transport⟩ :: cleared.running } transport
    (.ready (identity options generationId)) .ready

def receiveHello (options : Options) (bridge : Bridge) (transport : Nat) (sessionId : JsStr)
    (version : Nat) (generationId : JsStr) : Bridge :=
  if bridge.acceptsHello options sessionId version then bridge.acceptHello options transport generationId
  else bridge.rejectHello options transport version generationId

def rejectSnapshot (options : Options) (bridge : Bridge) (transport : Nat) (error : Failure) : Bridge :=
  match bridge.core.generationId with
  | none => bridge.failGeneration error
  | some generationId =>
    bridge.sendControl options transport
      (.reject (if bridge.core.bootstrap.isSome then .snapshot else .bootstrap) options.sessionId
        (some options.bindingId) generationId
        ⟨.invalidRequest, js "Executor snapshot exceeds participant frame limit"⟩) (.reject error)

/-- The state with a new snapshot. -/
def candidateState (bridge : Bridge) (snapshot : SessionSnapshot) : TranscriptState :=
  let candidate := { snapshot with revision := bridge.core.revision }
  match bridge.core.state with
  | some state => applyTranscriptSnapshot state candidate
  | none => createTranscriptState candidate

/-- A participant can be sent what it would show. -/
def fitsCandidate (bridge : Bridge) (snapshot : SessionSnapshot) : Bool :=
  Encoding.fitsParticipant { snapshot with
    revision := bridge.core.revision
    transcript := selectTranscript (bridge.candidateState snapshot) }

def acceptSnapshot (bridge : Bridge) (snapshot : SessionSnapshot) : Bridge :=
  { bridge with
    core := { bridge.core with
      state := some (bridge.candidateState snapshot)
      bootstrap := some snapshot
      revision := bridge.core.revision + 1 } }

def receiveSnapshot (options : Options) (bridge : Bridge) (transport : Nat) (generationId : JsStr)
    (snapshot : SessionSnapshot) : Bridge :=
  if snapshot.id ≠ options.sessionId then
    bridge.rejectSnapshot options transport
      ⟨.invalidRequest, js "Executor snapshot session ID mismatch"⟩
  else if !bridge.fitsCandidate snapshot then
    bridge.rejectSnapshot options transport ⟨.plain, js "Frame length exceeds configured limit"⟩
  else
    let accepted := bridge.acceptSnapshot snapshot
    match bridge.core.bootstrap with
    | some _ => accepted
    | none =>
      sendControl options { accepted.clearTimer accepted.bootstrapTimer with bootstrapTimer := none } transport
        (.bootstrapAck (identity options generationId)) .bootstrapAck

/-- The command is no longer pending. -/
def takePending (bridge : Bridge) (id : CommandId) (reserved : Bool) : Bridge :=
  { bridge with
    core := { bridge.core with
      pending := bridge.core.pending.delete id
      abortPending := if reserved then false else bridge.core.abortPending
      ordinaryPending :=
        if reserved then bridge.core.ordinaryPending else bridge.core.ordinaryPending - 1 } }

def receiveResult (options : Options) (bridge : Bridge) (id : CommandId)
    (result : Except Failure SessionSnapshot) : Bridge :=
  match bridge.core.pending.get? id with
  | none => bridge
  | some reserved =>
    let taken := bridge.takePending id reserved
    match result with
    | .error error => taken.settle id (.error error)
    | .ok snapshot =>
      if snapshot.id ≠ options.sessionId then
        let error : Failure :=
          ⟨.invalidRequest, js "Executor command result session ID mismatch"⟩
        (taken.settle id (.error error)).failGeneration error
      else if !taken.fitsCandidate snapshot then
        taken.settle id (.error ⟨.invalidRequest,
          js "Executor command completed, but its snapshot exceeds the participant frame limit"⟩)
      else (taken.acceptSnapshot snapshot).settle id (.ok snapshot)

def receiveSnapshotRejected (options : Options) (bridge : Bridge) (transport : Nat)
    (commandId : Option CommandId) : Bridge :=
  match commandId with
  | none =>
    bridge.rejectSnapshot options transport
      ⟨.invalidRequest, js "Executor snapshot exceeds participant frame limit"⟩
  | some id =>
    match bridge.core.pending.get? id with
    | none => bridge
    | some reserved =>
      (bridge.takePending id reserved).settle id (.error ⟨.invalidRequest,
        js "Executor command snapshot exceeds participant frame limit"⟩)

variable [JsonText.NumberText]

def receiveProgress (bridge : Bridge) (progress : TranscriptProgress) : Bridge :=
  { bridge with
    core := { bridge.core with
      state := bridge.core.state.map fun state => applyTranscriptProgress state progress
      revision := bridge.core.revision + 1 } }

/-- A message that is no hello, of the generation that is attached. -/
def receiveRuntime (options : Options) (bridge : Bridge) (transport : Nat) (generationId : JsStr) :
    ExecutorToHost → Bridge
  | .hello _ _ _ => bridge
  | .runtimeSnapshot _ snapshot => bridge.receiveSnapshot options transport generationId snapshot
  | .runtimeProgress _ progress => bridge.receiveProgress progress
  | .runtimeCommandResult _ commandId result => bridge.receiveResult options commandId result
  | .snapshotRejected _ commandId => bridge.receiveSnapshotRejected options transport commandId
  | .runtimeError _ isInternal message =>
    if isInternal then bridge.failGeneration ⟨.plain, message⟩ else bridge
  | .executorClose _ => bridge.failGeneration ⟨.sessionLocked, js "Executor closed the session"⟩

/-- `receiveMessage`. -/
def receiveMessage (options : Options) (transport : Nat) (bridge : Bridge) (message : ExecutorToHost) :
    Bridge :=
  if transport ≠ bridge.core.generation then bridge
  else
    match message, message.identity with
    | .hello sessionId version generationId, _ =>
      bridge.receiveHello options transport sessionId version generationId
    | _, none => bridge
    | message, some identity =>
      if bridge.core.generationId ≠ some identity.generationId then bridge
      else if identity.sessionId ≠ options.sessionId ∨ identity.bindingId ≠ options.bindingId then
        bridge.failGeneration ⟨.invalidRequest, js "Executor binding identity mismatch"⟩
      else bridge.receiveRuntime options transport identity.generationId message

/-! ### Transports -/

/-- The generation of a new transport; nothing is attached before it. -/
def openTransport (bridge : Bridge) : Bridge :=
  let current := bridge.core.generation + 1
  { bridge with
    core := { bridge.core with
      generation := current
      generationId := none
      connection := some current
      writer := some current
      decoder := some current
      bootstrap := none }
    attached := current
    helloTimer := some ⟨.hello, current⟩
    running := ⟨.hello, current⟩ :: bridge.running
    writers := Function.update bridge.writers current .new }

def isAttached (bridge : Bridge) : Bool :=
  bridge.core.connection.isSome || bridge.core.writer.isSome || bridge.core.generationId.isSome

def attachTransport (bridge : Bridge) : Bridge :=
  if bridge.disposed then bridge
  else if bridge.isAttached then
    (bridge.failGeneration ⟨.sessionLocked, js "Executor session replaced"⟩).openTransport
  else bridge.openTransport

/-- `onData` with a chunk of complete messages, up to the first that cannot be decoded. -/
def onData (options : Options) (bridge : Bridge) (transport : Nat) (oversized : Bool)
    (messages : List ExecutorToHost) (malformed : Bool) : Bridge :=
  if transport ≠ bridge.core.generation ∨ bridge.core.decoder = none then bridge
  else if oversized then
    bridge.failGeneration ⟨.invalidRequest, js "Executor inbound chunk exceeds maximum"⟩
  else
    let received := messages.foldl (receiveMessage options transport) bridge
    if malformed then received.failGeneration ⟨.invalidRequest, js "Invalid executor protocol frame"⟩
    else received

def onClose (bridge : Bridge) (transport : Nat) : Bridge :=
  if transport = bridge.core.generation then
    bridge.failGeneration ⟨.sessionLocked, js "Executor session disconnected"⟩
  else bridge

def onError (bridge : Bridge) (transport : Nat) (error : Failure) : Bridge :=
  if transport = bridge.core.generation then bridge.failGeneration error else bridge

/-- A timer that has not been cleared fires. -/
def onTimeout (bridge : Bridge) (timer : Timer) : Bridge :=
  if timer ∈ bridge.running then
    { bridge with running := bridge.running.erase timer }.failGeneration ⟨.invalidRequest, match timer.kind with
      | .hello => js "Executor hello timeout"
      | .bootstrap => js "Executor bootstrap timeout"⟩
  else bridge

/-- The connection of a transport has sent the frame in flight, or could not. -/
def onSettled (bridge : Bridge) (transport : Nat) (error : Option Failure) : Bridge :=
  match error with
  | none =>
    let (writer, items) := (bridge.writers transport).sent
    { bridge with writers := Function.update bridge.writers transport writer }.due transport items .sent
  | some error =>
    let (writer, items) := (bridge.writers transport).failed
    let failed := { bridge with writers := Function.update bridge.writers transport writer }
    (failed.due transport (items.take 1) (.failed error)).due transport (items.drop 1)
      (.failed ⟨.plain, js "Executor connection send failed"⟩)

def queueFull : Failure := ⟨.busy, js "Executor outbound queue is full"⟩

/-- What the callbacks of a frame do with its outcome. -/
def onOutcome (bridge : Bridge) (reaction : Reaction) : Bridge :=
  match reaction.purpose, reaction.outcome with
  | .ready, .sent => bridge
  | .ready, .full => bridge.failGeneration queueFull
  | .ready, .failed error => bridge.failGeneration error
  | .bootstrapAck, .sent =>
    if reaction.transport = bridge.core.generation then
      { bridge with core := { bridge.core with bootstrapped := true } }
    else bridge
  | .bootstrapAck, .full => bridge.failGeneration queueFull
  | .bootstrapAck, .failed error => bridge.failGeneration error
  | .reject error, _ => bridge.failGeneration error
  | .command _ _, .sent => bridge
  | .command id reserved, .full =>
    match bridge.core.pending.get? id with
    | none => bridge
    | some _ => (bridge.takePending id reserved).settle id (.error queueFull)
  | .command id _, .failed _ =>
    if id.generation = bridge.core.generation then
      bridge.failGeneration ⟨.sessionLocked, js "Executor session disconnected"⟩
    else bridge

/-- The callbacks of one due outcome run. -/
def onReaction (bridge : Bridge) (index : Nat) : Bridge :=
  match bridge.reactions[index]? with
  | none => bridge
  | some reaction => { bridge with reactions := bridge.reactions.eraseIdx index }.onOutcome reaction

/-! ### Commands -/

/-- The error a command is refused with before it is issued. -/
def commandError (options : Options) (bridge : Bridge) (reserved : Bool) : Option Failure :=
  if bridge.disposed || !bridge.core.bootstrapped || bridge.core.connection.isNone ||
      bridge.core.generationId.isNone || bridge.core.bootstrap.isNone then
    some ⟨.sessionLocked, js "Executor runtime is no longer available"⟩
  else if reserved && bridge.core.abortPending then
    some ⟨.busy, js "Executor abort is already pending"⟩
  else if !reserved && options.maxPendingCommands ≤ bridge.core.ordinaryPending then
    some ⟨.busy, js "Executor command limit reached"⟩
  else none

def addPending (bridge : Bridge) (id : CommandId) (reserved : Bool) : Bridge :=
  { bridge with
    core := { bridge.core with
      pending := bridge.core.pending.set id reserved
      abortPending := if reserved then true else bridge.core.abortPending
      ordinaryPending :=
        if reserved then bridge.core.ordinaryPending else bridge.core.ordinaryPending + 1 }
    nextCommand := bridge.nextCommand + 1
    issued := bridge.issued.set id reserved }

/-- The frame of the command is sent, or it has its outcome at once. -/
def issueCommand (options : Options) (bridge : Bridge) (writer : Nat) (generationId : JsStr)
    (command : RuntimeCommand) : Bridge :=
  let id : CommandId := ⟨bridge.core.generation, bridge.nextCommand⟩
  match Encoding.frameLength (.runtimeCommand (identity options generationId) id command) with
  | none => { bridge with nextCommand := bridge.nextCommand + 1 }
  | some length =>
    sendOn options (bridge.addPending id command.isAbort) writer ⟨.command id command.isAbort, length⟩

def command (options : Options) (bridge : Bridge) (command : RuntimeCommand) : Bridge :=
  match bridge.commandError options command.isAbort, bridge.core.writer, bridge.core.generationId with
  | none, some writer, some generationId => bridge.issueCommand options writer generationId command
  | _, _, _ => bridge

def dispose (bridge : Bridge) : Bridge :=
  if bridge.disposed then bridge
  else { bridge with disposed := true }.failGeneration ⟨.sessionLocked, js "Executor session disposed"⟩

end Bridge

/-! ### Runs -/

inductive Event where
  | attachTransport
  | data (transport : Nat) (oversized : Bool) (messages : List ExecutorToHost) (malformed : Bool)
  | close (transport : Nat)
  | error (transport : Nat) (error : Failure)
  | timeout (timer : Timer)
  | settled (transport : Nat) (error : Option Failure)
  | reaction (index : Nat)
  | command (command : RuntimeCommand)
  | dispose

variable [Encoding] [JsonText.NumberText]

def step (options : Options) (bridge : Bridge) : Event → Bridge
  | .attachTransport => bridge.attachTransport
  | .data transport oversized messages malformed =>
    bridge.onData options transport oversized messages malformed
  | .close transport => bridge.onClose transport
  | .error transport error => bridge.onError transport error
  | .timeout timer => bridge.onTimeout timer
  | .settled transport error => bridge.onSettled transport error
  | .reaction index => bridge.onReaction index
  | .command command => bridge.command options command
  | .dispose => bridge.dispose

def run (options : Options) (events : List Event) : Bridge := events.foldl (step options) .initial

/-- The states a bridge can come to. -/
def Reachable (options : Options) (bridge : Bridge) : Prop := ∃ events, bridge = run options events

end PiRp.Executor
