import PiRp.JsonText
import PiRp.McpSse

/-! The event streams of `StreamableHttpTransport`: the answer to a request, which is resumed with the id of the last
event when it breaks, and the stream from the server, which is kept open. Both read with the same cursor; the waits
between two attempts are no part of the model. -/

namespace PiRp.Mcp.Streams

open Sse

/-! ### Messages -/

def memberOf (value : Json) (key : JsStr) : Option Json :=
  match value with
  | .object props => Props.get? props key
  | _ => none

def isJsonRpcId : Option Json → Bool
  | some (.string _) => true
  | some (.number value) => value.isFinite
  | _ => false

def isText : Option Json → Bool
  | some (.string _) => true
  | _ => false

def isNumber : Option Json → Bool
  | some (.number _) => true
  | _ => false

def hasVersion (message : Json) : Bool := memberOf message (js "jsonrpc") = some (.string (js "2.0"))

def isJsonRpcRequest (message : Json) : Bool :=
  hasVersion message && isJsonRpcId (memberOf message (js "id")) && isText (memberOf message (js "method"))

def isJsonRpcNotification (message : Json) : Bool :=
  hasVersion message && (memberOf message (js "id")).isNone && isText (memberOf message (js "method"))

def isJsonRpcResponse (message : Json) : Bool :=
  hasVersion message && isJsonRpcId (memberOf message (js "id")) &&
    match memberOf message (js "result"), memberOf message (js "error") with
    | some _, error => error.isNone
    | none, some (.object props) =>
      isNumber (Props.get? props (js "code")) && isText (Props.get? props (js "message"))
    | none, _ => false

/-- `parseJsonRpcMessage(JSON.parse(data))`; none when it throws. -/
def parseJsonRpcMessage [JsonText.NumberText] (data : JsStr) : Option Json :=
  (JsonText.parse data).filter fun value =>
    isJsonRpcRequest value || isJsonRpcNotification value || isJsonRpcResponse value

/-- The message of an event: events without data and of other types have none. -/
def messageOf [JsonText.NumberText] (event : SseEvent) : Option Json :=
  if JsStr.trim event.data = [] ∨ (event.event ≠ none ∧ event.event ≠ some (js "message")) then none
  else parseJsonRpcMessage event.data

/-- The message is the response to the request. -/
def answers (requestId : Option Json) (message : Json) : Bool :=
  isJsonRpcResponse message && requestId.isSome && (memberOf message (js "id")).map Json.norm = requestId.map Json.norm

/-! ### One stream -/

structure StreamCursor where
  lastEventId : Option JsStr
  retryMs : Option Nat
  received : Bool

/-- The cursor, the messages that were emitted, and whether the response was among them. -/
structure Sink where
  cursor : StreamCursor
  emitted : List Json
  answered : Bool

def Sink.empty : Sink := ⟨⟨none, none, false⟩, [], false⟩

variable [JsonText.NumberText]

/-- The callbacks of `consumeSse`. -/
def Sink.call (requestId : Option Json) (sink : Sink) : Call → Sink
  | .onId id => { sink with cursor := { sink.cursor with lastEventId := some id } }
  | .onRetry delayMs => { sink with cursor := { sink.cursor with retryMs := some delayMs } }
  | .onEvent event =>
    let received := { sink with cursor := { sink.cursor with received := true } }
    match messageOf event with
    | none => received
    | some message =>
      { received with
        emitted := sink.emitted ++ [message]
        answered := sink.answered || answers requestId message }

structure Options where
  maxMessageBytes : Nat
  maxRetries : Nat

def consumeSse (options : Options) (requestId : Option Json) (sink : Sink) (stream : Stream) : Sink × Outcome :=
  consumeSseStream (Sink.call requestId) options.maxMessageBytes sink stream

/-! ### The loops -/

/-- What opening a stream gives. An error is retried or not; `notOffered` is the status 405. `closed` stands for a
transport that was closed meanwhile. -/
inductive Opening where
  | stream (stream : Stream) (stayedUp : Bool)
  | refused (retryable : Bool)
  | notOffered
  | closed

/-- Where a loop stands. It is open while it waits for the next stream; the other states are its ends: the response
has come, the transport was closed or the server offers no stream, no retries remain, no id was received, or an
error is not retried. -/
inductive Status where
  | open
  | answered
  | closed
  | exhausted
  | noId
  | failed
  deriving DecidableEq

structure Loop where
  sink : Sink
  attempt : Nat
  status : Status

/-- The checks of `consumeResponseStream` after a stream, and the step to the next attempt. -/
def checkResponse (options : Options) (loop : Loop) (outcome : Outcome) : Loop :=
  if loop.sink.answered then { loop with status := .answered }
  else if outcome = .exceeded then { loop with status := .failed }
  else if loop.sink.cursor.lastEventId = none then { loop with status := .noId }
  else if loop.attempt ≥ options.maxRetries then { loop with status := .exhausted }
  else
    { loop with
      sink := { loop.sink with cursor := { loop.sink.cursor with received := false } }
      attempt := (if loop.sink.cursor.received then 0 else loop.attempt) + 1 }

/-- One turn of `consumeResponseStream`. -/
def responseTurn (options : Options) (requestId : Json) (loop : Loop) (opening : Opening) : Loop :=
  if loop.status ≠ .open then loop
  else
    match opening with
    | .stream stream _ =>
      let (sink, outcome) := consumeSse options (some requestId) loop.sink stream
      checkResponse options { loop with sink } outcome
    | .refused true | .notOffered => checkResponse options loop .ended
    | .refused false => { loop with status := .failed }
    | .closed => { loop with status := .closed }

/-- The step of `runGetStream` to the next attempt. -/
def reopenGet (options : Options) (loop : Loop) : Loop :=
  let sink := { loop.sink with cursor := { loop.sink.cursor with received := false } }
  if loop.attempt ≥ options.maxRetries then { loop with sink, status := .exhausted }
  else { loop with sink, attempt := loop.attempt + 1 }

/-- One turn of `runGetStream`. -/
def getTurn (options : Options) (loop : Loop) (opening : Opening) : Loop :=
  if loop.status ≠ .open then loop
  else
    match opening with
    | .stream stream stayedUp =>
      let (sink, outcome) := consumeSse options none loop.sink stream
      match outcome with
      | .exceeded => { loop with sink, status := .failed }
      | .dropped => reopenGet options { loop with sink }
      | .ended =>
        reopenGet options
          { loop with sink, attempt := if sink.cursor.received || stayedUp then 0 else loop.attempt }
    | .refused true => reopenGet options loop
    | .refused false => { loop with status := .failed }
    | .notOffered | .closed => { loop with status := .closed }

def startLoop : Loop := ⟨.empty, 0, .open⟩

/-- A run: the server answers each attempt to open a stream, which carries the id of the cursor. -/
def runLoop {α : Type*} (turn : Loop → Opening → Loop) (serve : Option JsStr → α → Opening) (loop : Loop)
    (attempts : List α) : Loop :=
  attempts.foldl (fun loop attempt => turn loop (serve loop.sink.cursor.lastEventId attempt)) loop

end PiRp.Mcp.Streams
