import PiRp.JsObject
import PiRp.JsSplit
import PiRp.Utf8Decoding

/-! The reader of server-sent events in `packages/mcp/src/transports/streamable-http.ts`. It decodes the chunks of a
stream, takes the text line by line, and calls back for every id when its line is read and for every event at its
blank line, or at the end of the stream. -/

namespace PiRp.Mcp.Sse

structure SseEvent where
  event : Option JsStr
  data : JsStr
  id : Option JsStr

/-- What the reader calls back; the delay of `retry` is the number of its digits. -/
inductive Call where
  | onEvent (event : SseEvent)
  | onId (id : JsStr)
  | onRetry (delayMs : Nat)

/-! ### Lines -/

/-- What a line says. -/
inductive Field where
  | blank
  | data (value : JsStr)
  | event (value : JsStr)
  | id (value : JsStr)
  | retry (delayMs : Nat)
  | ignored
  deriving DecidableEq

def newline : UInt16 := 0x0a

def colon : UInt16 := 0x3a

def isDigit (unit : UInt16) : Bool := 0x30 ≤ unit.toNat && unit.toNat ≤ 0x39

/-- The field of a line: its name up to the first colon, and the value behind it without one leading blank. -/
def fieldOf (rawLine : JsStr) : Field :=
  let line := if rawLine.getLast? = some 0x0d then rawLine.dropLast else rawLine
  if line = [] then .blank
  else if line.head? = some colon then .ignored
  else
    let field := line.takeWhile (· ≠ colon)
    let behind := (line.dropWhile (· ≠ colon)).drop 1
    let value := if behind.head? = some 0x20 then behind.drop 1 else behind
    if field = js "data" then .data value
    else if field = js "event" then .event value
    else if field = js "id" ∧ 0 ∉ value then .id value
    else if field = js "retry" ∧ value ≠ [] ∧ value.all isDigit = true then .retry (decimalValue value)
    else .ignored

/-- The event that is being received. -/
structure PendingEvent where
  eventName : Option JsStr
  eventId : Option JsStr
  dataLines : List JsStr
  dataBytes : Nat

def PendingEvent.empty : PendingEvent := ⟨none, none, [], 0⟩

/-- `Buffer.byteLength(text)`. -/
def byteLength (text : JsStr) : Nat := (textEncode text).length

/-- An event without data is forgotten. -/
def dispatch (pending : PendingEvent) : PendingEvent × List Call :=
  if pending.dataLines = [] then ({ pending with eventName := none, eventId := none }, [])
  else
    (.empty, [.onEvent {
      event := pending.eventName.filter (· ≠ [])
      data := JsStr.join [newline] pending.dataLines
      id := pending.eventId.filter (· ≠ []) }])

/-- One line; none when the data of the event exceeds the limit. -/
def processLine (maxEventBytes : Nat) (pending : PendingEvent) (rawLine : JsStr) :
    Option (PendingEvent × List Call) :=
  match fieldOf rawLine with
  | .blank => some (dispatch pending)
  | .data value =>
    let dataBytes := pending.dataBytes + byteLength value + if pending.dataLines = [] then 0 else 1
    if dataBytes > maxEventBytes then none
    else some ({ pending with dataLines := pending.dataLines ++ [value], dataBytes }, [])
  | .event value => some ({ pending with eventName := some value }, [])
  | .id value => some ({ pending with eventId := some value }, [.onId value])
  | .retry delayMs => some (pending, [.onRetry delayMs])
  | .ignored => some (pending, [])

/-! ### The stream -/

/-- A `TextDecoder` with its stream option: the unfinished character, and whether a first unit was seen, as a byte
order mark there is no text. -/
structure Decoder where
  bomSeen : Bool
  unfinished : Option Utf8.Pending

def Decoder.mark (decoder : Decoder) (text : JsStr) : JsStr :=
  if decoder.bomSeen = false ∧ text.head? = some 0xfeff then text.drop 1 else text

def Decoder.decode (decoder : Decoder) (bytes : List UInt8) : JsStr × Decoder :=
  let decoded := Utf8.decodeFrom decoder.unfinished bytes
  (decoder.mark decoded.1, ⟨decoder.bomSeen || !decoded.1.isEmpty, decoded.2⟩)

/-- How a stream ends. -/
inductive Ending where
  | clean
  | dropped
  deriving DecidableEq

structure Stream where
  chunks : List (List UInt8)
  ending : Ending

/-- How reading a stream ends: with it, with its error, or with the error of the limit. -/
inductive Outcome where
  | ended
  | dropped
  | exceeded
  deriving DecidableEq

/-- The reader between two chunks; the sink is the state of what it calls back. -/
structure Reader (σ : Type*) where
  decoder : Decoder
  buffered : JsStr
  pending : PendingEvent
  sink : σ

section Reading

variable {σ : Type*} (call : σ → Call → σ) (maxEventBytes : Nat)

/-- The lines one after the other; an error is the limit, with what was called back before. -/
def processLines (pending : PendingEvent) (sink : σ) : List JsStr → Except σ (PendingEvent × σ)
  | [] => .ok (pending, sink)
  | line :: rest =>
    match processLine maxEventBytes pending line with
    | none => .error sink
    | some (pending, calls) => processLines pending (calls.foldl call sink) rest

/-- One chunk: the lines that it completes are processed, and the rest is kept. -/
def feed (reader : Reader σ) (chunk : List UInt8) : Except σ (Reader σ) :=
  let (text, decoder) := reader.decoder.decode chunk
  let pieces := (reader.buffered ++ text).splitOn newline
  match processLines call maxEventBytes reader.pending reader.sink pieces.dropLast with
  | .error sink => .error sink
  | .ok (pending, sink) =>
    let buffered := pieces.getLast?.getD []
    if byteLength buffered > maxEventBytes then .error sink else .ok ⟨decoder, buffered, pending, sink⟩

/-- The end of a stream: the text that is left is a line, and what is pending is an event. -/
def finish (reader : Reader σ) : Except σ σ :=
  let buffered := reader.buffered ++ reader.decoder.mark (Utf8.flush reader.decoder.unfinished)
  match processLines call maxEventBytes reader.pending reader.sink (if buffered = [] then [] else [buffered]) with
  | .error sink => .error sink
  | .ok (pending, sink) => .ok ((dispatch pending).2.foldl call sink)

def startReader (sink : σ) : Reader σ := ⟨⟨false, none⟩, [], .empty, sink⟩

def feedAll (reader : Reader σ) : List (List UInt8) → Except σ (Reader σ)
  | [] => .ok reader
  | chunk :: rest =>
    match feed call maxEventBytes reader chunk with
    | .error sink => .error sink
    | .ok reader => feedAll reader rest

def consumeSseStream (sink : σ) (stream : Stream) : σ × Outcome :=
  match feedAll call maxEventBytes (startReader sink) stream.chunks with
  | .error sink => (sink, .exceeded)
  | .ok reader =>
    match stream.ending with
    | .dropped => (reader.sink, .dropped)
    | .clean =>
      match finish call maxEventBytes reader with
      | .error sink => (sink, .exceeded)
      | .ok sink => (sink, .ended)

end Reading

end PiRp.Mcp.Sse
