import PiRp.JsBytes

/-! The length-prefixed framing of `packages/protocol/src/framing.ts`. A frame is a four-byte
big-endian length followed by that many payload bytes. The decoder is fed arbitrary chunks and keeps
a partial header, or the declared length together with the payload blocks filled so far, between
calls. Byte arrays are lists of `UInt8`; `currentPayloadBlock` is always the block pushed last, so it
is read off `payloadBlocks`. -/

namespace PiRp.Framing

def frameHeaderLength : Nat := 4

def maxUint32 : Nat := 0xffffffff

def payloadBlockSize : Nat := 64 * 1024

/-- Default upper bound for one framed CBOR payload. -/
def defaultMaxFrameLength : Nat := 16 * 1024 * 1024

/-- What the framing functions throw. -/
inductive FrameFault where
  | frameLengthExceeds (frameLength maxFrameLength : Nat)
  | truncated
  | ended
  | failed
  | invalidMaxFrameLength
  | payloadTooLong

/-- The configured limit, an unsigned 32-bit number. -/
def resolveMaxFrameLength (option : Option Int) : Except FrameFault Nat :=
  let value := option.getD defaultMaxFrameLength
  if value < 0 ∨ (maxUint32 : Int) < value then .error .invalidMaxFrameLength
  else .ok value.toNat

/-- The number a complete header declares. -/
def headerValue : Bytes → Nat
  | [first, second, third, fourth] =>
    first.toNat * 0x1000000 + second.toNat * 0x10000 + third.toNat * 0x100 + fourth.toNat
  | _ => 0

/-- The four header bytes of a length; a typed-array store keeps the low eight bits. -/
def headerBytes (length : Nat) : Bytes :=
  [UInt8.ofNat (length >>> 24), UInt8.ofNat (length >>> 16), UInt8.ofNat (length >>> 8), UInt8.ofNat length]

/-- Prefixes a payload with its unsigned 32-bit big-endian byte length. -/
def encodeFrame (payload : Bytes) : Except FrameFault Bytes :=
  if maxUint32 < payload.length then .error .payloadTooLong
  else .ok (headerBytes payload.length ++ payload)

inductive DecoderState where
  | «open»
  | ended
  | failed

structure FrameDecoder where
  header : Bytes
  headerLength : Nat
  maxFrameLength : Nat
  payloadBlocks : List Bytes
  currentPayloadBlockLength : Nat
  expectedPayloadLength : Option Nat
  payloadLength : Nat
  state : DecoderState

namespace FrameDecoder

def create (option : Option Int) : Except FrameFault FrameDecoder := do
  let maxFrameLength ← resolveMaxFrameLength option
  return {
    header := List.replicate frameHeaderLength 0
    headerLength := 0
    maxFrameLength
    payloadBlocks := []
    currentPayloadBlockLength := 0
    expectedPayloadLength := none
    payloadLength := 0
    state := .open }

/-- `fail`: every pending byte is dropped and the decoder stays failed. -/
def fail (decoder : FrameDecoder) : FrameDecoder :=
  { decoder with
    state := .failed
    headerLength := 0
    payloadBlocks := []
    currentPayloadBlockLength := 0
    expectedPayloadLength := none
    payloadLength := 0 }

/-- The reset of the payload fields, both when a payload starts and when it is complete. -/
def resetPayload (decoder : FrameDecoder) (expected : Option Nat) : FrameDecoder :=
  { decoder with
    payloadBlocks := []
    currentPayloadBlockLength := 0
    expectedPayloadLength := expected
    payloadLength := 0 }

/-- A new block is allocated when there is none or the last one is full. -/
def ensureBlock (decoder : FrameDecoder) (expected : Nat) : FrameDecoder :=
  let allocate : FrameDecoder :=
    { decoder with
      payloadBlocks := decoder.payloadBlocks ++
        [List.replicate (min payloadBlockSize (expected - decoder.payloadLength)) 0]
      currentPayloadBlockLength := 0 }
  match decoder.payloadBlocks.getLast? with
  | none => allocate
  | some block => if decoder.currentPayloadBlockLength = block.length then allocate else decoder

/-- One round of the inner loop: copy what fits of the chunk into the current block. -/
def fillBlock (decoder : FrameDecoder) (expected : Nat) (chunk : Bytes) : FrameDecoder × Bytes :=
  let decoder := decoder.ensureBlock expected
  let block := decoder.payloadBlocks.getLastD []
  let payloadBytes := min (block.length - decoder.currentPayloadBlockLength) chunk.length
  ({ decoder with
      payloadBlocks := decoder.payloadBlocks.dropLast ++
        [setBytes block (chunk.take payloadBytes) decoder.currentPayloadBlockLength]
      currentPayloadBlockLength := decoder.currentPayloadBlockLength + payloadBytes
      payloadLength := decoder.payloadLength + payloadBytes },
    chunk.drop payloadBytes)

/-- The inner loop; `rounds` bounds its rounds by the bytes left in the chunk, of which every round
takes at least one. -/
def fillPayload : Nat → FrameDecoder → Nat → Bytes → FrameDecoder × Bytes
  | 0, decoder, _, chunk => (decoder, chunk)
  | rounds + 1, decoder, expected, chunk =>
    if chunk ≠ [] ∧ decoder.payloadLength < expected then
      let filled := decoder.fillBlock expected chunk
      fillPayload rounds filled.1 expected filled.2
    else (decoder, chunk)

/-- The completed payload: the only block, or all blocks copied into one array. -/
def assemblePayload (decoder : FrameDecoder) (expected : Nat) : Bytes :=
  match decoder.payloadBlocks with
  | [block] => block
  | blocks =>
    (blocks.foldl (fun (copied : Bytes × Nat) block =>
      (setBytes copied.1 block copied.2, copied.2 + block.length))
      (List.replicate expected 0, 0)).1

/-- What one round of the outer loop did: the decoder it leaves, the frames it delivered, the bytes
of the chunk it left, and what it threw. -/
structure Round where
  decoder : FrameDecoder
  delivered : List Bytes
  rest : Bytes
  thrown : Option FrameFault

/-- The part of a round that works on a known payload length. -/
def pushPayload (decoder : FrameDecoder) (expected : Nat) (chunk : Bytes) : Round :=
  let filled := fillPayload chunk.length decoder expected chunk
  if filled.1.payloadLength = expected then
    ⟨filled.1.resetPayload none, [filled.1.assemblePayload expected], filled.2, none⟩
  else ⟨filled.1, [], filled.2, none⟩

/-- The part of a round that collects header bytes. -/
def pushHeader (decoder : FrameDecoder) (chunk : Bytes) : FrameDecoder × Bytes :=
  let headerBytes := min (frameHeaderLength - decoder.headerLength) chunk.length
  ({ decoder with
      header := setBytes decoder.header (chunk.take headerBytes) decoder.headerLength
      headerLength := decoder.headerLength + headerBytes },
    chunk.drop headerBytes)

/-- The part of a round after the header is complete. -/
def startFrame (decoder : FrameDecoder) (chunk : Bytes) : Round :=
  let frameLength := headerValue decoder.header
  let ready := { decoder with headerLength := 0 }
  if ready.maxFrameLength < frameLength then
    ⟨ready.fail, [], chunk, some (.frameLengthExceeds frameLength ready.maxFrameLength)⟩
  else if frameLength = 0 then ⟨ready, [[]], chunk, none⟩
  else (ready.resetPayload (some frameLength)).pushPayload frameLength chunk

/-- One round of the outer loop. -/
def pushRound (decoder : FrameDecoder) (chunk : Bytes) : Round :=
  match decoder.expectedPayloadLength with
  | some expected => decoder.pushPayload expected chunk
  | none =>
    let collected := decoder.pushHeader chunk
    if collected.1.headerLength < frameHeaderLength then ⟨collected.1, [], collected.2, none⟩
    else collected.1.startFrame collected.2

/-- What a call did: the decoder it leaves, the frames it delivered, and what it threw. -/
structure PushResult where
  decoder : FrameDecoder
  delivered : List Bytes
  thrown : Option FrameFault

/-- The outer loop over the bytes left of a chunk; `rounds` bounds its rounds by their number, of
which every round takes at least one. -/
def pushLoop : Nat → FrameDecoder → Bytes → PushResult
  | 0, decoder, _ => ⟨decoder, [], none⟩
  | rounds + 1, decoder, chunk =>
    if chunk = [] then ⟨decoder, [], none⟩
    else
      let round := decoder.pushRound chunk
      match round.thrown with
      | some fault => ⟨round.decoder, round.delivered, some fault⟩
      | none =>
        let later := pushLoop rounds round.decoder round.rest
        { later with delivered := round.delivered ++ later.delivered }

/-- `pushEach` with a callback that records the frame and returns. -/
def pushEach (decoder : FrameDecoder) (chunk : Bytes) : PushResult :=
  match decoder.state with
  | .ended => ⟨decoder, [], some .ended⟩
  | .failed => ⟨decoder, [], some .failed⟩
  | .open => pushLoop chunk.length decoder chunk

/-- `end()`: the decoder it leaves, and what it threw. -/
def finish (decoder : FrameDecoder) : FrameDecoder × Option FrameFault :=
  match decoder.state with
  | .ended => (decoder, some .ended)
  | .failed => (decoder, some .failed)
  | .open =>
    if decoder.headerLength ≠ 0 ∨ decoder.expectedPayloadLength ≠ none then
      (decoder.fail, some .truncated)
    else ({ decoder with state := .ended }, none)

/-- Feeds the chunks one call after the other and collects every delivered frame. -/
def pushChunks (decoder : FrameDecoder) : List Bytes → FrameDecoder × List Bytes
  | [] => (decoder, [])
  | chunk :: chunks =>
    let pushed := decoder.pushEach chunk
    let rest := pushChunks pushed.decoder chunks
    (rest.1, pushed.delivered ++ rest.2)

/-- The bytes the decoder holds on to: a partial header, or a complete header and the payload bytes
copied so far. -/
def pending (decoder : FrameDecoder) : Bytes :=
  match decoder.expectedPayloadLength with
  | none => decoder.header.take decoder.headerLength
  | some _ => decoder.header ++ decoder.payloadBlocks.flatten.take decoder.payloadLength

/-- What a caller can tell about the decoder between calls: its state, the bytes it holds on to, and
whether `end()` would be accepted. -/
def outcome (decoder : FrameDecoder) : DecoderState × Bytes × Option FrameFault :=
  (decoder.state, decoder.pending, decoder.finish.2)

end FrameDecoder

end PiRp.Framing
