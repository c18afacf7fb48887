import PiRp.JsBytes
import PiRp.JsNumber
import PiRp.JsObject

/-! The CBOR subset of `packages/protocol/src/cbor`. The encoder writes into a growing buffer, the
decoder reads the payload at an offset. Values are trees, so the encoder's search for cycles never
finds one and its set of ancestors is left out; so are enumerable symbol keys. An access outside a
buffer is a fault of its own, apart from the errors the code throws. -/

namespace PiRp.Cbor

def uint32Base : Nat := 0x100000000

def maxUint32 : Nat := 0xffffffff

def maxConfiguredDepth : Nat := 512

def defaultMaxCborByteLength : Nat := 16 * 1024 * 1024

def defaultMaxCborContainerLength : Nat := 1000000

def defaultMaxCborDepth : Nat := 64

structure CborOptions where
  maxByteLength : Option JsNumber := none
  maxContainerLength : Option JsNumber := none
  maxDepth : Option JsNumber := none

structure ResolvedCborOptions where
  maxByteLength : Nat
  maxContainerLength : Nat
  maxDepth : Nat
  maxByteLength_le : maxByteLength ≤ maxUint32
  maxContainerLength_le : maxContainerLength ≤ maxUint32
  maxDepth_le : maxDepth ≤ maxConfiguredDepth

/-- The items with a declared length, as the error messages name them. -/
inductive LengthKind where
  | byteString
  | textString
  | array
  | map

/-- The errors of class `CborError`. -/
inductive CborError where
  | byteLengthExceeds (limit : Nat)
  | lengthExceeds (kind : LengthKind) (limit : Nat)
  | depthExceeds (limit : Nat)
  | notScalarText
  | notFinite
  | unsafeInteger
  | arrayHole
  | unsupportedType (typeName : String)
  | trailingData
  | decodedUnsafeInteger
  | decodedUnsafeArgument
  | decodedNotFinite
  | invalidUtf8
  | keyNotString
  | duplicateKey
  | tag
  | majorType
  | breakMarker
  | unsupportedSimple
  | indefiniteLength (kind : LengthKind)
  | indefiniteItem
  | additionalInformation
  | truncated

/-- What an encoder or decoder call can end with instead of a result. -/
inductive Fault where
  | cborError (error : CborError)
  /-- The `RangeError` of an option out of range. -/
  | rangeError (name : String) (maximum : Nat)
  /-- An access outside a buffer. -/
  | outOfBounds

def throwCbor {α : Type} (error : CborError) : Except Fault α := .error (.cborError error)

def resolveLimit (name : String) (value : JsNumber) (maximum : Nat) :
    Except Fault { limit : Nat // limit ≤ maximum } :=
  match value with
  | .int value =>
    if hrange : (JsNumber.int value).isSafeInteger = true ∧ 0 ≤ value ∧ value ≤ maximum then
      .ok ⟨value.toNat, Int.toNat_le.mpr hrange.2.2⟩
    else .error (.rangeError name maximum)
  | .negZero => .ok ⟨0, Nat.zero_le _⟩
  | _ => .error (.rangeError name maximum)

def resolveOptions (options : CborOptions) : Except Fault ResolvedCborOptions := do
  let maxByteLength ← resolveLimit "maxByteLength"
    (options.maxByteLength.getD (.int defaultMaxCborByteLength)) maxUint32
  let maxContainerLength ← resolveLimit "maxContainerLength"
    (options.maxContainerLength.getD (.int defaultMaxCborContainerLength)) maxUint32
  let maxDepth ← resolveLimit "maxDepth"
    (options.maxDepth.getD (.int defaultMaxCborDepth)) maxConfiguredDepth
  return {
    maxByteLength := maxByteLength.1
    maxContainerLength := maxContainerLength.1
    maxDepth := maxDepth.1
    maxByteLength_le := maxByteLength.2
    maxContainerLength_le := maxContainerLength.2
    maxDepth_le := maxDepth.2 }

/-- A JavaScript value: what the encoder distinguishes. A hole of an array is `undefined`, a value
of any other type is kept with its `typeof`. -/
inductive Value where
  | undefined
  | null
  | bool (value : Bool)
  | number (value : JsNumber)
  | text (value : JsStr)
  | bytes (value : Bytes)
  | array (items : List Value)
  | object (props : List (JsStr × Value))
  | other (typeName : String)

def Value.isUndefined : Value → Bool
  | .undefined => true
  | _ => false

/-! ### Encoder -/

/-- `CborWriter`: the bytes before `offset` are written. -/
structure CborWriter where
  buffer : Bytes
  offset : Nat
  maxByteLength : Nat
  offset_le : offset ≤ buffer.length

namespace CborWriter

def create (maxByteLength : Nat) : CborWriter where
  buffer := List.replicate (min 256 maxByteLength) 0
  offset := 0
  maxByteLength := maxByteLength
  offset_le := Nat.zero_le _

def finish (writer : CborWriter) : Bytes := writer.buffer.take writer.offset

/-- The loop that grows the capacity; a round reaches the required capacity, so `rounds` only makes
the recursion structural. -/
def growCapacity : Nat → Nat → Nat → Nat → Nat
  | 0, _, _, capacity => capacity
  | rounds + 1, maxByteLength, required, capacity =>
    if capacity < required then
      growCapacity rounds maxByteLength required
        (min maxByteLength (max required (capacity * 2)))
    else capacity

/-- The buffer copied into a larger one. -/
def expand (writer : CborWriter) (capacity : Nat) : CborWriter where
  buffer := writer.buffer ++ List.replicate (capacity - writer.buffer.length) 0
  offset := writer.offset
  maxByteLength := writer.maxByteLength
  offset_le := by
    rw [List.length_append]
    exact writer.offset_le.trans (Nat.le_add_right _ _)

def ensureCapacity (writer : CborWriter) (additionalBytes : Nat) : Except Fault CborWriter :=
  let required := writer.offset + additionalBytes
  if writer.maxByteLength < required then throwCbor (.byteLengthExceeds writer.maxByteLength)
  else if required ≤ writer.buffer.length then .ok writer
  else .ok (writer.expand
    (growCapacity required writer.maxByteLength required (max 1 writer.buffer.length)))

/-- Stores bytes at the offset and advances it. -/
def store (writer : CborWriter) (bytes : Bytes) : Except Fault CborWriter :=
  if hfits : writer.offset + bytes.length ≤ writer.buffer.length then
    .ok {
      buffer := setBytes writer.buffer bytes writer.offset
      offset := writer.offset + bytes.length
      maxByteLength := writer.maxByteLength
      offset_le := by rw [setBytes_length hfits]; exact hfits }
  else .error .outOfBounds

def writeByte (value : Nat) (writer : CborWriter) : Except Fault CborWriter := do
  let writer ← writer.ensureCapacity 1
  writer.store [UInt8.ofNat value]

def writeBytes (bytes : Bytes) (writer : CborWriter) : Except Fault CborWriter := do
  let writer ← writer.ensureCapacity bytes.length
  writer.store bytes

def writeUint16 (value : Nat) (writer : CborWriter) : Except Fault CborWriter := do
  let writer ← writer.ensureCapacity 2
  writer.store [UInt8.ofNat (value >>> 8), UInt8.ofNat value]

def writeUint32 (value : Nat) (writer : CborWriter) : Except Fault CborWriter := do
  let writer ← writer.ensureCapacity 4
  writer.store [UInt8.ofNat (value >>> 24), UInt8.ofNat (value >>> 16), UInt8.ofNat (value >>> 8), UInt8.ofNat value]

def writeUint64 (value : Nat) (writer : CborWriter) : Except Fault CborWriter := do
  let high := value / uint32Base
  let low := value - high * uint32Base
  let writer ← writer.writeUint32 high
  writer.writeUint32 low

/-- `writeFloat64` of the number with the given bit pattern. -/
def writeFloat64 (bits : Nat) (writer : CborWriter) : Except Fault CborWriter := do
  let writer ← writer.ensureCapacity 9
  writer.store (0xfb :: beBytes 8 bits)

end CborWriter

open CborWriter

def writeArgument (majorType value : Nat) (writer : CborWriter) : Except Fault CborWriter :=
  let initial := majorType <<< 5
  if value < 24 then writer.writeByte (initial ||| value)
  else if value ≤ 0xff then do
    let writer ← writer.writeByte (initial ||| 24)
    writer.writeByte value
  else if value ≤ 0xffff then do
    let writer ← writer.writeByte (initial ||| 25)
    writer.writeUint16 value
  else if value ≤ maxUint32 then do
    let writer ← writer.writeByte (initial ||| 26)
    writer.writeUint32 value
  else do
    let writer ← writer.writeByte (initial ||| 27)
    writer.writeUint64 value

def encodeText (options : ResolvedCborOptions) (value : JsStr) (writer : CborWriter) :
    Except Fault CborWriter := do
  let bytes := textEncode value
  if options.maxByteLength < bytes.length then
    throwCbor (.lengthExceeds .textString options.maxByteLength)
  else if textDecode bytes ≠ some value then throwCbor .notScalarText
  else do
    let writer ← writeArgument 3 bytes.length writer
    writer.writeBytes bytes

def encodeNumber (value : JsNumber) (writer : CborWriter) : Except Fault CborWriter :=
  match value with
  | .infinite _ | .nan => throwCbor .notFinite
  | .int value =>
    if (JsNumber.int value).isSafeInteger = false then throwCbor .unsafeInteger
    else if 0 ≤ value then writeArgument 0 value.toNat writer
    else writeArgument 1 (-1 - value).toNat writer
  | .negZero => writer.writeFloat64 JsNumber.negZeroBits
  | .fraction bits => writer.writeFloat64 bits.1

/-- The properties of an object that the encoder keeps. -/
def definedEntries (props : List (JsStr × Value)) : List (JsStr × Value) :=
  props.filter fun entry => !entry.2.isUndefined

mutual

def encodeValue (options : ResolvedCborOptions) (depth : Nat) (value : Value)
    (writer : CborWriter) : Except Fault CborWriter :=
  if options.maxDepth < depth then throwCbor (.depthExceeds options.maxDepth)
  else
    match value with
    | .null => writer.writeByte 0xf6
    | .bool value => writer.writeByte (if value then 0xf5 else 0xf4)
    | .number value => encodeNumber value writer
    | .text value => encodeText options value writer
    | .bytes value =>
      if options.maxByteLength < value.length then
        throwCbor (.lengthExceeds .byteString options.maxByteLength)
      else do
        let writer ← writeArgument 2 value.length writer
        writer.writeBytes value
    | .array items =>
      if options.maxContainerLength < items.length then
        throwCbor (.lengthExceeds .array options.maxContainerLength)
      else do
        let writer ← writeArgument 4 items.length writer
        encodeItems options depth items writer
    | .object props =>
      if options.maxContainerLength < (definedEntries props).length then
        throwCbor (.lengthExceeds .map options.maxContainerLength)
      else do
        let writer ← writeArgument 5 (definedEntries props).length writer
        encodeEntries options depth props writer
    | .undefined => throwCbor (.unsupportedType "undefined")
    | .other typeName => throwCbor (.unsupportedType typeName)

/-- The loop over the items of an array. -/
def encodeItems (options : ResolvedCborOptions) (depth : Nat) (items : List Value)
    (writer : CborWriter) : Except Fault CborWriter :=
  match items with
  | [] => .ok writer
  | item :: items =>
    if item.isUndefined then throwCbor .arrayHole
    else do
      let writer ← encodeValue options (depth + 1) item writer
      encodeItems options depth items writer

/-- The loop over the entries of a map; it passes over the properties left out of them. -/
def encodeEntries (options : ResolvedCborOptions) (depth : Nat) (props : List (JsStr × Value))
    (writer : CborWriter) : Except Fault CborWriter :=
  match props with
  | [] => .ok writer
  | (key, value) :: props =>
    if value.isUndefined then encodeEntries options depth props writer
    else do
      let writer ← encodeText options key writer
      let writer ← encodeValue options (depth + 1) value writer
      encodeEntries options depth props writer

end

/-- Encodes the protocol's strict, definite-length RFC 8949 subset. -/
def encodeCbor (value : Value) (options : CborOptions) : Except Fault Bytes := do
  let resolved ← resolveOptions options
  let writer ← encodeValue resolved 0 value (.create resolved.maxByteLength)
  return writer.finish

/-! ### Decoder -/

/-- Reads an element of a byte array. -/
def element (bytes : Bytes) (index : Nat) : Except Fault Nat :=
  match bytes[index]? with
  | some byte => .ok byte.toNat
  | none => .error .outOfBounds

/-- The bytes from `start` to `stop`. -/
def subarray (bytes : Bytes) (start stop : Nat) : Except Fault Bytes :=
  if start ≤ stop ∧ stop ≤ bytes.length then .ok ((bytes.take stop).drop start)
  else .error .outOfBounds

def readByte (bytes : Bytes) (offset : Nat) : Except Fault (Nat × Nat) :=
  if bytes.length ≤ offset then throwCbor .truncated
  else do
    let value ← element bytes offset
    return (value, offset + 1)

def readBytes (bytes : Bytes) (length offset : Nat) : Except Fault (Bytes × Nat) :=
  if bytes.length < offset + length then throwCbor .truncated
  else do
    let value ← subarray bytes offset (offset + length)
    return (value, offset + length)

def readUint16 (bytes : Bytes) (offset : Nat) : Except Fault (Nat × Nat) := do
  let (value, offset) ← readBytes bytes 2 offset
  let first ← element value 0
  let second ← element value 1
  return (first * 0x100 + second, offset)

def readUint32 (bytes : Bytes) (offset : Nat) : Except Fault (Nat × Nat) := do
  let (value, offset) ← readBytes bytes 4 offset
  let first ← element value 0
  let second ← element value 1
  let third ← element value 2
  let fourth ← element value 3
  return (first * 0x1000000 + second * 0x10000 + third * 0x100 + fourth, offset)

def readUint64 (bytes : Bytes) (offset : Nat) : Except Fault (Nat × Nat) := do
  let (high, offset) ← readUint32 bytes offset
  let (low, offset) ← readUint32 bytes offset
  if 0x1fffff < high then throwCbor .decodedUnsafeArgument
  else return (high * uint32Base + low, offset)

/-- The argument after an initial byte; its five widths are the cases of the additional
information. -/
def readArgument (bytes : Bytes) (additionalInformation offset : Nat) :
    Except Fault (Nat × Nat) :=
  if additionalInformation < 24 then .ok (additionalInformation, offset)
  else
    match additionalInformation with
    | 24 => readByte bytes offset
    | 25 => readUint16 bytes offset
    | 26 => readUint32 bytes offset
    | 27 => readUint64 bytes offset
    | 31 => throwCbor .indefiniteItem
    | _ => throwCbor .additionalInformation

def readLength (bytes : Bytes) (additionalInformation : Nat) (kind : LengthKind) (limit offset : Nat) :
    Except Fault (Nat × Nat) := do
  if additionalInformation = 31 then throwCbor (.indefiniteLength kind)
  else do
    let (length, offset) ← readArgument bytes additionalInformation offset
    if limit < length then throwCbor (.lengthExceeds kind limit)
    else return (length, offset)

/-- The double at the offset: finite, and safe when it is an integer. -/
def readFloat64 (bytes : Bytes) (offset : Nat) : Except Fault (Value × Nat) := do
  let (pattern, offset) ← readBytes bytes 8 offset
  let value := JsNumber.float64 (beValue pattern)
  if value.isFinite = false then throwCbor .decodedNotFinite
  else if value.isInteger ∧ value.isSafeInteger = false then throwCbor .decodedUnsafeInteger
  else return (.number value, offset)

def readSimple (bytes : Bytes) (additionalInformation offset : Nat) : Except Fault (Value × Nat) :=
  match additionalInformation with
  | 20 => .ok (.bool false, offset)
  | 21 => .ok (.bool true, offset)
  | 22 => .ok (.null, offset)
  | 27 => readFloat64 bytes offset
  | 31 => throwCbor .breakMarker
  | _ => throwCbor .unsupportedSimple

/-- The loop that reads the items of an array. -/
def readItems (readItem : Nat → Except Fault (Value × Nat)) (length offset : Nat) :
    Except Fault (List Value × Nat) :=
  match length with
  | 0 => .ok ([], offset)
  | length + 1 => do
      let (item, offset) ← readItem offset
      let (items, offset) ← readItems readItem length offset
      return (item :: items, offset)

/-- The loop that reads the entries of a map; the keys seen so far are those of `result`. -/
def readEntries (readItem : Nat → Except Fault (Value × Nat)) (length : Nat)
    (result : Props Value) (offset : Nat) : Except Fault (Props Value × Nat) :=
  match length with
  | 0 => .ok (result, offset)
  | length + 1 => do
      let (key, offset) ← readItem offset
      match key with
      | .text key =>
        if result.any fun entry => entry.1 = key then throwCbor .duplicateKey
        else do
          let (value, offset) ← readItem offset
          readEntries readItem length (result.set key value) offset
      | _ => throwCbor .keyNotString

/-- The switch of `readItem` on the major type; `readItem` reads one level deeper. -/
def readMajor (options : ResolvedCborOptions) (bytes : Bytes)
    (readItem : Nat → Except Fault (Value × Nat)) (majorType additionalInformation offset : Nat) :
    Except Fault (Value × Nat) :=
  match majorType with
  | 0 => do
      let (value, offset) ← readArgument bytes additionalInformation offset
      return (.number (.int value), offset)
  | 1 => do
      let (argument, offset) ← readArgument bytes additionalInformation offset
      let value : JsNumber := .int (-1 - argument)
      if value.isSafeInteger = false then throwCbor .decodedUnsafeInteger
      else return (.number value, offset)
  | 2 => do
      let (length, offset) ←
        readLength bytes additionalInformation .byteString options.maxByteLength offset
      let (value, offset) ← readBytes bytes length offset
      return (.bytes value, offset)
  | 3 => do
      let (length, offset) ←
        readLength bytes additionalInformation .textString options.maxByteLength offset
      let (value, offset) ← readBytes bytes length offset
      match textDecode value with
      | some text => return (.text text, offset)
      | none => throwCbor .invalidUtf8
  | 4 => do
      let (length, offset) ←
        readLength bytes additionalInformation .array options.maxContainerLength offset
      let (items, offset) ← readItems readItem length offset
      return (.array items, offset)
  | 5 => do
      let (length, offset) ←
        readLength bytes additionalInformation .map options.maxContainerLength offset
      let (props, offset) ← readEntries readItem length [] offset
      return (.object props, offset)
  | 6 => throwCbor .tag
  | 7 => readSimple bytes additionalInformation offset
  | _ => throwCbor .majorType

/-- `readItem` at the depth `maxDepth + 1 - budget`: there is no budget left exactly when the depth
exceeds the limit. -/
def readItem (options : ResolvedCborOptions) (bytes : Bytes) (budget offset : Nat) :
    Except Fault (Value × Nat) :=
  match budget with
  | 0 => throwCbor (.depthExceeds options.maxDepth)
  | budget + 1 => do
      let (initial, offset) ← readByte bytes offset
      readMajor options bytes (fun offset => readItem options bytes budget offset) (initial >>> 5)
        (initial % 0x20) offset

/-- Decodes exactly one item from the protocol's strict RFC 8949 subset. -/
def decodeCbor (bytes : Bytes) (options : CborOptions) : Except Fault Value := do
  let resolved ← resolveOptions options
  if resolved.maxByteLength < bytes.length then
    throwCbor (.byteLengthExceeds resolved.maxByteLength)
  else do
    let (value, offset) ← readItem resolved bytes (resolved.maxDepth + 1) 0
    if offset ≠ bytes.length then throwCbor .trailingData
    else return value

end PiRp.Cbor
