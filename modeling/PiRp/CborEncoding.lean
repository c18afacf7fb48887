import PiRp.Cbor
import PiRp.ExceptBind

/-! What the encoder writes. `itemBytes` is the encoding of a value by itself, without a buffer. A
value that `Fits` the limits is written as these bytes as long as the buffer may hold them, and a
supported value that does not fit breaks a limit somewhere inside. -/

namespace PiRp.Cbor

open List CborWriter

/-- The initial byte of an item. -/
def initialByte (majorType additionalInformation : Nat) : UInt8 :=
  UInt8.ofNat (majorType * 32 + additionalInformation)

/-- The initial byte and the shortest form of the argument. -/
def argumentBytes (majorType value : Nat) : Bytes :=
  if value < 24 then [initialByte majorType value]
  else if value ≤ 0xff then initialByte majorType 24 :: beBytes 1 value
  else if value ≤ 0xffff then initialByte majorType 25 :: beBytes 2 value
  else if value ≤ maxUint32 then initialByte majorType 26 :: beBytes 4 value
  else initialByte majorType 27 :: (beBytes 4 (value / uint32Base) ++ beBytes 4 (value % uint32Base))

def numberBytes : JsNumber → Bytes
  | .int value =>
    if 0 ≤ value then argumentBytes 0 value.toNat else argumentBytes 1 (-1 - value).toNat
  | .negZero => 0xfb :: beBytes 8 JsNumber.negZeroBits
  | .fraction bits => 0xfb :: beBytes 8 bits.1
  | .infinite _ | .nan => []

def textBytes (text : JsStr) : Bytes :=
  argumentBytes 3 (textEncode text).length ++ textEncode text

mutual

/-- The encoding of a value. -/
def itemBytes (value : Value) : Bytes :=
  match value with
  | .undefined | .other _ => []
  | .null => [0xf6]
  | .bool value => [if value then 0xf5 else 0xf4]
  | .number value => numberBytes value
  | .text value => textBytes value
  | .bytes value => argumentBytes 2 value.length ++ value
  | .array items => argumentBytes 4 items.length ++ itemsBytes items
  | .object props => argumentBytes 5 (definedEntries props).length ++ entriesBytes props

def itemsBytes (items : List Value) : Bytes :=
  match items with
  | [] => []
  | item :: items => itemBytes item ++ itemsBytes items

def entriesBytes (props : List (JsStr × Value)) : Bytes :=
  match props with
  | [] => []
  | (key, value) :: props =>
    (if value.isUndefined then [] else textBytes key ++ itemBytes value) ++ entriesBytes props

end

mutual

/-- The value without its undefined-valued properties. -/
def strip (value : Value) : Value :=
  match value with
  | .undefined => .undefined
  | .null => .null
  | .bool value => .bool value
  | .number value => .number value
  | .text value => .text value
  | .bytes value => .bytes value
  | .array items => .array (stripItems items)
  | .object props => .object (stripEntries props)
  | .other typeName => .other typeName

def stripItems (items : List Value) : List Value :=
  match items with
  | [] => []
  | item :: items => strip item :: stripItems items

def stripEntries (props : List (JsStr × Value)) : List (JsStr × Value) :=
  match props with
  | [] => []
  | (key, value) :: props =>
    if value.isUndefined then stripEntries props else (key, strip value) :: stripEntries props

end

variable {value : Value}

theorem isUndefined_iff : value.isUndefined = true ↔ value = .undefined := by
  cases value <;> simp [Value.isUndefined]

/-! ### Writing bytes -/

/-- Writing appends the bytes when they stay within the limit and reports the limit otherwise. -/
structure Emits (write : CborWriter → Except Fault CborWriter) (bytes : Bytes) : Prop where
  fits : ∀ writer : CborWriter, writer.offset + bytes.length ≤ writer.maxByteLength →
    ∃ next, write writer = .ok next ∧ next.finish = writer.finish ++ bytes ∧
      next.maxByteLength = writer.maxByteLength
  exceeds : ∀ writer : CborWriter, writer.offset ≤ writer.maxByteLength →
    writer.maxByteLength < writer.offset + bytes.length →
      write writer = throwCbor (.byteLengthExceeds writer.maxByteLength)

theorem finish_length (writer : CborWriter) : writer.finish.length = writer.offset := by
  rw [finish, length_take, Nat.min_eq_left writer.offset_le]

variable {writer next : CborWriter} {bytes : Bytes}

theorem offset_of_finish (hfin : next.finish = writer.finish ++ bytes) :
    next.offset = writer.offset + bytes.length := by
  rw [← finish_length, hfin, length_append, finish_length]

theorem le_growCapacity {rounds maxByteLength required : Nat} (capacity : Nat)
    (hroun : 0 < rounds) (hreq : required ≤ maxByteLength) :
    required ≤ growCapacity rounds maxByteLength required capacity := by
  induction rounds generalizing capacity with
  | zero => omega
  | succ rounds ih =>
    rw [growCapacity]
    split_ifs with hcap
    · rcases Nat.eq_zero_or_pos rounds with rfl | hpos
      · rw [growCapacity]
        omega
      · exact ih _ hpos
    · omega

theorem ensureCapacity_fits {additionalBytes : Nat} (hfits : writer.offset + additionalBytes ≤ writer.maxByteLength) :
    ∃ next, writer.ensureCapacity additionalBytes = .ok next ∧ next.finish = writer.finish ∧
      next.offset = writer.offset ∧ next.maxByteLength = writer.maxByteLength ∧
        writer.offset + additionalBytes ≤ next.buffer.length := by
  rw [ensureCapacity]
  split_ifs with hlimit hroom
  · omega
  · exact ⟨writer, rfl, rfl, rfl, rfl, hroom⟩
  · refine ⟨_, rfl, ?_, rfl, rfl, ?_⟩
    · rw [finish, finish]
      exact take_append_of_le_length writer.offset_le
    · have hgrown := @le_growCapacity (writer.offset + additionalBytes) _ _
        (max 1 writer.buffer.length) (by omega) hfits
      simp only [expand, length_append, length_replicate]
      omega

theorem store_fits (hfits : writer.offset + bytes.length ≤ writer.buffer.length) :
    ∃ next, writer.store bytes = .ok next ∧ next.finish = writer.finish ++ bytes ∧
      next.maxByteLength = writer.maxByteLength := by
  rw [store, dif_pos hfits]
  exact ⟨_, rfl, setBytes_take hfits, rfl⟩

theorem emits_store (bytes : Bytes) :
    Emits (fun writer => writer.ensureCapacity bytes.length >>= fun writer => writer.store bytes) bytes where
  fits := by
    intro writer hfits
    obtain ⟨room, hroom, hfin, hoff, hmax, hlen⟩ := ensureCapacity_fits hfits
    obtain ⟨next, hnext, hwrt, hnextMax⟩ := store_fits (hoff ▸ hlen)
    refine ⟨next, ?_, ?_, ?_⟩
    · rw [hroom, ok_bind, hnext]
    · rw [hwrt, hfin]
    · rw [hnextMax, hmax]
  exceeds := by
    intro writer _ hexc
    rw [ensureCapacity, if_pos hexc]
    rfl

theorem Emits.append {first second : CborWriter → Except Fault CborWriter} {left right : Bytes}
    (hfirst : Emits first left) (hsnd : Emits second right) :
    Emits (fun writer => first writer >>= second) (left ++ right) where
  fits := by
    intro writer hfits
    rw [length_append] at hfits
    obtain ⟨middle, hmid, hleft, hmiddleMax⟩ := hfirst.fits writer (by omega)
    have hoff := offset_of_finish hleft
    obtain ⟨next, hnext, hright, hnextMax⟩ := hsnd.fits middle (by omega)
    refine ⟨next, ?_, ?_, ?_⟩
    · rw [hmid, ok_bind, hnext]
    · rw [hright, hleft, append_assoc]
    · rw [hnextMax, hmiddleMax]
  exceeds := by
    intro writer hwit hexc
    rw [length_append] at hexc
    rcases Nat.lt_or_ge writer.maxByteLength (writer.offset + left.length) with hleft | hleft
    · rw [hfirst.exceeds writer hwit hleft]
      rfl
    · obtain ⟨middle, hmid, hfin, hmiddleMax⟩ := hfirst.fits writer hleft
      have hoff := offset_of_finish hfin
      rw [hmid, ok_bind, hsnd.exceeds middle (by omega) (by omega), hmiddleMax]

theorem Emits.congr {write other : CborWriter → Except Fault CborWriter}
    (hother : Emits other bytes) (heq : ∀ writer, write writer = other writer) : Emits write bytes := by
  rw [funext heq]
  exact hother

theorem emits_nil : Emits .ok [] where
  fits := fun writer _ => ⟨writer, rfl, (append_nil _).symm, rfl⟩
  exceeds := fun _ hwit hexc => absurd hexc (Nat.not_lt.mpr hwit)

theorem emits_writeByte (value : Nat) : Emits (writeByte value) [UInt8.ofNat value] :=
  emits_store [UInt8.ofNat value]

theorem emits_writeBytes (bytes : Bytes) : Emits (writeBytes bytes) bytes :=
  emits_store bytes

theorem emits_writeUint16 (value : Nat) : Emits (writeUint16 value) (beBytes 2 value) := by
  have hbytes : beBytes 2 value = [UInt8.ofNat (value >>> 8), UInt8.ofNat value] := by
    simp [beBytes, Nat.shiftRight_eq_div_pow]
  rw [hbytes]
  exact emits_store [UInt8.ofNat (value >>> 8), UInt8.ofNat value]

theorem emits_writeUint32 (value : Nat) : Emits (writeUint32 value) (beBytes 4 value) := by
  have hbytes : beBytes 4 value = [UInt8.ofNat (value >>> 24), UInt8.ofNat (value >>> 16),
      UInt8.ofNat (value >>> 8), UInt8.ofNat value] := by
    simp [beBytes, Nat.shiftRight_eq_div_pow]
  rw [hbytes]
  exact emits_store [UInt8.ofNat (value >>> 24), UInt8.ofNat (value >>> 16),
    UInt8.ofNat (value >>> 8), UInt8.ofNat value]

theorem emits_writeUint64 (value : Nat) : Emits (writeUint64 value)
      (beBytes 4 (value / uint32Base) ++ beBytes 4 (value % uint32Base)) := by
  have hlow : value % uint32Base = value - value / uint32Base * uint32Base := by
    have hdiv := Nat.div_add_mod' value uint32Base
    omega
  rw [hlow]
  exact (emits_writeUint32 _).append (emits_writeUint32 _)

theorem emits_writeFloat64 (bits : Nat) : Emits (writeFloat64 bits) (0xfb :: beBytes 8 bits) :=
  emits_store (0xfb :: beBytes 8 bits)

theorem emits_initial (majorType : Nat) {additionalInformation : Nat} (hinf : additionalInformation < 32) :
    Emits (writeByte (majorType <<< 5 ||| additionalInformation)) [initialByte majorType additionalInformation] := by
  have hinit : majorType <<< 5 ||| additionalInformation =
      majorType * 32 + additionalInformation := by
    rw [← Nat.shiftLeft_add_eq_or_of_lt (by omega) majorType, Nat.shiftLeft_eq]
  rw [hinit]
  exact emits_writeByte _

theorem emits_writeArgument (majorType value : Nat) :
    Emits (writeArgument majorType value) (argumentBytes majorType value) := by
  unfold writeArgument argumentBytes
  split_ifs with htiny hbyte hshort hword
  · exact emits_initial majorType (by omega)
  · have hone : beBytes 1 value = [UInt8.ofNat value] := by simp [beBytes]
    rw [hone]
    exact (emits_initial majorType (by omega)).append (emits_writeByte value)
  · exact (emits_initial majorType (by omega)).append (emits_writeUint16 value)
  · exact (emits_initial majorType (by omega)).append (emits_writeUint32 value)
  · exact (emits_initial majorType (by omega)).append (emits_writeUint64 value)

/-! ### Errors of the encoder -/

/-- Writing succeeds within the limit or throws a `CborError`; it never leaves the buffer. -/
def Safe (write : CborWriter → Except Fault CborWriter) : Prop :=
  ∀ writer : CborWriter, writer.offset ≤ writer.maxByteLength →
    (∃ next, write writer = .ok next ∧ next.offset ≤ next.maxByteLength) ∨
      ∃ error, write writer = throwCbor error

theorem Emits.safe {write : CborWriter → Except Fault CborWriter} (hemits : Emits write bytes) : Safe write := by
  intro writer hwit
  rcases Nat.lt_or_ge writer.maxByteLength (writer.offset + bytes.length) with hexc | hfits
  · exact .inr ⟨_, hemits.exceeds writer hwit hexc⟩
  · obtain ⟨next, hnext, hfin, hmax⟩ := hemits.fits writer hfits
    exact .inl ⟨next, hnext, by rw [offset_of_finish hfin, hmax]; exact hfits⟩

theorem safe_throw (error : CborError) : Safe fun _ => throwCbor error :=
  fun _ _ => .inr ⟨error, rfl⟩

theorem Safe.bind {first second : CborWriter → Except Fault CborWriter} (hfirst : Safe first)
    (hsnd : Safe second) : Safe fun writer => first writer >>= second := by
  intro writer hwit
  rcases hfirst writer hwit with ⟨middle, hmid, hmiddleWithin⟩ | ⟨error, herror⟩
  · simp only [hmid, ok_bind]
    exact hsnd middle hmiddleWithin
  · exact .inr ⟨error, by simp only [herror]; rfl⟩

theorem safe_encodeText (options : ResolvedCborOptions) (text : JsStr) : Safe (encodeText options text) := by
  unfold encodeText
  dsimp only
  split_ifs
  · exact safe_throw _
  · exact safe_throw _
  · exact (emits_writeArgument _ _).safe.bind (emits_writeBytes _).safe

theorem safe_encodeNumber (value : JsNumber) : Safe (encodeNumber value) := by
  cases value with
  | int value =>
    unfold encodeNumber
    dsimp only
    split_ifs
    · exact safe_throw _
    · exact (emits_writeArgument _ _).safe
    · exact (emits_writeArgument _ _).safe
  | negZero => exact (emits_writeFloat64 _).safe
  | fraction bits => exact (emits_writeFloat64 _).safe
  | infinite negative => exact safe_throw _
  | nan => exact safe_throw _

mutual

/-- **The encoder stays within its buffer**: it succeeds or throws a `CborError`. -/
theorem safe_encodeValue (options : ResolvedCborOptions) (depth : Nat) (value : Value) :
    Safe (encodeValue options depth value) := by
  intro writer hwit
  rw [encodeValue.eq_def]
  split_ifs
  · exact .inr ⟨_, rfl⟩
  · cases value with
    | undefined => exact .inr ⟨_, rfl⟩
    | null => exact (emits_writeByte _).safe writer hwit
    | bool value => exact (emits_writeByte _).safe writer hwit
    | number value => exact safe_encodeNumber value writer hwit
    | text value => exact safe_encodeText options value writer hwit
    | bytes value =>
      dsimp only
      split_ifs
      · exact .inr ⟨_, rfl⟩
      · exact (emits_writeArgument _ _).safe.bind (emits_writeBytes _).safe writer hwit
    | array items =>
      dsimp only
      split_ifs
      · exact .inr ⟨_, rfl⟩
      · exact (emits_writeArgument _ _).safe.bind (safe_encodeItems options depth items)
          writer hwit
    | object props =>
      dsimp only
      split_ifs
      · exact .inr ⟨_, rfl⟩
      · exact (emits_writeArgument _ _).safe.bind (safe_encodeEntries options depth props)
          writer hwit
    | other typeName => exact .inr ⟨_, rfl⟩

theorem safe_encodeItems (options : ResolvedCborOptions) (depth : Nat) (items : List Value) :
    Safe (encodeItems options depth items) := by
  intro writer hwit
  cases items with
  | nil => exact .inl ⟨writer, by rw [encodeItems], hwit⟩
  | cons item items =>
    rw [encodeItems]
    split_ifs
    · exact .inr ⟨_, rfl⟩
    · exact (safe_encodeValue options (depth + 1) item).bind
        (safe_encodeItems options depth items) writer hwit

theorem safe_encodeEntries (options : ResolvedCborOptions) (depth : Nat)
    (props : List (JsStr × Value)) : Safe (encodeEntries options depth props) := by
  intro writer hwit
  match props with
  | [] => exact .inl ⟨writer, by rw [encodeEntries], hwit⟩
  | (key, value) :: props =>
    rw [encodeEntries]
    split_ifs
    · exact safe_encodeEntries options depth props writer hwit
    · exact (safe_encodeText options key).bind
        ((safe_encodeValue options (depth + 1) value).bind
          (safe_encodeEntries options depth props)) writer hwit

end

/-! ### Values within the limits -/

/-- The numbers the encoder accepts. -/
def Representable : JsNumber → Prop
  | .int value => value.natAbs ≤ maxSafeInteger
  | .negZero | .fraction _ => True
  | .infinite _ | .nan => False

/-- The values of the protocol: null, booleans, safe integers, minus zero and finite fractions,
scalar text, byte strings, arrays and plain objects. Properties, and items of arrays, may be
undefined. -/
inductive Supported : Value → Prop
  | null : Supported .null
  | bool (value : Bool) : Supported (.bool value)
  | number {value : JsNumber} (hvalue : Representable value) : Supported (.number value)
  | text {value : JsStr} (hvalue : IsScalarText value) : Supported (.text value)
  | bytes (value : Bytes) : Supported (.bytes value)
  | array {items : List Value} (hitems : ∀ item ∈ items, item ≠ .undefined → Supported item) :
      Supported (.array items)
  | object {props : Props Value} (hord : props.Ordered)
      (hkeys : ∀ entry ∈ props, entry.2 ≠ .undefined → IsScalarText entry.1)
      (hval : ∀ entry ∈ props, entry.2 ≠ .undefined → Supported entry.2) :
      Supported (.object props)

/-- The value at this depth breaks no limit on depth, container length or string length, and holds
no undefined item. -/
inductive Fits (options : ResolvedCborOptions) : Nat → Value → Prop
  | null {depth : Nat} (hdepth : depth ≤ options.maxDepth) : Fits options depth .null
  | bool {depth : Nat} (hdepth : depth ≤ options.maxDepth) (value : Bool) :
      Fits options depth (.bool value)
  | number {depth : Nat} (hdepth : depth ≤ options.maxDepth) {value : JsNumber}
      (hvalue : Representable value) : Fits options depth (.number value)
  | text {depth : Nat} (hdepth : depth ≤ options.maxDepth) {value : JsStr}
      (hvalue : IsScalarText value) (hlen : (textEncode value).length ≤ options.maxByteLength) :
      Fits options depth (.text value)
  | bytes {depth : Nat} (hdepth : depth ≤ options.maxDepth) {value : Bytes}
      (hlen : value.length ≤ options.maxByteLength) : Fits options depth (.bytes value)
  | array {depth : Nat} (hdepth : depth ≤ options.maxDepth) {items : List Value}
      (hlen : items.length ≤ options.maxContainerLength)
      (hdef : ∀ item ∈ items, item ≠ .undefined)
      (hitems : ∀ item ∈ items, Fits options (depth + 1) item) : Fits options depth (.array items)
  | object {depth : Nat} (hdepth : depth ≤ options.maxDepth) {props : Props Value}
      (hord : props.Ordered)
      (hlen : (definedEntries props).length ≤ options.maxContainerLength)
      (hkeys : ∀ entry ∈ props, entry.2 ≠ .undefined →
        IsScalarText entry.1 ∧ (textEncode entry.1).length ≤ options.maxByteLength)
      (hval : ∀ entry ∈ props, entry.2 ≠ .undefined → Fits options (depth + 1) entry.2) :
      Fits options depth (.object props)

/-- Somewhere in the value, met at the given depth, a limit is exceeded or an array holds undefined. -/
inductive Exceeds (options : ResolvedCborOptions) : Nat → Value → Prop
  | depth {depth : Nat} {value : Value} (hdepth : options.maxDepth < depth) :
      Exceeds options depth value
  | text {depth : Nat} {value : JsStr}
      (hlen : options.maxByteLength < (textEncode value).length) :
      Exceeds options depth (.text value)
  | bytes {depth : Nat} {value : Bytes} (hlen : options.maxByteLength < value.length) :
      Exceeds options depth (.bytes value)
  | array {depth : Nat} {items : List Value}
      (hlen : options.maxContainerLength < items.length) : Exceeds options depth (.array items)
  | hole {depth : Nat} {items : List Value} (hitem : .undefined ∈ items) :
      Exceeds options depth (.array items)
  | item {depth : Nat} {items : List Value} {item : Value} (hitem : item ∈ items)
      (hexc : Exceeds options (depth + 1) item) : Exceeds options depth (.array items)
  | object {depth : Nat} {props : Props Value}
      (hlen : options.maxContainerLength < (definedEntries props).length) :
      Exceeds options depth (.object props)
  | key {depth : Nat} {props : Props Value} {entry : JsStr × Value} (hentry : entry ∈ props)
      (hdef : entry.2 ≠ .undefined)
      (hlen : options.maxByteLength < (textEncode entry.1).length) :
      Exceeds options depth (.object props)
  | property {depth : Nat} {props : Props Value} {entry : JsStr × Value} (hentry : entry ∈ props)
      (hdef : entry.2 ≠ .undefined) (hexc : Exceeds options (depth + 1) entry.2) :
      Exceeds options depth (.object props)

variable {options : ResolvedCborOptions}

variable {depth : Nat}

/-- **A supported value fits the limits, or one of them is exceeded somewhere inside it.** -/
theorem fits_of_not_exceeds (hsup : Supported value)
    (hexc : ¬ Exceeds options depth value) : Fits options depth value := by
  induction hsup generalizing depth with
  | null => exact .null (Nat.not_lt.mp fun h => hexc (.depth h))
  | bool value => exact .bool (Nat.not_lt.mp fun h => hexc (.depth h)) value
  | number hvalue => exact .number (Nat.not_lt.mp fun h => hexc (.depth h)) hvalue
  | text hvalue =>
    exact .text (Nat.not_lt.mp fun h => hexc (.depth h)) hvalue
      (Nat.not_lt.mp fun h => hexc (.text h))
  | bytes value =>
    exact .bytes (Nat.not_lt.mp fun h => hexc (.depth h))
      (Nat.not_lt.mp fun h => hexc (.bytes h))
  | @array items hitems ih =>
    have hdef : ∀ item ∈ items, item ≠ .undefined := fun item hitem heq =>
      hexc (.hole (heq ▸ hitem))
    exact .array (Nat.not_lt.mp fun h => hexc (.depth h))
      (Nat.not_lt.mp fun h => hexc (.array h)) hdef fun item hitem =>
        ih item hitem (hdef item hitem) fun h => hexc (.item hitem h)
  | object hord hkeys hval ih =>
    exact .object (Nat.not_lt.mp fun h => hexc (.depth h)) hord
      (Nat.not_lt.mp fun h => hexc (.object h))
      (fun entry hentry hdef => ⟨hkeys entry hentry hdef, Nat.not_lt.mp fun h => hexc (.key hentry hdef h)⟩)
      fun entry hentry hdef =>
        ih entry hentry hdef fun h => hexc (.property hentry hdef h)

theorem Fits.depth_le (hfits : Fits options depth value) : depth ≤ options.maxDepth := by
  cases hfits <;> assumption

theorem Fits.supported (hfits : Fits options depth value) : Supported value := by
  induction hfits with
  | null => exact .null
  | bool _ value => exact .bool value
  | number _ hvalue => exact .number hvalue
  | text _ hvalue _ => exact .text hvalue
  | bytes _ _ => exact .bytes _
  | array _ _ _ _ ih => exact .array fun item hitem _ => ih item hitem
  | object _ hord _ hkeys _ ih =>
    exact .object hord (fun entry hentry hdef => (hkeys entry hentry hdef).1) ih

theorem emits_encodeText {text : JsStr} (htext : IsScalarText text)
    (hlen : (textEncode text).length ≤ options.maxByteLength) : Emits (encodeText options text) (textBytes text) := by
  unfold encodeText
  simp only [if_neg (Nat.not_lt.mpr hlen), textDecode_textEncode htext, ne_eq, not_true_eq_false, if_false]
  exact (emits_writeArgument _ _).append (emits_writeBytes _)

theorem emits_encodeNumber {value : JsNumber} (hvalue : Representable value) :
    Emits (encodeNumber value) (numberBytes value) := by
  cases value with
  | int value =>
    have hsafe : (JsNumber.int value).isSafeInteger ≠ false := by
      have hbound : value.natAbs ≤ maxSafeInteger := hvalue
      rw [JsNumber.isSafeInteger, decide_eq_true hbound]
      exact Bool.noConfusion
    unfold encodeNumber numberBytes
    simp only [if_neg hsafe]
    split_ifs with hsign
    · exact emits_writeArgument _ _
    · exact emits_writeArgument _ _
  | negZero => exact emits_writeFloat64 _
  | fraction bits => exact emits_writeFloat64 _
  | infinite negative => exact hvalue.elim
  | nan => exact hvalue.elim

theorem emits_encodeItems {items : List Value} (hdef : ∀ item ∈ items, item ≠ .undefined)
    (hitems : ∀ item ∈ items, Emits (encodeValue options (depth + 1) item) (itemBytes item)) :
    Emits (encodeItems options depth items) (itemsBytes items) := by
  induction items with
  | nil =>
    rw [itemsBytes]
    exact emits_nil.congr fun writer => by rw [encodeItems]
  | cons item items ih =>
    have hitem : item.isUndefined ≠ true := fun h =>
      hdef item mem_cons_self (isUndefined_iff.mp h)
    have hrest := ih (fun other hother => hdef other (mem_cons_of_mem _ hother))
      fun other hother => hitems other (mem_cons_of_mem _ hother)
    rw [itemsBytes]
    exact ((hitems item mem_cons_self).append hrest).congr fun writer => by
      rw [encodeItems, if_neg hitem]

theorem emits_encodeEntries {props : Props Value} (hkeys : ∀ entry ∈ props, entry.2 ≠ .undefined →
      Emits (encodeText options entry.1) (textBytes entry.1)) (hval : ∀ entry ∈ props, entry.2 ≠ .undefined →
      Emits (encodeValue options (depth + 1) entry.2) (itemBytes entry.2)) :
    Emits (encodeEntries options depth props) (entriesBytes props) := by
  induction props with
  | nil =>
    rw [entriesBytes]
    exact emits_nil.congr fun writer => by rw [encodeEntries]
  | cons entry props ih =>
    have hrest := ih (fun other hother => hkeys other (mem_cons_of_mem _ hother))
      fun other hother => hval other (mem_cons_of_mem _ hother)
    obtain ⟨key, value⟩ := entry
    rw [entriesBytes]
    by_cases hund : value.isUndefined = true
    · rw [if_pos hund, nil_append]
      exact hrest.congr fun writer => by rw [encodeEntries, if_pos hund]
    · have hdef : value ≠ .undefined := fun h => hund (isUndefined_iff.mpr h)
      rw [if_neg hund, append_assoc]
      exact ((hkeys _ mem_cons_self hdef).append
        ((hval _ mem_cons_self hdef).append hrest)).congr fun writer => by
          rw [encodeEntries, if_neg hund]

/-- **A value within the limits is written as its encoding.** -/
theorem Fits.emits (hfits : Fits options depth value) :
    Emits (encodeValue options depth value) (itemBytes value) := by
  have hdepth := Nat.not_lt.mpr hfits.depth_le
  induction hfits with
  | null =>
    rw [itemBytes]
    exact (emits_writeByte 0xf6).congr fun writer => by rw [encodeValue, if_neg hdepth]
  | bool _ value =>
    rw [itemBytes]
    have hbyte : (if value then 0xf5 else 0xf4 : UInt8) =
        UInt8.ofNat (if value then 0xf5 else 0xf4) := by cases value <;> rfl
    rw [hbyte]
    exact (emits_writeByte _).congr fun writer => by rw [encodeValue, if_neg hdepth]
  | number _ hvalue =>
    rw [itemBytes]
    exact (emits_encodeNumber hvalue).congr fun writer => by rw [encodeValue, if_neg hdepth]
  | text _ hvalue hlen =>
    rw [itemBytes]
    exact (emits_encodeText hvalue hlen).congr fun writer => by
      rw [encodeValue, if_neg hdepth]
  | bytes _ hlen =>
    rw [itemBytes]
    exact ((emits_writeArgument _ _).append (emits_writeBytes _)).congr fun writer => by
      rw [encodeValue, if_neg hdepth, if_neg (Nat.not_lt.mpr hlen)]
  | array _ hlen hdef hitems ih =>
    rw [itemBytes]
    have hwrt := emits_encodeItems hdef fun item hitem =>
      ih item hitem (Nat.not_lt.mpr (hitems item hitem).depth_le)
    exact ((emits_writeArgument _ _).append hwrt).congr fun writer => by
      rw [encodeValue, if_neg hdepth, if_neg (Nat.not_lt.mpr hlen)]
  | object _ _ hlen hkeys hval ih =>
    rw [itemBytes]
    have hwrt := emits_encodeEntries
      (fun entry hentry hdef =>
        emits_encodeText (hkeys entry hentry hdef).1 (hkeys entry hentry hdef).2)
      fun entry hentry hdef =>
        ih entry hentry hdef (Nat.not_lt.mpr (hval entry hentry hdef).depth_le)
    exact ((emits_writeArgument _ _).append hwrt).congr fun writer => by
      rw [encodeValue, if_neg hdepth, if_neg (Nat.not_lt.mpr hlen)]

/-! ### What a successful write shows -/

theorem encodeText_ok {text : JsStr} (henc : encodeText options text writer = .ok next) :
    (textEncode text).length ≤ options.maxByteLength := by
  by_contra hlen
  simp only [encodeText, if_pos (Nat.not_le.mp hlen)] at henc
  exact nomatch henc

theorem encodeItems_ok {items : List Value} (henc : encodeItems options depth items writer = .ok next) :
    ∀ item ∈ items, item ≠ .undefined ∧ ∃ before after, encodeValue options (depth + 1) item before = .ok after := by
  induction items generalizing writer with
  | nil => exact fun _ hitem => nomatch hitem
  | cons item items ih =>
    rw [encodeItems] at henc
    split_ifs at henc with hund
    · exact nomatch henc
    · obtain ⟨middle, hmid, hrest⟩ := bind_eq_ok.mp henc
      intro other hother
      rcases mem_cons.mp hother with rfl | hother
      · exact ⟨fun h => hund (isUndefined_iff.mpr h), writer, middle, hmid⟩
      · exact ih hrest other hother

theorem encodeEntries_ok {props : Props Value} (henc : encodeEntries options depth props writer = .ok next) :
    ∀ entry ∈ props, entry.2 ≠ .undefined → (textEncode entry.1).length ≤ options.maxByteLength ∧
        ∃ before after, encodeValue options (depth + 1) entry.2 before = .ok after := by
  induction props generalizing writer with
  | nil => exact fun _ hentry => nomatch hentry
  | cons entry props ih =>
    obtain ⟨key, value⟩ := entry
    rw [encodeEntries] at henc
    intro other hother hdef
    split_ifs at henc with hund
    · rcases mem_cons.mp hother with rfl | hother
      · exact absurd (isUndefined_iff.mp hund) hdef
      · exact ih henc other hother hdef
    · obtain ⟨afterKey, hkey, henc⟩ := bind_eq_ok.mp henc
      obtain ⟨afterValue, hvalue, henc⟩ := bind_eq_ok.mp henc
      rcases mem_cons.mp hother with rfl | hother
      · exact ⟨encodeText_ok hkey, afterKey, afterValue, hvalue⟩
      · exact ih henc other hother hdef

theorem encodeValue_depth (henc : encodeValue options depth value writer = .ok next) : depth ≤ options.maxDepth := by
  by_contra hdeep
  rw [encodeValue.eq_def, if_pos (Nat.not_le.mp hdeep)] at henc
  exact nomatch henc

theorem Supported.fits (hsup : Supported value) (henc : encodeValue options depth value writer = .ok next) :
    Fits options depth value := by
  have hdepth := encodeValue_depth henc
  induction hsup generalizing depth writer next with
  | null => exact .null hdepth
  | bool value => exact .bool hdepth value
  | number hvalue => exact .number hdepth hvalue
  | text hvalue =>
    rw [encodeValue, if_neg (Nat.not_lt.mpr hdepth)] at henc
    exact .text hdepth hvalue (encodeText_ok henc)
  | bytes value =>
    rw [encodeValue, if_neg (Nat.not_lt.mpr hdepth)] at henc
    split_ifs at henc with hlen
    · exact nomatch henc
    · exact .bytes hdepth (Nat.not_lt.mp hlen)
  | array hitems ih =>
    rw [encodeValue, if_neg (Nat.not_lt.mpr hdepth)] at henc
    split_ifs at henc with hlen
    · exact nomatch henc
    · obtain ⟨middle, _, henc⟩ := bind_eq_ok.mp henc
      have hwrt := encodeItems_ok henc
      refine .array hdepth (Nat.not_lt.mp hlen) (fun item hitem => (hwrt item hitem).1) ?_
      intro item hitem
      obtain ⟨hdef, before, after, hitemEncode⟩ := hwrt item hitem
      exact ih item hitem hdef hitemEncode (encodeValue_depth hitemEncode)
  | object hord hkeys hval ih =>
    rw [encodeValue, if_neg (Nat.not_lt.mpr hdepth)] at henc
    split_ifs at henc with hlen
    · exact nomatch henc
    · obtain ⟨middle, _, henc⟩ := bind_eq_ok.mp henc
      have hwrt := encodeEntries_ok henc
      refine .object hdepth hord (Nat.not_lt.mp hlen)
        (fun entry hentry hdef =>
          ⟨hkeys entry hentry hdef, (hwrt entry hentry hdef).1⟩) ?_
      intro entry hentry hdef
      obtain ⟨_, before, after, hvalueEncode⟩ := hwrt entry hentry hdef
      exact ih entry hentry hdef hvalueEncode (encodeValue_depth hvalueEncode)

end PiRp.Cbor
