import PiRp.CborRoundTrip

/-! What the decoder accepts. A reader that starts inside the payload stays inside it: it returns a
value together with an offset within the payload, or throws a `CborError`. A value it returns is
within the limits, holds no undefined, and its encoding is at most as long as the bytes it was read
from, since the encoder always writes the shortest argument. -/

namespace PiRp.Cbor

open List

variable {bytes : Bytes} {offset : Nat}

/-- The read returns a result as described, or throws a `CborError`. -/
def Yields {α : Type} (read : Except Fault (α × Nat)) (result : α → Nat → Prop) : Prop :=
  (∃ value next, read = .ok (value, next) ∧ result value next) ∨ ∃ error, read = throwCbor error

variable {α β : Type}

theorem yields_throw (error : CborError) {result : α → Nat → Prop} : Yields (throwCbor error) result :=
  .inr ⟨error, rfl⟩

theorem yields_ok {value : α} {next : Nat} {result : α → Nat → Prop} (hres : result value next) :
    Yields (.ok (value, next)) result :=
  .inl ⟨value, next, rfl, hres⟩

theorem Yields.bind {first : Except Fault (α × Nat)} {rest : α × Nat → Except Fault (β × Nat)}
    {middle : α → Nat → Prop} {result : β → Nat → Prop} (hfirst : Yields first middle)
    (hrest : ∀ value next, middle value next → Yields (rest (value, next)) result) :
    Yields (first >>= rest) result := by
  rcases hfirst with ⟨value, next, rfl, hmid⟩ | ⟨error, rfl⟩
  · exact hrest value next hmid
  · exact yields_throw error

theorem Yields.mono {read : Except Fault (α × Nat)} {result other : α → Nat → Prop}
    (hread : Yields read result) (hother : ∀ value next, result value next → other value next) :
    Yields read other := by
  rcases hread with ⟨value, next, hread, hres⟩ | herror
  · exact .inl ⟨value, next, hread, hother value next hres⟩
  · exact .inr herror

theorem readByte_yields : Yields (readByte bytes offset) fun value next =>
      next = offset + 1 ∧ next ≤ bytes.length ∧ value < 256 := by
  rw [readByte]
  split_ifs with hend
  · exact yields_throw _
  · have hlt := Nat.not_le.mp hend
    have helem : element bytes offset = .ok (bytes.get ⟨offset, hlt⟩).toNat := by
      rw [element, getElem?_eq_getElem hlt]
      rfl
    rw [helem]
    exact yields_ok ⟨rfl, hlt, UInt8.toNat_lt _⟩

theorem readBytes_yields (length : Nat) : Yields (readBytes bytes length offset) fun value next =>
      next = offset + length ∧ next ≤ bytes.length ∧ value.length = length := by
  rw [readBytes]
  split_ifs with hend
  · exact yields_throw _
  · have hle := Nat.not_lt.mp hend
    rw [subarray, if_pos ⟨Nat.le_add_right _ _, hle⟩]
    refine yields_ok ⟨rfl, hle, ?_⟩
    rw [length_drop, length_take]
    omega

theorem readUint16_yields : Yields (readUint16 bytes offset) fun value next =>
      next = offset + 2 ∧ next ≤ bytes.length ∧ value < 256 ^ 2 := by
  refine (readBytes_yields 2).bind ?_
  rintro value next ⟨hnext, hle, hlen⟩
  obtain ⟨first, second, rfl⟩ := length_eq_two.mp hlen
  refine yields_ok ⟨hnext, hle, ?_⟩
  have hfirst := UInt8.toNat_lt first
  have hsnd := UInt8.toNat_lt second
  omega

theorem readUint32_yields : Yields (readUint32 bytes offset) fun value next =>
      next = offset + 4 ∧ next ≤ bytes.length ∧ value < uint32Base := by
  refine (readBytes_yields 4).bind ?_
  rintro value next ⟨hnext, hle, hlen⟩
  match value, hlen with
  | [first, second, third, fourth], _ =>
    refine yields_ok ⟨hnext, hle, ?_⟩
    have hfirst := UInt8.toNat_lt first
    have hsnd := UInt8.toNat_lt second
    have hthird := UInt8.toNat_lt third
    have hfour := UInt8.toNat_lt fourth
    rw [uint32Base]
    omega

theorem readUint64_yields : Yields (readUint64 bytes offset) fun value next =>
      next = offset + 8 ∧ next ≤ bytes.length ∧ value ≤ maxSafeInteger := by
  refine readUint32_yields.bind ?_
  rintro high middle ⟨hmid, _, _⟩
  refine readUint32_yields.bind ?_
  rintro low next ⟨hnext, hle, hlow⟩
  dsimp only
  split_ifs with hhigh
  · exact yields_throw _
  · refine yields_ok ⟨by omega, hle, ?_⟩
    simp only [uint32Base, maxSafeInteger] at hlow ⊢
    omega

theorem argumentBytes_length (majorType value : Nat) : (argumentBytes majorType value).length =
      if value < 24 then 1 else if value ≤ 0xff then 2 else if value ≤ 0xffff then 3
        else if value ≤ maxUint32 then 5 else 9 := by
  unfold argumentBytes
  split_ifs
  · rfl
  · rw [length_cons, beBytes_length]
  · rw [length_cons, beBytes_length]
  · rw [length_cons, beBytes_length]
  · rw [length_cons, length_append, beBytes_length, beBytes_length]

variable {additionalInformation : Nat}

theorem readArgument_yields (hoff : offset ≤ bytes.length) :
    Yields (readArgument bytes additionalInformation offset) fun value next =>
      next ≤ bytes.length ∧ value ≤ maxSafeInteger ∧
        ∀ majorType, offset + (argumentBytes majorType value).length ≤ next + 1 := by
  unfold readArgument
  split_ifs with htiny
  · refine yields_ok ⟨hoff, ?_, fun majorType => ?_⟩
    · exact htiny.le.trans (by decide)
    · rw [argumentBytes_length, if_pos htiny]
  · split
    · refine readByte_yields.mono ?_
      rintro value next ⟨hnext, hle, hvalue⟩
      refine ⟨hle, hvalue.le.trans (by decide), fun majorType => ?_⟩
      rw [argumentBytes_length]
      split_ifs <;> omega
    · refine readUint16_yields.mono ?_
      rintro value next ⟨hnext, hle, hvalue⟩
      refine ⟨hle, hvalue.le.trans (by decide), fun majorType => ?_⟩
      rw [argumentBytes_length]
      split_ifs <;> omega
    · refine readUint32_yields.mono ?_
      rintro value next ⟨hnext, hle, hvalue⟩
      refine ⟨hle, hvalue.le.trans (by decide), fun majorType => ?_⟩
      have hword : value ≤ maxUint32 := Nat.le_of_lt_succ hvalue
      rw [argumentBytes_length]
      split_ifs <;> omega
    · refine readUint64_yields.mono ?_
      rintro value next ⟨hnext, hle, hvalue⟩
      refine ⟨hle, hvalue, fun majorType => ?_⟩
      rw [argumentBytes_length]
      split_ifs <;> omega
    · exact yields_throw _
    · exact yields_throw _

theorem readLength_yields {limit : Nat} (kind : LengthKind) (hoff : offset ≤ bytes.length) :
    Yields (readLength bytes additionalInformation kind limit offset) fun value next =>
      next ≤ bytes.length ∧ value ≤ limit ∧
        ∀ majorType, offset + (argumentBytes majorType value).length ≤ next + 1 := by
  unfold readLength
  split_ifs
  · exact yields_throw _
  · refine (readArgument_yields hoff).bind ?_
    rintro value next ⟨hle, _, hshor⟩
    dsimp only
    split_ifs with hlimit
    · exact yields_throw _
    · exact yields_ok ⟨hle, Nat.not_lt.mp hlimit, hshor⟩

/-- What an item that was read from `start` to `next` is. -/
structure Decoded (options : ResolvedCborOptions) (depth : Nat) (bytes : Bytes) (start : Nat)
    (value : Value) (next : Nat) : Prop where
  next_le : next ≤ bytes.length
  fits : Fits options depth value
  strip_eq : strip value = value
  shorter : start + (itemBytes value).length ≤ next

variable {options : ResolvedCborOptions} {depth : Nat}

variable {value : Value}

theorem Fits.defined (hfits : Fits options depth value) : value ≠ .undefined := by
  rintro rfl
  exact nomatch hfits

theorem numberBytes_length_le (value : JsNumber) : (numberBytes value).length ≤ 9 := by
  cases value with
  | int value =>
    rw [numberBytes]
    split_ifs
    · rw [argumentBytes_length]
      split_ifs <;> omega
    · rw [argumentBytes_length]
      split_ifs <;> omega
  | negZero => exact (congrArg Nat.succ (beBytes_length 8 _)).le
  | fraction bits => exact (congrArg Nat.succ (beBytes_length 8 _)).le
  | infinite negative => exact Nat.zero_le 9
  | nan => exact Nat.zero_le 9

theorem representable_of_safe {value : JsNumber} (hfin : value.isFinite ≠ false)
    (hsafe : ¬ (value.isInteger = true ∧ value.isSafeInteger = false)) : Representable value := by
  cases value with
  | int value =>
    by_contra hlarge
    exact hsafe ⟨rfl, decide_eq_false hlarge⟩
  | negZero => trivial
  | fraction bits => trivial
  | infinite negative => exact hfin rfl
  | nan => exact hfin rfl

theorem readSimple_yields {start : Nat} (hdepth : depth ≤ options.maxDepth)
    (hstart : offset = start + 1) (hoff : offset ≤ bytes.length) :
    Yields (readSimple bytes additionalInformation offset) (Decoded options depth bytes start) := by
  unfold readSimple
  split
  · exact yields_ok ⟨hoff, .bool hdepth _, by rw [strip], by rw [itemBytes, hstart]; rfl⟩
  · exact yields_ok ⟨hoff, .bool hdepth _, by rw [strip], by rw [itemBytes, hstart]; rfl⟩
  · exact yields_ok ⟨hoff, .null hdepth, by rw [strip], by rw [itemBytes, hstart]; rfl⟩
  · refine (readBytes_yields 8).bind ?_
    rintro pattern next ⟨hnext, hle, _⟩
    dsimp only
    split_ifs with hfin hsafe
    · exact yields_throw _
    · exact yields_throw _
    · refine yields_ok ⟨hle, .number hdepth (representable_of_safe hfin hsafe), by rw [strip], ?_⟩
      have hlen := numberBytes_length_le (JsNumber.float64 (beValue pattern))
      rw [itemBytes]
      omega
  · exact yields_throw _
  · exact yields_throw _

/-- The reader of the items one level deeper. -/
def ReadsItems (options : ResolvedCborOptions) (depth : Nat) (bytes : Bytes)
    (read : Nat → Except Fault (Value × Nat)) : Prop :=
  ∀ offset, offset ≤ bytes.length →
    Yields (read offset) (Decoded options (depth + 1) bytes offset)

variable {read : Nat → Except Fault (Value × Nat)}

theorem readItems_yields (length : Nat) (hread : ReadsItems options depth bytes read) (hoff : offset ≤ bytes.length) :
    Yields (readItems read length offset) fun items next => next ≤ bytes.length ∧ items.length = length ∧
        (∀ item ∈ items, Fits options (depth + 1) item) ∧ stripItems items = items ∧
          offset + (itemsBytes items).length ≤ next := by
  induction length generalizing offset with
  | zero =>
    refine yields_ok ⟨hoff, rfl, ?_, by rw [stripItems], by rw [itemsBytes]; rfl⟩
    exact fun _ hitem => absurd hitem not_mem_nil
  | succ length ih =>
    refine (hread offset hoff).bind fun item middle hitem => ?_
    refine (ih hitem.next_le).bind ?_
    rintro items next ⟨hle, hlen, hitems, hstrip, hshort⟩
    refine yields_ok ⟨hle, by rw [length_cons, hlen], ?_, ?_, ?_⟩
    · intro other hother
      rcases mem_cons.mp hother with rfl | hother
      · exact hitem.fits
      · exact hitems other hother
    · rw [stripItems, hitem.strip_eq, hstrip]
    · rw [itemsBytes, length_append]
      have hfirst := hitem.shorter
      omega

/-- The properties of an object read from a map. -/
structure DecodedEntries (options : ResolvedCborOptions) (depth : Nat) (props : Props Value) :
    Prop where
  ordered : props.Ordered
  keys : ∀ entry ∈ props,
    IsScalarText entry.1 ∧ (textEncode entry.1).length ≤ options.maxByteLength
  values : ∀ entry ∈ props, Fits options (depth + 1) entry.2 ∧ strip entry.2 = entry.2

variable {props : Props Value}

section

variable (hents : DecodedEntries options depth props)

include hents

theorem definedEntries_self : definedEntries props = props := by
  refine filter_eq_self.mpr fun entry hentry => ?_
  have hdef := (hents.values entry hentry).1.defined
  rw [Bool.not_eq_true', ← Bool.not_eq_true]
  exact fun h => hdef (isUndefined_iff.mp h)

theorem stripEntries_self : stripEntries props = props := by
  rw [stripEntries_eq, definedEntries_self hents]
  conv_rhs => rw [← map_id props]
  refine map_congr_left fun entry hentry => ?_
  exact Prod.ext rfl (hents.values entry hentry).2

omit hents in
theorem entriesBytes_eq (props : Props Value) : entriesBytes props = props.flatMap fun entry =>
      if entry.2.isUndefined then [] else textBytes entry.1 ++ itemBytes entry.2 := by
  induction props with
  | nil => rw [entriesBytes]; rfl
  | cons entry props ih => rw [entriesBytes, ih, flatMap_cons]

omit hents in
theorem entriesBytes_insertKey (props : Props Value) (key : JsStr) (hdef : value ≠ .undefined) :
    (entriesBytes (props.insertKey key value)).length =
      (entriesBytes props).length + (textBytes key).length + (itemBytes value).length := by
  have hund : value.isUndefined ≠ true := fun h => hdef (isUndefined_iff.mp h)
  rw [entriesBytes_eq, ((Props.insertKey_perm props key value).flatMap_right _).length_eq,
    flatMap_cons, ← entriesBytes_eq, length_append, if_neg hund, length_append]
  dsimp only
  omega

theorem DecodedEntries.insertKey {key : JsStr}
    (hnew : ∀ entry ∈ props, entry.1 ≠ key)
    (hkey : IsScalarText key ∧ (textEncode key).length ≤ options.maxByteLength)
    (hvalue : Fits options (depth + 1) value ∧ strip value = value) :
    DecodedEntries options depth (props.insertKey key value) where
  ordered := Props.insertKey_ordered value hents.ordered hnew
  keys := by
    intro entry hentry
    rcases mem_cons.mp ((Props.insertKey_perm props key value).mem_iff.mp hentry) with rfl | hold
    · exact hkey
    · exact hents.keys entry hold
  values := by
    intro entry hentry
    rcases mem_cons.mp ((Props.insertKey_perm props key value).mem_iff.mp hentry) with rfl | hold
    · exact hvalue
    · exact hents.values entry hold

end

/-- The loop over the entries keeps the properties read so far in order and adds to them no more
bytes than it reads. -/
theorem readEntries_yields {start length : Nat} {result : Props Value} (hread : ReadsItems options depth bytes read)
    (hres : DecodedEntries options depth result) (hoff : offset ≤ bytes.length)
    (hshort : start + (entriesBytes result).length ≤ offset) :
    Yields (readEntries read length result offset) fun props next =>
      next ≤ bytes.length ∧ props.length = result.length + length ∧
        DecodedEntries options depth props ∧ start + (entriesBytes props).length ≤ next := by
  induction length generalizing offset result with
  | zero => exact yields_ok ⟨hoff, rfl, hres, hshort⟩
  | succ length ih =>
    refine (hread offset hoff).bind fun item middle hitem => ?_
    cases item with
    | text key =>
      dsimp only
      split_ifs with hdup
      · exact yields_throw _
      · refine (hread middle hitem.next_le).bind fun value next hvalue => ?_
        have hnew : ∀ entry ∈ result, entry.1 ≠ key := by
          intro entry hentry heq
          exact hdup (any_eq_true.mpr ⟨entry, hentry, decide_eq_true heq⟩)
        have hkeyFits : IsScalarText key ∧ (textEncode key).length ≤ options.maxByteLength := by
          cases hitem.fits with
          | text _ htext hlen => exact ⟨htext, hlen⟩
        have hkeyShorter := hitem.shorter
        have hvalueShorter := hvalue.shorter
        rw [itemBytes] at hkeyShorter
        dsimp only
        rw [Props.set_of_not_mem value hnew]
        refine (ih (hres.insertKey hnew hkeyFits ⟨hvalue.fits, hvalue.strip_eq⟩)
          hvalue.next_le ?_).mono ?_
        · rw [entriesBytes_insertKey result key hvalue.fits.defined]
          omega
        · rintro props last ⟨hlast, hlen, hents, hlastShorter⟩
          refine ⟨hlast, ?_, hents, hlastShorter⟩
          rw [hlen, (Props.insertKey_perm result key value).length_eq, length_cons]
          omega
    | _ => exact yields_throw _

theorem readMajor_yields {majorType start : Nat} (hdepth : depth ≤ options.maxDepth)
    (hread : ReadsItems options depth bytes read) (hstart : offset = start + 1) (hoff : offset ≤ bytes.length) :
    Yields (readMajor options bytes read majorType additionalInformation offset)
      (Decoded options depth bytes start) := by
  unfold readMajor
  split
  · refine (readArgument_yields hoff).bind ?_
    rintro value next ⟨hle, hvalue, hshor⟩
    refine yields_ok ⟨hle, .number hdepth hvalue, by rw [strip], ?_⟩
    have hlen := hshor 0
    rw [itemBytes, numberBytes, if_pos (Int.natCast_nonneg value), Int.toNat_natCast]
    omega
  · refine (readArgument_yields hoff).bind ?_
    rintro argument next ⟨hle, _, hshor⟩
    dsimp only
    split_ifs with hsafe
    · exact yields_throw _
    · refine yields_ok ⟨hle, .number hdepth ?_, by rw [strip], ?_⟩
      · have hbound : (-1 - (argument : Int)).natAbs ≤ maxSafeInteger := by
          by_contra hlarge
          exact hsafe (decide_eq_false hlarge)
        exact hbound
      · have hlen := hshor 1
        have hback : (-1 - (-1 - (argument : Int))).toNat = argument := by omega
        rw [itemBytes, numberBytes, if_neg (by omega), hback]
        omega
  · refine (readLength_yields .byteString hoff).bind ?_
    rintro length middle ⟨_, hlimit, hshor⟩
    refine (readBytes_yields length).bind ?_
    rintro value next ⟨hnext, hle, rfl⟩
    refine yields_ok ⟨hle, .bytes hdepth hlimit, by rw [strip], ?_⟩
    have hlen := hshor 2
    rw [itemBytes, length_append]
    omega
  · refine (readLength_yields .textString hoff).bind ?_
    rintro length middle ⟨_, hlimit, hshor⟩
    refine (readBytes_yields length).bind ?_
    rintro value next ⟨hnext, hle, rfl⟩
    dsimp only
    cases hdecode : textDecode value with
    | none => exact yields_throw _
    | some text =>
      obtain ⟨htext, henc⟩ := textEncode_of_textDecode hdecode
      refine yields_ok ⟨hle, .text hdepth htext (by rw [henc]; exact hlimit), by rw [strip], ?_⟩
      have hlen := hshor 3
      rw [itemBytes, textBytes, henc, length_append]
      omega
  · refine (readLength_yields .array hoff).bind ?_
    rintro length middle ⟨hmid, hlimit, hshor⟩
    refine (readItems_yields length hread hmid).bind ?_
    rintro items next ⟨hle, rfl, hitems, hstrip, hshort⟩
    refine yields_ok ⟨hle, .array hdepth hlimit (fun item hitem => (hitems item hitem).defined) hitems,
      by rw [strip, hstrip], ?_⟩
    have hlen := hshor 4
    rw [itemBytes, length_append]
    omega
  · refine (readLength_yields .map hoff).bind ?_
    rintro length middle ⟨hmid, hlimit, hshor⟩
    have hempty : DecodedEntries options depth [] :=
      ⟨List.Pairwise.nil, fun _ hentry => absurd hentry not_mem_nil,
        fun _ hentry => absurd hentry not_mem_nil⟩
    refine (readEntries_yields hread hempty hmid
      (by rw [entriesBytes]; exact Nat.le_refl _)).bind ?_
    rintro props next ⟨hle, hcount, hents, hshort⟩
    have hdef := definedEntries_self hents
    rw [length_nil, Nat.zero_add] at hcount
    refine yields_ok ⟨hle, .object hdepth hents.ordered (by rw [hdef, hcount]; exact hlimit)
      (fun entry hentry _ => hents.keys entry hentry)
      (fun entry hentry _ => (hents.values entry hentry).1),
      by rw [strip, stripEntries_self hents], ?_⟩
    have hlen := hshor 5
    rw [itemBytes, hdef, hcount, length_append]
    omega
  · exact yields_throw _
  · exact readSimple_yields hdepth hstart hoff
  · exact yields_throw _

/-- **Every read of an item stays inside the payload**, and what it returns is within the limits and
no longer when encoded. -/
theorem readItem_yields {budget : Nat} (hbud : budget ≤ options.maxDepth + 1) (hoff : offset ≤ bytes.length) :
    Yields (readItem options bytes budget offset) (Decoded options (options.maxDepth + 1 - budget) bytes offset) := by
  induction budget generalizing offset with
  | zero => exact yields_throw _
  | succ budget ih =>
    refine readByte_yields.bind ?_
    rintro initial next ⟨hnext, hle, _⟩
    refine readMajor_yields (by omega) (fun start hstart => ?_) hnext hle
    rw [show options.maxDepth + 1 - (budget + 1) + 1 = options.maxDepth + 1 - budget by omega]
    exact ih (by omega) hstart

theorem resolveLimit_error {name : String} {value : JsNumber} {maximum : Nat} {fault : Fault}
    (hresol : resolveLimit name value maximum = .error fault) : fault = .rangeError name maximum := by
  cases value with
  | int value =>
    rw [resolveLimit] at hresol
    split_ifs at hresol
    exact (Except.error.inj hresol).symm
  | negZero => exact nomatch hresol
  | fraction bits => exact (Except.error.inj hresol).symm
  | infinite negative => exact (Except.error.inj hresol).symm
  | nan => exact (Except.error.inj hresol).symm

theorem resolveOptions_error {cborOptions : CborOptions} {fault : Fault}
    (hresol : resolveOptions cborOptions = .error fault) : ∃ name maximum, fault = .rangeError name maximum := by
  rcases bind_eq_error.mp hresol with hlimit | ⟨_, _, hresol⟩
  · exact ⟨_, _, resolveLimit_error hlimit⟩
  rcases bind_eq_error.mp hresol with hlimit | ⟨_, _, hresol⟩
  · exact ⟨_, _, resolveLimit_error hlimit⟩
  rcases bind_eq_error.mp hresol with hlimit | ⟨_, _, hresol⟩
  · exact ⟨_, _, resolveLimit_error hlimit⟩
  exact nomatch hresol

theorem decodeCbor_yields {cborOptions : CborOptions}
    (hopts : resolveOptions cborOptions = .ok options) (bytes : Bytes) :
    (∃ value, decodeCbor bytes cborOptions = .ok value ∧ bytes.length ≤ options.maxByteLength ∧
      readItem options bytes (options.maxDepth + 1) 0 = .ok (value, bytes.length) ∧
        Decoded options 0 bytes 0 value bytes.length) ∨
    ∃ error, decodeCbor bytes cborOptions = .error (.cborError error) := by
  rw [decodeCbor, hopts, ok_bind]
  split_ifs with hlimit
  · exact .inr ⟨_, rfl⟩
  · have hitem := @readItem_yields bytes 0 options _ (Nat.le_refl _) (Nat.zero_le _)
    rw [Nat.sub_self] at hitem
    rcases hitem with ⟨value, next, hread, hdec⟩ | ⟨error, herror⟩
    · rw [hread, ok_bind]
      dsimp only
      split_ifs with htrail
      · exact .inr ⟨_, rfl⟩
      · rw [ne_eq, not_not] at htrail
        rw [htrail] at hdec
        exact .inl ⟨value, rfl, Nat.not_lt.mp hlimit, by rw [htrail], hdec⟩
    · exact .inr ⟨error, by rw [herror]; rfl⟩

/-- **Decoding.** A value that was decoded is encoded again under the same options, to no more bytes
than it was read from, and these decode to it. On any bytes, under options that resolve, the decoder
returns a value once it has consumed all of them or throws a `CborError`; it never reads outside the
payload. -/
theorem encodeCbor_decodeCbor (bytes : Bytes) (cborOptions : CborOptions) :
    (∀ value, decodeCbor bytes cborOptions = .ok value →
      ∃ encoded, encodeCbor value cborOptions = .ok encoded ∧ encoded.length ≤ bytes.length ∧
        decodeCbor encoded cborOptions = .ok value) ∧ decodeCbor bytes cborOptions ≠ .error .outOfBounds ∧
    ∀ options, resolveOptions cborOptions = .ok options → (∃ value, decodeCbor bytes cborOptions = .ok value ∧
        readItem options bytes (options.maxDepth + 1) 0 = .ok (value, bytes.length)) ∨
      ∃ error, decodeCbor bytes cborOptions = .error (.cborError error) := by
  cases hopts : resolveOptions cborOptions with
  | error fault =>
    have hdecode : decodeCbor bytes cborOptions = .error fault := by
      rw [decodeCbor, hopts]
      rfl
    obtain ⟨name, maximum, rfl⟩ := resolveOptions_error hopts
    rw [hdecode]
    exact ⟨fun _ h => (by cases h), fun h => (by cases h), fun _ h => (by cases h)⟩
  | ok options =>
    rcases decodeCbor_yields hopts bytes with
      ⟨value, hdecode, hlimit, hread, hdec⟩ | ⟨error, herror⟩
    · have hshort := hdec.shorter
      rw [Nat.zero_add] at hshort
      have henc := hdec.fits.encodeCbor_eq hopts
      rw [if_pos (hshort.trans hlimit)] at henc
      have hback := hdec.fits.decodeCbor_eq hopts (hshort.trans hlimit)
      rw [hdec.strip_eq] at hback
      rw [hdecode]
      refine ⟨fun other hother => ?_, fun h => (by cases h), fun other hother => .inl ?_⟩
      · obtain rfl := Except.ok.inj hother
        exact ⟨_, henc, hshort, hback⟩
      · obtain rfl := Except.ok.inj hother
        exact ⟨value, rfl, hread⟩
    · rw [herror]
      exact ⟨fun _ h => (by cases h), fun h => (by cases h), fun _ _ => .inr ⟨error, rfl⟩⟩

end PiRp.Cbor
