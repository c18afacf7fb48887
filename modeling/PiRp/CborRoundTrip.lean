import PiRp.CborEncoding

/-! The decoder reads back what the encoder writes. `Reads` says that a reader standing before some
bytes returns a value and stops right after them; it composes along the payload, and every value
within the limits is read off its encoding without its undefined-valued properties. -/

namespace PiRp.Cbor

open List

/-- Wherever `data` stands in the payload, the reader takes exactly these bytes. -/
def Reads {α : Type} (bytes : Bytes) (read : Nat → Except Fault (α × Nat)) (data : Bytes)
    (value : α) : Prop :=
  ∀ before after : Bytes, bytes = before ++ (data ++ after) →
    read before.length = .ok (value, before.length + data.length)

variable {α : Type} {bytes : Bytes}

variable {data : Bytes}

theorem Reads.after {read : Nat → Except Fault (α × Nat)} {value : α}
    (hreads : Reads bytes read data value) {before after : Bytes} (left : Bytes)
    (hbytes : bytes = before ++ (left ++ (data ++ after))) :
    read (before.length + left.length) = .ok (value, before.length + left.length + data.length) := by
  have hnext := hreads (before ++ left) after (by rw [hbytes, append_assoc])
  rwa [length_append] at hnext

theorem reads_readByte (byte : UInt8) : Reads bytes (readByte bytes) [byte] byte.toNat := by
  intro before after hbytes
  have hlen : ¬ bytes.length ≤ before.length := by
    rw [hbytes, length_append, length_append, length_singleton]
    omega
  have helem : element bytes before.length = .ok byte.toNat := by
    rw [element, hbytes, getElem?_append_right (Nat.le_refl _), Nat.sub_self]
    rfl
  rw [readByte, if_neg hlen, helem]
  rfl

theorem reads_readBytes (data : Bytes) : Reads bytes (readBytes bytes data.length) data data := by
  intro before after hbytes
  have hlen : before.length + data.length ≤ bytes.length := by
    rw [hbytes, length_append, length_append]
    omega
  have hslice : (bytes.take (before.length + data.length)).drop before.length = data := by
    rw [hbytes, ← append_assoc, ← length_append, take_left, drop_left]
  rw [readBytes, if_neg (Nat.not_lt.mpr hlen), subarray, if_pos ⟨Nat.le_add_right _ _, hlen⟩, hslice]
  rfl

theorem reads_readUint16 {value : Nat} (hvalue : value < 256 ^ 2) :
    Reads bytes (readUint16 bytes) (beBytes 2 value) value := by
  intro before after hbytes
  have hread := beValue_beBytes hvalue
  obtain ⟨first, second, hdata⟩ : ∃ first second, beBytes 2 value = [first, second] :=
    ⟨_, _, rfl⟩
  rw [hdata] at hread hbytes ⊢
  have hslice : readBytes bytes 2 before.length = .ok _ :=
    reads_readBytes [first, second] before after hbytes
  simp only [beValue, foldl_cons, foldl_nil] at hread
  rw [readUint16, hslice]
  simp only [element, getElem?_cons_zero, getElem?_cons_succ, ok_bind]
  refine congrArg Except.ok (Prod.ext ?_ rfl)
  dsimp only
  linarith

theorem reads_readUint32 {value : Nat} (hvalue : value < 256 ^ 4) :
    Reads bytes (readUint32 bytes) (beBytes 4 value) value := by
  intro before after hbytes
  have hread := beValue_beBytes hvalue
  obtain ⟨first, second, third, fourth, hdata⟩ : ∃ first second third fourth, beBytes 4 value = [first, second, third, fourth] :=
    ⟨_, _, _, _, rfl⟩
  rw [hdata] at hread hbytes ⊢
  have hslice : readBytes bytes 4 before.length = .ok _ :=
    reads_readBytes [first, second, third, fourth] before after hbytes
  simp only [beValue, foldl_cons, foldl_nil] at hread
  rw [readUint32, hslice]
  simp only [element, getElem?_cons_zero, getElem?_cons_succ, ok_bind]
  refine congrArg Except.ok (Prod.ext ?_ rfl)
  dsimp only
  linarith

theorem reads_readUint64 {value : Nat} (hvalue : value ≤ maxSafeInteger) : Reads bytes (readUint64 bytes)
      (beBytes 4 (value / uint32Base) ++ beBytes 4 (value % uint32Base)) value := by
  have hhigh : value / uint32Base ≤ 0x1fffff :=
    Nat.le_of_lt_succ (Nat.div_lt_of_lt_mul (Nat.lt_of_le_of_lt hvalue (by decide)))
  have hhighRead := @reads_readUint32 bytes _
    (Nat.lt_of_le_of_lt hhigh (by decide))
  have hlowRead := @reads_readUint32 bytes (value % uint32Base)
    (Nat.mod_lt _ (by decide))
  intro before after hbytes
  rw [append_assoc] at hbytes
  rw [readUint64, hhighRead before _ hbytes, ok_bind]
  dsimp only
  rw [hlowRead.after _ hbytes, ok_bind]
  dsimp only
  rw [if_neg (Nat.not_lt.mpr hhigh), Nat.div_add_mod', length_append, Nat.add_assoc]
  rfl

theorem reads_readArgument (majorType : Nat) {value : Nat} (hvalue : value ≤ maxSafeInteger) :
    ∃ additionalInformation data, additionalInformation < 31 ∧
      argumentBytes majorType value = initialByte majorType additionalInformation :: data ∧
        ∀ bytes, Reads bytes (readArgument bytes additionalInformation) data value := by
  unfold argumentBytes
  split_ifs with htiny hbyte hshort hword
  · refine ⟨value, [], by omega, rfl, fun bytes before after hbytes => ?_⟩
    simp only [readArgument, if_pos htiny, length_nil, Nat.add_zero]
  · refine ⟨24, _, by omega, rfl, fun bytes => ?_⟩
    have hone : beBytes 1 value = [UInt8.ofNat value] := by simp [beBytes]
    have hread := @reads_readByte bytes (UInt8.ofNat value)
    rw [UInt8.toNat_ofNat', Nat.mod_eq_of_lt (by omega)] at hread
    rw [hone]
    exact hread
  · exact ⟨25, _, by omega, rfl, fun bytes => reads_readUint16 (by omega)⟩
  · refine ⟨26, _, by omega, rfl, fun bytes => reads_readUint32 ?_⟩
    exact Nat.lt_of_le_of_lt hword (by decide)
  · exact ⟨27, _, by omega, rfl, fun bytes => reads_readUint64 hvalue⟩

theorem reads_readLength {additionalInformation value limit : Nat} (kind : LengthKind)
    (hinf : additionalInformation < 31) (hvalue : value ≤ limit)
    (hreads : Reads bytes (readArgument bytes additionalInformation) data value) :
    Reads bytes (readLength bytes additionalInformation kind limit) data value := by
  intro before after hbytes
  rw [readLength, if_neg (by omega), hreads before after hbytes, ok_bind]
  exact if_neg (Nat.not_lt.mpr hvalue)

variable {options : ResolvedCborOptions}

variable {budget : Nat}

theorem readItem_initial {majorType additionalInformation : Nat} {before after : Bytes}
    (hmajor : majorType < 8) (hinf : additionalInformation < 32)
    (hbytes : bytes = before ++ (initialByte majorType additionalInformation :: after)) :
    readItem options bytes (budget + 1) before.length =
      readMajor options bytes (fun offset => readItem options bytes budget offset) majorType
        additionalInformation (before.length + 1) := by
  have hnat : (initialByte majorType additionalInformation).toNat =
      majorType * 32 + additionalInformation := by
    rw [initialByte, UInt8.toNat_ofNat', Nat.mod_eq_of_lt (by omega)]
  have hshift : (majorType * 32 + additionalInformation) >>> 5 = majorType := by
    rw [Nat.shiftRight_eq_div_pow]
    omega
  have hmod : (majorType * 32 + additionalInformation) % 0x20 = additionalInformation := by omega
  rw [readItem, reads_readByte _ before after hbytes, ok_bind]
  dsimp only
  rw [hnat, hshift, hmod]
  rfl

variable {value : Value}

theorem reads_item {budget majorType argument : Nat} {data : Bytes} {value : Value}
    (hmajor : majorType < 8) (harg : argument ≤ maxSafeInteger)
    (hbran : ∀ additionalInformation argumentData, additionalInformation < 31 →
      Reads bytes (readArgument bytes additionalInformation) argumentData argument →
        Reads bytes (readMajor options bytes (fun offset => readItem options bytes budget offset)
          majorType additionalInformation) (argumentData ++ data) value) :
    Reads bytes (readItem options bytes (budget + 1)) (argumentBytes majorType argument ++ data) value := by
  obtain ⟨information, argumentData, hinf, hform, hreads⟩ :=
    reads_readArgument majorType harg
  intro before after hbytes
  rw [hform] at hbytes ⊢
  rw [readItem_initial hmajor (by omega) hbytes]
  have hread := (hbran information argumentData hinf (hreads bytes)).after
    [initialByte majorType information] hbytes
  rw [length_singleton] at hread
  rw [hread, cons_append, length_cons, Nat.add_assoc, Nat.add_comm 1]

theorem reads_simple (additionalInformation : Nat) (hinf : additionalInformation < 32)
    (hreads : Reads bytes (readSimple bytes additionalInformation) data value) :
    Reads bytes (readItem options bytes (budget + 1)) (initialByte 7 additionalInformation :: data) value := by
  intro before after hbytes
  rw [readItem_initial (by omega) hinf hbytes]
  have hread := hreads.after [initialByte 7 additionalInformation] hbytes
  rw [length_singleton] at hread
  rw [readMajor, hread, length_cons, Nat.add_assoc, Nat.add_comm 1]

theorem reads_float64 {bits : Nat} {value : JsNumber} (hbits : bits < 256 ^ 8)
    (hvalue : JsNumber.float64 bits = value) (hfin : value.isFinite = true)
    (hsafe : value.isInteger = true → value.isSafeInteger = true) :
    Reads bytes (readItem options bytes (budget + 1)) (0xfb :: beBytes 8 bits) (.number value) := by
  refine reads_simple 27 (by omega) fun before after hbytes => ?_
  have hslice := reads_readBytes (beBytes 8 bits) before after hbytes
  rw [beBytes_length] at hslice ⊢
  have hint : ¬ (value.isInteger = true ∧ value.isSafeInteger = false) := fun h => by
    rw [hsafe h.1] at h
    exact Bool.noConfusion h.2
  simp only [readSimple, readFloat64, hslice, ok_bind, beValue_beBytes hbits, hvalue, hfin,
    Bool.true_eq_false, if_false, if_neg hint]
  rfl

theorem reads_int {value : Int} (hvalue : value.natAbs ≤ maxSafeInteger) :
    Reads bytes (readItem options bytes (budget + 1)) (numberBytes (.int value)) (.number (.int value)) := by
  have hsafe : (JsNumber.int value).isSafeInteger = true := decide_eq_true hvalue
  rw [numberBytes]
  split_ifs with hsign
  · have hreads := @reads_item bytes options budget 0 value.toNat _ _
      (by omega) (by omega) fun information argumentData _ harg before after hbytes => by
        rw [append_nil] at hbytes ⊢
        rw [readMajor, harg before after hbytes, ok_bind]
        dsimp only
        rw [Int.toNat_of_nonneg hsign]
        rfl
    rwa [append_nil] at hreads
  · have hreads := @reads_item bytes options budget 1 (-1 - value).toNat _ _
      (by omega) (by omega) fun information argumentData _ harg before after hbytes => by
        rw [append_nil] at hbytes ⊢
        have hback : (-1 - ((-1 - value).toNat : Int)) = value := by omega
        rw [readMajor, harg before after hbytes, ok_bind]
        simp only [hback, hsafe, Bool.true_eq_false, if_false]
        rfl
    rwa [append_nil] at hreads

theorem reads_number {value : JsNumber} (hvalue : Representable value) :
    Reads bytes (readItem options bytes (budget + 1)) (numberBytes value) (.number value) := by
  cases value with
  | int value => exact reads_int hvalue
  | negZero =>
    exact reads_float64 (by decide) JsNumber.float64_negZeroBits rfl fun _ => rfl
  | fraction bits =>
    exact reads_float64 bits.2.1 (JsNumber.float64_fraction bits) rfl fun h => nomatch h
  | infinite negative => exact hvalue.elim
  | nan => exact hvalue.elim

theorem le_maxSafeInteger_of_le_maxUint32 {value : Nat} (hvalue : value ≤ maxUint32) : value ≤ maxSafeInteger :=
  hvalue.trans (by decide)

theorem reads_bytes (hlen : data.length ≤ options.maxByteLength) :
    Reads bytes (readItem options bytes (budget + 1)) (argumentBytes 2 data.length ++ data) (.bytes data) := by
  refine reads_item (by omega)
    (le_maxSafeInteger_of_le_maxUint32 (hlen.trans options.maxByteLength_le)) ?_
  intro information argumentData hinf harg before after hbytes
  rw [append_assoc] at hbytes
  rw [readMajor, reads_readLength .byteString hinf hlen harg before _ hbytes, ok_bind]
  dsimp only
  rw [(reads_readBytes data).after _ hbytes, ok_bind, length_append, Nat.add_assoc]
  rfl

theorem reads_text {text : JsStr} (htext : IsScalarText text)
    (hlen : (textEncode text).length ≤ options.maxByteLength) :
    Reads bytes (readItem options bytes (budget + 1)) (textBytes text) (.text text) := by
  refine reads_item (by omega)
    (le_maxSafeInteger_of_le_maxUint32 (hlen.trans options.maxByteLength_le)) ?_
  intro information argumentData hinf harg before after hbytes
  rw [append_assoc] at hbytes
  rw [readMajor, reads_readLength .textString hinf hlen harg before _ hbytes, ok_bind]
  dsimp only
  rw [(reads_readBytes (textEncode text)).after _ hbytes, ok_bind]
  simp only [textDecode_textEncode htext, length_append, Nat.add_assoc]
  rfl

theorem reads_readItems {read : Nat → Except Fault (Value × Nat)} {items : List Value}
    (hitems : ∀ item ∈ items, Reads bytes read (itemBytes item) (strip item)) :
    Reads bytes (readItems read items.length) (itemsBytes items) (stripItems items) := by
  induction items with
  | nil =>
    intro before after _
    rw [length_nil, readItems, itemsBytes, stripItems, length_nil, Nat.add_zero]
  | cons item items ih =>
    have hrest := ih fun other hother => hitems other (mem_cons_of_mem _ hother)
    intro before after hbytes
    rw [itemsBytes, append_assoc] at hbytes
    rw [length_cons, readItems, hitems item mem_cons_self before _ hbytes, ok_bind]
    dsimp only
    rw [hrest.after _ hbytes, ok_bind, itemsBytes, stripItems, length_append, Nat.add_assoc]
    rfl

theorem stripEntries_eq (props : Props Value) :
    stripEntries props = (definedEntries props).map fun entry => (entry.1, strip entry.2) := by
  induction props with
  | nil => rw [stripEntries]; rfl
  | cons entry props ih =>
    obtain ⟨key, value⟩ := entry
    rw [stripEntries, ih, definedEntries, definedEntries, filter_cons]
    cases hund : value.isUndefined <;> simp

theorem stripEntries_ordered {props : Props Value} (hord : props.Ordered) : Props.Ordered (stripEntries props) := by
  rw [stripEntries_eq]
  exact pairwise_map.mpr (List.Pairwise.filter _ hord)

theorem reads_readEntries {read : Nat → Except Fault (Value × Nat)} {props : Props Value}
    (hkeys : ∀ entry ∈ props, entry.2 ≠ .undefined → Reads bytes read (textBytes entry.1) (.text entry.1))
    (hval : ∀ entry ∈ props, entry.2 ≠ .undefined → Reads bytes read (itemBytes entry.2) (strip entry.2))
    (result : Props Value) (hord : Props.Ordered (result ++ stripEntries props)) :
    Reads bytes (readEntries read (definedEntries props).length result) (entriesBytes props)
      (result ++ stripEntries props) := by
  induction props generalizing result with
  | nil =>
    intro before after _
    rw [show (definedEntries []).length = 0 from rfl, readEntries, entriesBytes, stripEntries,
      length_nil, Nat.add_zero, append_nil]
  | cons entry props ih =>
    have hrest := ih (fun other hother => hkeys other (mem_cons_of_mem _ hother))
      fun other hother => hval other (mem_cons_of_mem _ hother)
    obtain ⟨key, value⟩ := entry
    rw [stripEntries] at hord ⊢
    rw [entriesBytes, definedEntries, filter_cons]
    by_cases hund : value.isUndefined = true
    · simp only [hund, Bool.not_true, Bool.false_eq_true, if_false, if_true, nil_append] at hord ⊢
      exact hrest result hord
    · have hdef : value ≠ .undefined := fun h => hund (isUndefined_iff.mpr h)
      rw [if_neg hund] at hord ⊢
      rw [if_neg hund, if_pos (by simpa using hund), length_cons]
      have hsplit : result ++ (key, strip value) :: stripEntries props =
          result ++ [(key, strip value)] ++ stripEntries props := by
        rw [append_assoc, singleton_append]
      rw [hsplit] at hord ⊢
      have hset := Props.set_last (pairwise_append.mp hord).1
      have hnew : (result.any fun entry => entry.1 = key) = false := by
        rw [any_eq_false]
        intro other hother
        have hkeyOrder := (pairwise_append.mp (pairwise_append.mp hord).1).2.2
          other hother _ (mem_singleton_self _)
        simpa using hkeyOrder.1
      intro before after hbytes
      rw [append_assoc, append_assoc] at hbytes
      rw [readEntries, hkeys _ mem_cons_self hdef before _ hbytes, ok_bind]
      simp only [hnew, Bool.false_eq_true, if_false]
      rw [(hval _ mem_cons_self hdef).after _ hbytes, ok_bind]
      dsimp only
      have hbytes' : bytes = before ++ ((textBytes key ++ itemBytes value) ++
          (entriesBytes props ++ after)) := by rw [hbytes, append_assoc]
      have hread := (hrest (result ++ [(key, strip value)]) hord).after _ hbytes'
      rw [length_append, ← Nat.add_assoc] at hread
      rw [hset]
      refine hread.trans ?_
      rw [length_append, length_append]
      simp only [Nat.add_assoc]

/-- **A value within the limits is read off its encoding.** -/
theorem Fits.reads {depth : Nat} (hfits : Fits options depth value) :
    Reads bytes (readItem options bytes (options.maxDepth + 1 - depth)) (itemBytes value) (strip value) := by
  have hbud : ∀ {depth : Nat}, depth ≤ options.maxDepth →
      options.maxDepth + 1 - depth = options.maxDepth + 1 - (depth + 1) + 1 := by
    intro depth hdepth
    omega
  induction hfits with
  | null hdepth =>
    rw [hbud hdepth, itemBytes, strip]
    exact reads_simple 22 (by omega) fun _ _ _ => rfl
  | bool hdepth value =>
    rw [hbud hdepth, itemBytes, strip]
    cases value with
    | false => exact reads_simple 20 (by omega) fun _ _ _ => rfl
    | true => exact reads_simple 21 (by omega) fun _ _ _ => rfl
  | number hdepth hvalue =>
    rw [hbud hdepth, itemBytes, strip]
    exact reads_number hvalue
  | text hdepth hvalue hlen =>
    rw [hbud hdepth, itemBytes, strip]
    exact reads_text hvalue hlen
  | bytes hdepth hlen =>
    rw [hbud hdepth, itemBytes, strip]
    exact reads_bytes hlen
  | array hdepth hlen hdef hitems ih =>
    rw [hbud hdepth, itemBytes, strip]
    refine reads_item (by omega)
      (le_maxSafeInteger_of_le_maxUint32 (hlen.trans options.maxContainerLength_le)) ?_
    intro information argumentData hinf harg before after hbytes
    rw [append_assoc] at hbytes
    rw [readMajor, reads_readLength .array hinf hlen harg before _ hbytes, ok_bind]
    dsimp only
    rw [(reads_readItems ih).after _ hbytes, ok_bind, length_append, Nat.add_assoc]
    rfl
  | object hdepth hord hlen hkeys hval ih =>
    rw [hbud hdepth, itemBytes, strip]
    refine reads_item (by omega)
      (le_maxSafeInteger_of_le_maxUint32 (hlen.trans options.maxContainerLength_le)) ?_
    intro information argumentData hinf harg before after hbytes
    rw [append_assoc] at hbytes
    rw [readMajor, reads_readLength .map hinf hlen harg before _ hbytes, ok_bind]
    dsimp only
    have hents := reads_readEntries
      (fun entry hentry hdef => by
        rw [hbud (hval entry hentry hdef).depth_le]
        exact reads_text (hkeys entry hentry hdef).1 (hkeys entry hentry hdef).2) ih []
      (stripEntries_ordered hord)
    rw [hents.after _ hbytes, ok_bind, length_append, Nat.add_assoc]
    rfl

theorem create_finish (maxByteLength : Nat) : (CborWriter.create maxByteLength).finish = [] := rfl

variable {cborOptions : CborOptions}

section

variable (hopts : resolveOptions cborOptions = .ok options)

include hopts

theorem Fits.encodeCbor_eq (hfits : Fits options 0 value) :
    encodeCbor value cborOptions = if (itemBytes value).length ≤ options.maxByteLength then .ok (itemBytes value)
      else throwCbor (.byteLengthExceeds options.maxByteLength) := by
  rw [encodeCbor, hopts, ok_bind]
  split_ifs with hlen
  · obtain ⟨next, hnext, hfinish, _⟩ :=
      hfits.emits.fits (.create options.maxByteLength) ((Nat.zero_add _).le.trans hlen)
    rw [hnext, ok_bind, hfinish, create_finish, nil_append]
    rfl
  · have hexc := hfits.emits.exceeds (.create options.maxByteLength) (Nat.zero_le _)
      ((Nat.not_le.mp hlen).trans_eq (Nat.zero_add _).symm)
    rw [hexc]
    rfl

theorem Fits.decodeCbor_eq (hfits : Fits options 0 value) (hlen : (itemBytes value).length ≤ options.maxByteLength) :
    decodeCbor (itemBytes value) cborOptions = .ok (strip value) := by
  have hread := hfits.reads [] [] (append_nil _).symm
  rw [length_nil, Nat.zero_add, Nat.sub_zero] at hread
  rw [decodeCbor, hopts, ok_bind, if_neg (Nat.not_lt.mpr hlen), hread, ok_bind]
  simp only [ne_eq, not_true_eq_false, if_false]
  rfl

theorem encodeCbor_error {fault : Fault}
    (henc : encodeCbor value cborOptions = .error fault) : ∃ error, fault = .cborError error := by
  rw [encodeCbor, hopts, ok_bind] at henc
  rcases safe_encodeValue options 0 value (.create options.maxByteLength) (Nat.zero_le _) with
    ⟨next, hnext, _⟩ | ⟨error, herror⟩
  · rw [hnext] at henc
    exact nomatch henc
  · rw [herror] at henc
    exact ⟨error, (Except.error.inj henc).symm⟩

end

/-- **Round trip.** When a supported value is encoded, the result is its encoding and decodes under
the same options to the value without its undefined-valued properties. When it is not, the encoding
is longer than the byte limit, or a limit is exceeded or an array holds undefined somewhere inside
the value. -/
theorem decodeCbor_encodeCbor {cborOptions : CborOptions} {options : ResolvedCborOptions}
    (hopts : resolveOptions cborOptions = .ok options) {value : Value} (hsup : Supported value) :
    (∀ bytes, encodeCbor value cborOptions = .ok bytes →
      bytes = itemBytes value ∧ decodeCbor bytes cborOptions = .ok (strip value)) ∧
    ∀ fault, encodeCbor value cborOptions = .error fault → (∃ error, fault = .cborError error) ∧
        (options.maxByteLength < (itemBytes value).length ∨ Exceeds options 0 value) := by
  refine ⟨fun bytes henc => ?_, fun fault henc => ?_⟩
  · have hwrt := henc
    rw [encodeCbor, hopts, ok_bind] at hwrt
    obtain ⟨next, hnext, _⟩ := bind_eq_ok.mp hwrt
    have hfits := hsup.fits hnext
    rw [hfits.encodeCbor_eq hopts] at henc
    split_ifs at henc with hlen
    · obtain rfl := Except.ok.inj henc
      exact ⟨rfl, hfits.decodeCbor_eq hopts hlen⟩
    · exact nomatch henc
  · refine ⟨encodeCbor_error hopts henc, ?_⟩
    by_cases hexc : Exceeds options 0 value
    · exact .inr hexc
    · rw [(fits_of_not_exceeds hsup hexc).encodeCbor_eq hopts] at henc
      split_ifs at henc with hlen
      exact .inl (Nat.not_le.mp hlen)

/-- An object with an undefined-valued property, a nested array and minus zero under the default
options. -/
theorem decodeCbor_encodeCbor_sample :
    let value : Value := .object [(js "a", .array [.number (.int (-3)), .number .negZero]),
      (js "b", .undefined), (js "c", .bytes [7, 8])]
    ∃ bytes, encodeCbor value {} = .ok bytes ∧ decodeCbor bytes {} = .ok (.object
      [(js "a", .array [.number (.int (-3)), .number .negZero]), (js "c", .bytes [7, 8])]) := by
  intro value
  obtain ⟨options, hopts, hbytes, hbox, hdepth⟩ : ∃ options, resolveOptions {} = .ok options ∧
      options.maxByteLength = defaultMaxCborByteLength ∧
        options.maxContainerLength = defaultMaxCborContainerLength ∧
          options.maxDepth = defaultMaxCborDepth := ⟨_, rfl, rfl, rfl, rfl⟩
  have hkeys : ∀ c ∈ ['a', 'b', 'c'],
      IsScalarText (utf16 [c]) ∧ (textEncode (utf16 [c])).length ≤ options.maxByteLength := by
    intro c hc
    refine ⟨⟨[c], rfl⟩, ?_⟩
    simp only [mem_cons, not_mem_nil, or_false] at hc
    rw [hbytes]
    rcases hc with rfl | rfl | rfl <;> decide
  have hitems : Fits options 1 (.array [.number (.int (-3)), .number .negZero]) := by
    refine .array (hdepth ▸ by decide) (hbox ▸ by decide) (by simp) fun item hitem => ?_
    simp only [mem_cons, not_mem_nil, or_false] at hitem
    rcases hitem with rfl | rfl
    · exact .number (hdepth ▸ by decide) (show (-3 : Int).natAbs ≤ maxSafeInteger by decide)
    · exact .number (hdepth ▸ by decide) trivial
  have hfits : Fits options 0 value := by
    refine .object (hdepth ▸ by decide) (by decide) (hbox ▸ by decide) ?_ ?_
    all_goals
      intro entry hentry hdef
      simp only [mem_cons, not_mem_nil, or_false] at hentry
      rcases hentry with rfl | rfl | rfl
    · exact hkeys 'a' (by decide)
    · exact hkeys 'b' (by decide)
    · exact hkeys 'c' (by decide)
    · exact hitems
    · exact absurd rfl hdef
    · exact .bytes (hdepth ▸ by decide) (hbytes ▸ by decide)
  have hlen : (itemBytes value).length ≤ options.maxByteLength := hbytes ▸ by decide
  have henc := hfits.encodeCbor_eq hopts
  rw [if_pos hlen] at henc
  exact ⟨_, henc, ((decodeCbor_encodeCbor hopts hfits.supported).1 _ henc).2⟩

/-- What was encoded fits its limits. -/
theorem Supported.encoded {bytes : Bytes} (hsup : Supported value) (henc : encodeCbor value cborOptions = .ok bytes) :
    ∃ options, resolveOptions cborOptions = .ok options ∧ Fits options 0 value ∧ bytes = itemBytes value ∧
      bytes.length ≤ options.maxByteLength := by
  obtain ⟨options, hopts, hwrite⟩ := bind_eq_ok.mp henc
  obtain ⟨writer, hwrite, -⟩ := bind_eq_ok.mp hwrite
  have hfits := hsup.fits hwrite
  rw [hfits.encodeCbor_eq hopts] at henc
  split_ifs at henc with hlen
  · obtain rfl := Except.ok.inj henc
    exact ⟨options, hopts, hfits, rfl, hlen⟩
  · cases henc

/-- **No encoding begins another one.** Two supported values of which the encoding of one begins that of the other
have the same encoding, and differ in undefined-valued properties only. -/
theorem encodeCbor_prefixFree {left right : Value} (hleft : Supported left) (hright : Supported right)
    {first second : Bytes} (hfirst : encodeCbor left cborOptions = .ok first)
    (hsecond : encodeCbor right cborOptions = .ok second) (hbegins : first <+: second) :
    first = second ∧ strip left = strip right := by
  obtain ⟨options, hopts, hfits, rfl, -⟩ := hleft.encoded hfirst
  obtain ⟨_, hsame, hother, rfl, -⟩ := hright.encoded hsecond
  obtain rfl := Except.ok.inj (hopts.symm.trans hsame)
  obtain ⟨rest, hrest⟩ := id hbegins
  have hread := hfits.reads [] rest hrest.symm
  rw [hother.reads [] [] (append_nil _).symm] at hread
  obtain ⟨hstrip, hlength⟩ := Prod.mk.inj (Except.ok.inj hread)
  exact ⟨hbegins.eq_of_length (Nat.add_left_cancel hlength).symm, hstrip.symm⟩

theorem encodeCbor_prefixFree_sample : strip (.object [(js "a", .undefined)]) = strip (.object []) := by
  have hencode {value : Value} (hbytes : (encodeCbor value {}).toOption = some [0xa0]) :
      encodeCbor value {} = .ok [0xa0] := by
    cases henc : encodeCbor value {} <;> rw [henc] at hbytes <;> cases hbytes
    rfl
  exact (encodeCbor_prefixFree (.object (by decide) (by simp) (by simp)) (.object (by decide) (by simp) (by simp))
    (hencode (by decide +kernel)) (hencode (by decide +kernel)) (prefix_refl _)).2

end PiRp.Cbor
