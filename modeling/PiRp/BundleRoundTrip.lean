import PiRp.BundleArchive
import PiRp.JsonDecimal
import PiRp.JsonTextScalar

/-! An exported bundle is imported again. The reader finds the name and the size the writer put into a
header, so it takes the archive apart into the members that were written; the staged objects are those
of the walk, and a walk over them is the walk of the export. -/

namespace PiRp.Bundle

open List BundleRoot ObjectHash

/-! ### Fields of a header -/

variable {offset : Nat}

theorem setBytes_getElem? {target source : Bytes} (hfits : offset + source.length ≤ target.length) (index : Nat) :
    (setBytes target source offset)[index]? =
      if offset ≤ index ∧ index < offset + source.length then source[index - offset]? else target[index]? := by
  rw [setBytes, append_assoc]
  have htake : (target.take offset).length = offset := by rw [length_take]; omega
  by_cases hbef : index < offset
  · rw [getElem?_append_left (by omega), getElem?_take_of_lt hbef, if_neg (by omega)]
  · rw [getElem?_append_right (by omega), htake]
    by_cases hins : index < offset + source.length
    · rw [getElem?_append_left (by omega), if_pos (by omega)]
    · rw [getElem?_append_right (by omega), getElem?_drop, if_neg (by omega)]
      congr 1
      omega

theorem subarray_getElem? (bytes : Bytes) (start stop index : Nat) :
    (subarray bytes start stop)[index]? = if index < stop - start then bytes[start + index]? else none := by
  rw [subarray, getElem?_take, getElem?_drop]

variable {start stop : Nat}

theorem subarray_setBytes_apart {target source : Bytes} (hfits : offset + source.length ≤ target.length)
    (hapart : stop ≤ offset ∨ offset + source.length ≤ start) :
    subarray (setBytes target source offset) start stop = subarray target start stop := by
  apply ext_getElem?
  intro index
  rw [subarray_getElem?, subarray_getElem?]
  split_ifs with hindex
  · rw [setBytes_getElem? hfits, if_neg (by omega)]
  · rfl

theorem subarray_setBytes_self {target source : Bytes}
    (hfits : offset + source.length ≤ target.length) (hstop : offset + source.length ≤ stop) :
    subarray (setBytes target source offset) offset stop =
      source ++ subarray target (offset + source.length) stop := by
  apply ext_getElem?
  intro index
  rw [subarray_getElem?, setBytes_getElem? hfits]
  by_cases hins : index < source.length
  · rw [getElem?_append_left hins, if_pos (by omega), if_pos (by omega), Nat.add_sub_cancel_left]
  · rw [getElem?_append_right (by omega), subarray_getElem?]
    have hindex : offset + source.length + (index - source.length) = offset + index := by omega
    by_cases hstop : index < stop - offset
    · rw [if_pos hstop, if_neg (by omega), if_pos (by omega), hindex]
    · rw [if_neg hstop, if_neg (by omega)]

theorem subarray_zeros {length : Nat} (hfits : stop ≤ length) :
    subarray (List.replicate length 0) start stop = List.replicate (stop - start) 0 := by
  rw [subarray, drop_replicate, take_replicate]
  congr 1
  omega

theorem textField_length (length : Nat) (value : JsStr) : ((textEncode value).take length).length ≤ length := by
  rw [length_take]
  omega

variable {bytes : Bytes}

theorem putText_length {length : Nat} (value : JsStr)
    (hfits : offset + length ≤ bytes.length) : (putText bytes offset length value).length = bytes.length :=
  setBytes_length ((Nat.add_le_add_left (textField_length length value) offset).trans hfits)

theorem subarray_putText_apart {length : Nat} (value : JsStr)
    (hfits : offset + length ≤ bytes.length) (hapart : stop ≤ offset ∨ offset + length ≤ start) :
    subarray (putText bytes offset length value) start stop = subarray bytes start stop := by
  have hlen := textField_length length value
  exact subarray_setBytes_apart (by omega) (by omega)

theorem subarray_putText_self {length : Nat} {value : JsStr}
    (hvalue : (textEncode value).length ≤ length) (hfits : offset + length ≤ bytes.length)
    (hstop : offset + length ≤ stop) : subarray (putText bytes offset length value) offset stop =
      textEncode value ++ subarray bytes (offset + (textEncode value).length) stop := by
  rw [putText, take_of_length_le hvalue]
  exact subarray_setBytes_self (by omega) (by omega)

/-! ### Octal numbers -/

theorem octalText_small {value : Nat} (hvalue : value < 8) : octalText value = [UInt16.ofNat (0x30 + value)] := by
  rw [octalText, Nat.toDigits_of_lt_base hvalue]
  interval_cases value <;> rfl

theorem octalText_large {value : Nat} (hvalue : 8 ≤ value) :
    octalText value = octalText (value / 8) ++ [UInt16.ofNat (0x30 + value % 8)] := by
  have hdigit : value % 8 < 8 := Nat.mod_lt _ (by decide)
  have hlast : octalText (value % 8) = [UInt16.ofNat (0x30 + value % 8)] := octalText_small hdigit
  rw [← hlast, octalText, Nat.toDigits_of_base_le (by decide) hvalue, map_append, octalText,
    octalText, Nat.toDigits_of_lt_base hdigit]

theorem octalText_spec (value : Nat) :
    octalValue (octalText value) = value ∧ ∀ unit ∈ octalText value, isOctal unit = true := by
  induction value using Nat.strongRecOn with
  | ind value ih =>
    have hunit : ∀ digit < 8, (UInt16.ofNat (0x30 + digit)).toNat = 0x30 + digit := by decide
    have hoctal : ∀ digit < 8, isOctal (UInt16.ofNat (0x30 + digit)) = true := by decide
    by_cases hvalue : value < 8
    · rw [octalText_small hvalue, octalValue, foldl_cons, foldl_nil, hunit value hvalue]
      exact ⟨by omega, forall_mem_singleton.mpr (hoctal value hvalue)⟩
    · have hdigit : value % 8 < 8 := Nat.mod_lt _ (by decide)
      obtain ⟨hfront, hunits⟩ := ih (value / 8) (by omega)
      rw [octalText_large (by omega)]
      refine ⟨?_, forall_mem_append.mpr ⟨hunits, forall_mem_singleton.mpr (hoctal _ hdigit)⟩⟩
      rw [octalValue, foldl_append, ← octalValue, hfront, foldl_cons, foldl_nil, hunit _ hdigit]
      omega

theorem padStart_spec (width value : Nat) : octalValue (padStart width (octalText value)) = value ∧
      ∀ unit ∈ padStart width (octalText value), isOctal unit = true := by
  have hzeros : ∀ count, (List.replicate count (0x30 : UInt16)).foldl
      (fun value unit => value * 8 + (unit.toNat - 0x30)) 0 = 0 := by
    intro count
    induction count with
    | zero => rfl
    | succ count ih => rw [replicate_succ, foldl_cons]; exact ih
  obtain ⟨hvalue, hunits⟩ := octalText_spec value
  refine ⟨?_, forall_mem_append.mpr ⟨fun unit hunit => ?_, hunits⟩⟩
  · rw [padStart, octalValue, foldl_append, hzeros]
    exact hvalue
  · rw [eq_of_mem_replicate hunit]
    decide

theorem length_padStart {width value : Nat} (hwidth : 0 < width) (hvalue : value < 8 ^ width) :
    (padStart width (octalText value)).length = width := by
  have hlen : (octalText value).length ≤ width := by
    rw [octalText, length_map]
    exact (Nat.length_toDigits_le_iff (by decide) hwidth).mpr hvalue
  rw [padStart, length_append, length_replicate]
  omega

variable {text : JsStr}

theorem isAscii_of_octal (htext : ∀ unit ∈ text, isOctal unit = true) : IsAscii text := by
  intro unit hunit
  have hoctal := htext unit hunit
  simp only [isOctal, Bool.and_eq_true, decide_eq_true_eq] at hoctal
  omega

theorem parseOctal_digits (htext : ∀ unit ∈ text, isOctal unit = true)
    (hne : text ≠ []) : parseOctal text = some (octalValue text) := by
  obtain ⟨unit, rest, rfl⟩ := exists_cons_of_ne_nil hne
  have hoctal : 0x30 ≤ unit.toNat ∧ unit.toNat ≤ 0x37 := by
    simpa only [isOctal, Bool.and_eq_true, decide_eq_true_eq] using htext unit mem_cons_self
  have hspace : isSpace unit = false := by
    have hall : ∀ value, 0x30 ≤ value → value ≤ 0x37 → isSpace (UInt16.ofNat value) = false := by
      intro value hlow hhigh
      interval_cases value <;> decide
    have hunit := hall unit.toNat hoctal.1 hoctal.2
    rwa [UInt16.ofNat_toNat] at hunit
  have hdig : parseDigits (unit :: rest) = some (octalValue (unit :: rest)) := by
    rw [parseDigits, takeWhile_eq_self_iff.mpr htext]
    rfl
  rw [parseOctal, dropWhile_cons_of_neg (by rw [hspace]; exact Bool.false_ne_true)]
  split
  · rename_i heq
    exact absurd hoctal (by simp [(List.cons.inj heq).1])
  · rename_i heq
    exact absurd hoctal (by simp [(List.cons.inj heq).1])
  · exact hdig

/-! ### Headers -/

theorem stripNul_padded (htext : ∀ unit ∈ text, unit ≠ 0) (count : Nat) :
    stripNul (text ++ List.replicate count 0) = text := by
  induction text with
  | nil =>
    cases count with
    | zero => rfl
    | succ count =>
      rw [nil_append, replicate_succ, stripNul, if_pos]
      have hplain : (List.replicate count (0 : UInt16)).any isLineTerminator = false := by
        rw [any_eq_false]
        intro unit hunit
        rw [eq_of_mem_replicate hunit]
        decide
      rw [hplain]
      rfl
  | cons unit rest ih =>
    have hunit : unit ≠ 0 := htext unit mem_cons_self
    rw [cons_append, stripNul, if_neg (by simp [hunit]),
      ih fun other hother => htext other (mem_cons_of_mem _ hother)]

theorem decoderDecode_padded (htext : IsAscii text) {count : Nat} (hlen : text.length + count ≤ block) :
    decoderDecode (textEncode text ++ List.replicate count 0) = some (text ++ List.replicate count 0) := by
  have hzeros : IsAscii (List.replicate count 0) := by
    intro unit hunit
    rw [eq_of_mem_replicate hunit]
    decide
  have hpad : textEncode (List.replicate count 0) = List.replicate count 0 := by
    rw [textEncode_ascii hzeros, map_replicate]
    rfl
  have hall : IsAscii (text ++ List.replicate count 0) :=
    forall_mem_append.mpr ⟨htext, hzeros⟩
  rw [← hpad, ← textEncode_append htext.isScalarText hzeros.isScalarText]
  refine decoderDecode_textEncode hall.isScalarText (fun hmark => ?_) ?_
  · have hunit := hall _ (mem_of_mem_head? hmark)
    exact absurd hunit (by decide)
  · have hblock : block ≤ maxStringLength := by decide
    rw [length_append, length_replicate]
    omega

theorem length_zeros : (List.replicate block (0 : UInt8)).length = 512 := length_replicate

section

variable (name : JsStr)

theorem nameField_length : (nameField name).length = 512 := by
  rw [nameField, putText_length _ (by rw [length_zeros]; omega), length_zeros]

theorem ownerFields_length : (ownerFields name).length = 512 := by
  have hname := nameField_length name
  simp only [ownerFields, putOctal]
  rw [putText_length, putText_length, putText_length, hname]
  all_goals simp only [putText_length, hname, Nat.reduceAdd, Nat.reduceSub, Nat.reduceLeDiff]

theorem sizeFields_length (size : Nat) : (sizeFields name size).length = 512 := by
  have howner := ownerFields_length name
  simp only [sizeFields, putOctal]
  rw [putText_length, putText_length, howner]
  all_goals simp only [putText_length, howner, Nat.reduceAdd, Nat.reduceSub, Nat.reduceLeDiff]

theorem typeFields_length (size : Nat) : (typeFields name size).length = 512 := by
  have hsize := sizeFields_length name size
  have hspac : (setBytes (sizeFields name size) (List.replicate 8 32) 148).length = 512 := by
    rw [setBytes_length (by rw [hsize, length_replicate]; omega), hsize]
  rw [typeFields, setBytes_length (by rw [hspac, length_singleton]; omega), hspac]

theorem headerFields_length (size : Nat) : (headerFields name size).length = 512 := by
  have htype := typeFields_length name size
  rw [headerFields, putText_length, putText_length, htype]
  all_goals simp only [putText_length, htype, Nat.reduceAdd, Nat.reduceLeDiff]

theorem tarHeader_length (size : Nat) : (tarHeader name size).length = 512 := by
  have hfiel := headerFields_length name size
  rw [tarHeader, setBytes_length, putText_length _ (by omega), hfiel]
  rw [putText_length _ (by omega), hfiel, length_singleton]
  omega

theorem subarray_tarHeader (size : Nat) (hapart : stop ≤ 148 ∨ 156 ≤ start) :
    subarray (tarHeader name size) start stop = subarray (headerFields name size) start stop := by
  have hfiel := headerFields_length name size
  rw [tarHeader, subarray_setBytes_apart, subarray_putText_apart _ (by omega) (by omega)]
  · rw [putText_length _ (by omega), hfiel, length_singleton]
    omega
  · rw [length_singleton]
    omega

theorem subarray_headerFields (size : Nat) (hstop : stop ≤ 257) :
    subarray (headerFields name size) start stop = subarray (typeFields name size) start stop := by
  have htype := typeFields_length name size
  have hustar : (putText (typeFields name size) 257 6 ustar).length = 512 := by
    rw [putText_length _ (by omega), htype]
  rw [headerFields, subarray_putText_apart _ (by omega) (by omega),
    subarray_putText_apart _ (by omega) (by omega)]

theorem subarray_typeFields (size : Nat) (hstop : stop ≤ 136) :
    subarray (typeFields name size) start stop = subarray (putOctal (ownerFields name) 124 12 size) start stop := by
  have hsize := sizeFields_length name size
  have howner := ownerFields_length name
  have hspac : (setBytes (sizeFields name size) (List.replicate 8 32) 148).length = 512 := by
    rw [setBytes_length (by rw [hsize, length_replicate]; omega), hsize]
  rw [typeFields, subarray_setBytes_apart (by rw [hspac, length_singleton]; omega) (by omega),
    subarray_setBytes_apart (by rw [hsize, length_replicate]; omega) (by omega), sizeFields]
  simp only [putOctal]
  exact subarray_putText_apart _ (by rw [putText_length _ (by omega), howner]; omega) (by omega)

theorem subarray_ownerFields (hapart : stop ≤ 100 ∨ 124 ≤ start) :
    subarray (ownerFields name) start stop = subarray (nameField name) start stop := by
  have hname := nameField_length name
  simp only [ownerFields, putOctal]
  have hmode : (putText (nameField name) 100 (8 - 1) (padStart (8 - 1) (octalText 0o644))).length = 512 := by
    rw [putText_length _ (by omega), hname]
  have huser := putText_length (padStart (8 - 1) (octalText 0))
    (show 108 + (8 - 1) ≤ (putText (nameField name) 100 (8 - 1)
      (padStart (8 - 1) (octalText 0o644))).length by omega)
  rw [subarray_putText_apart _ (by omega) (by omega), subarray_putText_apart _ (by omega) (by omega),
    subarray_putText_apart _ (by omega) (by omega)]

end

/-- A name that fits the header. -/
structure IsMemberName (name : JsStr) : Prop where
  ascii : IsAscii name
  nonzero : ∀ unit ∈ name, unit ≠ 0
  length : name.length ≤ 100

theorem IsAscii.encode_length (htext : IsAscii text) : (textEncode text).length = text.length := by
  rw [textEncode_ascii htext, length_map]

theorem headerName_tarHeader {name : JsStr} (hname : IsMemberName name) (size : Nat) :
    headerName (tarHeader name size) = some name := by
  have hlen := IsAscii.encode_length hname.ascii
  have hfits := hname.length
  have hfield : subarray (tarHeader name size) 0 100 =
      textEncode name ++ List.replicate (100 - name.length) 0 := by
    have howner := ownerFields_length name
    rw [subarray_tarHeader _ _ (by omega), subarray_headerFields _ _ (by omega),
      subarray_typeFields _ _ (by omega), putOctal, subarray_putText_apart _ (by omega) (by omega),
      subarray_ownerFields _ (by omega), nameField,
      subarray_putText_self (by omega) (by rw [length_zeros]; omega) (by omega),
      subarray_zeros (by rw [block]; omega), hlen, Nat.zero_add]
  rw [headerName, hfield, decoderDecode_padded hname.ascii (by rw [block]; omega), Option.map_some,
    stripNul_padded hname.nonzero]

theorem headerSize_tarHeader (name : JsStr) {size : Nat} (hsize : size < 8 ^ 11) :
    headerSize (tarHeader name size) = some size := by
  obtain ⟨hvalue, hoctal⟩ := padStart_spec 11 size
  have hascii := isAscii_of_octal hoctal
  have hdig : (textEncode (padStart 11 (octalText size))).length = 11 := by
    rw [IsAscii.encode_length hascii, length_padStart (by decide) hsize]
  have hfield : subarray (tarHeader name size) 124 136 =
      textEncode (padStart 11 (octalText size)) ++ List.replicate 1 0 := by
    have howner := ownerFields_length name
    rw [subarray_tarHeader _ _ (by omega), subarray_headerFields _ _ (by omega),
      subarray_typeFields _ _ (by omega), putOctal, Nat.add_one_sub_one,
      subarray_putText_self (by omega) (by omega) (by omega), hdig,
      subarray_ownerFields _ (by omega), nameField,
      subarray_putText_apart _ (by rw [length_zeros]; omega) (by omega),
      subarray_zeros (by rw [block]; omega)]
  have hne : padStart 11 (octalText size) ≠ [] := by
    intro hnil
    have hlen := length_padStart (by decide) hsize
    rw [hnil] at hlen
    exact nomatch hlen
  have hnon : ∀ unit ∈ padStart 11 (octalText size), unit ≠ 0 := by
    rintro unit hunit rfl
    exact absurd (hoctal 0 hunit) (by decide)
  rw [headerSize, hfield, decoderDecode_padded hascii (by
    rw [length_padStart (by decide) hsize, block]; omega), Option.bind_some, stripNul_padded hnon,
    parseOctal_digits hoctal hne, hvalue, Option.filter_some, if_pos]
  have hsafe : 8 ^ 11 ≤ maxSafeInteger := by decide
  exact decide_eq_true (by omega)

theorem tarHeader_magic (name : JsStr) (size : Nat) :
    decoderDecode (subarray (tarHeader name size) 257 263) = some ustar ∧ (tarHeader name size)[156]? = some 48 := by
  have htype := typeFields_length name size
  have hustar : (putText (typeFields name size) 257 6 ustar).length = 512 := by
    rw [putText_length _ (by omega), htype]
  have henc : (textEncode ustar).length = 6 := by decide
  constructor
  · have hfield : subarray (tarHeader name size) 257 263 = textEncode ustar := by
      rw [subarray_tarHeader _ _ (by omega), headerFields, subarray_putText_apart _ (by omega) (by omega),
        subarray_putText_self (by omega) (by omega) (by omega), henc]
      simp [subarray]
    rw [hfield]
    decide
  · have hsizes := sizeFields_length name size
    have hspac : (setBytes (sizeFields name size) (List.replicate 8 32) 148).length = 512 := by
      rw [setBytes_length (by rw [hsizes, length_replicate]; omega), hsizes]
    have hfield : subarray (tarHeader name size) 156 157 = [48] := by
      rw [subarray_tarHeader _ _ (by omega), subarray_headerFields _ _ (by omega), typeFields,
        subarray_setBytes_self (by rw [hspac, length_singleton]; omega)
          (by rw [length_singleton])]
      simp [subarray]
    have hbyte := subarray_getElem? (tarHeader name size) 156 157 0
    rw [hfield] at hbyte
    exact hbyte.symm

theorem writeMember_flatten (name : JsStr) (bytes : Bytes) : (writeMember name bytes).flatten =
      tarHeader name bytes.length ++ (bytes ++ List.replicate (paddingOf bytes.length) 0) := by
  rw [writeMember]
  split_ifs with hpad
  · simp [hpad]
  · simp

/-- **The reader takes a written member off the archive.** -/
theorem member_writeMember {name : JsStr} (hname : IsMemberName name)
    (hsize : bytes.length < 8 ^ 11) (rest : Bytes) : member ((writeMember name bytes).flatten ++ rest) =
      some (some ⟨name, bytes.length, bytes⟩, rest) := by
  have hhead := tarHeader_length name bytes.length
  obtain ⟨hmagic, htype⟩ := tarHeader_magic name bytes.length
  have hsplit : (writeMember name bytes).flatten ++ rest =
      tarHeader name bytes.length ++ (bytes ++ (List.replicate (paddingOf bytes.length) 0 ++ rest)) := by
    rw [writeMember_flatten, append_assoc, append_assoc]
  have htake : ((writeMember name bytes).flatten ++ rest).take block = tarHeader name bytes.length := by
    rw [hsplit]
    exact take_left' hhead
  have hdrop : ((writeMember name bytes).flatten ++ rest).drop block =
      bytes ++ (List.replicate (paddingOf bytes.length) 0 ++ rest) := by
    rw [hsplit]
    exact drop_left' hhead
  have hnon : (tarHeader name bytes.length).all (· = 0) = false := by
    rw [all_eq_false]
    exact ⟨48, mem_of_getElem? htype, by decide⟩
  have hread : readMember (tarHeader name bytes.length)
      (bytes ++ (List.replicate (paddingOf bytes.length) 0 ++ rest)) =
      some (⟨name, bytes.length, bytes⟩, rest) := by
    have hpad : (bytes ++ (List.replicate (paddingOf bytes.length) 0 ++ rest)).drop
        (bytes.length + paddingOf bytes.length) = rest := by
      rw [← append_assoc]
      exact drop_left' (by rw [length_append, length_replicate])
    rw [readMember, if_pos (by rw [hmagic, htype]; decide), headerName_tarHeader hname, Option.bind_some,
      headerSize_tarHeader name hsize, Option.bind_some,
      if_pos (by rw [length_append]; omega), take_left' rfl, hpad]
  rw [member, if_neg (by rw [hsplit, length_append, hhead, block]; omega), htake, hnon,
    if_neg Bool.false_ne_true, hdrop, hread, Option.map_some]

theorem member_end (rest : Bytes) :
    member (List.replicate (block * 2) 0 ++ rest) = some (none, List.replicate block 0 ++ rest) := by
  have hsplit : List.replicate (block * 2) (0 : UInt8) ++ rest =
      List.replicate block 0 ++ (List.replicate block 0 ++ rest) := by
    rw [← append_assoc, replicate_append_replicate]
    rfl
  rw [hsplit, member, if_neg (by rw [length_append, length_replicate]; omega),
    take_left' length_replicate, drop_left' length_replicate, if_pos]
  exact all_eq_true.mpr fun byte hbyte => decide_eq_true (eq_of_mem_replicate hbyte)

/-! ### The manifest -/

/-- A value that its text gives back as it is. -/
def IsExact (value : Json) : Prop := value.Serializable ∧ value.norm = value

theorem isExact_string (value : JsStr) : IsExact (.string value) := ⟨.string value, by rw [Json.norm]⟩

theorem isExact_int (value : Int) : IsExact (.number (.int value)) :=
  ⟨.number rfl, by rw [Json.norm, JsNumber.norm_int]⟩

theorem isExact_array {items : List Json} (hitems : ∀ item ∈ items, IsExact item) : IsExact (.array items) := by
  refine ⟨.array fun item hitem => (hitems item hitem).1, ?_⟩
  rw [Json.norm, Json.normItems_eq, map_congr_left fun item hitem => (hitems item hitem).2,
    map_id']

theorem isExact_map {α : Type*} {convert : α → Json} {items : List α}
    (hcon : ∀ item, IsExact (convert item)) : IsExact (.array (items.map convert)) := by
  refine isExact_array fun value hvalue => ?_
  obtain ⟨item, _, rfl⟩ := mem_map.mp hvalue
  exact hcon item

theorem isExact_object {props : Props Json} (hord : (props.map Prod.fst).Pairwise KeyOrder)
    (hval : ∀ entry ∈ props, IsExact entry.2) : IsExact (.object props) := by
  refine ⟨.object (pairwise_map.mp hord) fun entry hentry => (hval entry hentry).1, ?_⟩
  rw [Json.norm, Json.normProps_eq]
  have hsame : ∀ entry ∈ props, (entry.1, Json.norm entry.2) = entry := fun entry hentry =>
    Prod.ext rfl (hval entry hentry).2
  rw [map_congr_left hsame, map_id']

theorem isExact_root (root : BundleRoot) : IsExact root.toJson := by
  refine isExact_object (by decide : ([js "hash", js "codec"]).Pairwise KeyOrder) ?_
  simp only [forall_mem_cons]
  exact ⟨isExact_string _, isExact_string _, forall_mem_nil _⟩

theorem isExact_session (session : BundleSession) : IsExact session.toJson := by
  refine isExact_object
    (by decide : ([js "sessionId", js "checkpointIds", js "roots"]).Pairwise KeyOrder) ?_
  simp only [forall_mem_cons]
  exact ⟨isExact_string _, isExact_map isExact_string, isExact_map isExact_root, forall_mem_nil _⟩

theorem isExact_pin (pin : BundlePin) : IsExact pin.toJson := by
  rw [BundlePin.toJson]
  cases pin.reason with
  | none =>
    refine isExact_object (by decide : ([js "id", js "scope", js "root"]).Pairwise KeyOrder) ?_
    simp only [Option.map_none, Option.toList_none, append_nil, forall_mem_cons]
    exact ⟨isExact_string _, isExact_string _, isExact_string _, forall_mem_nil _⟩
  | some reason =>
    refine isExact_object
      (by decide : ([js "id", js "scope", js "root", js "reason"]).Pairwise KeyOrder) ?_
    simp only [Option.map_some, Option.toList_some, cons_append, nil_append, forall_mem_cons]
    exact ⟨isExact_string _, isExact_string _, isExact_string _, isExact_string _, forall_mem_nil _⟩

theorem isExact_closure (manifest : BundleManifest) : IsExact manifest.closureJson := by
  refine isExact_object
    (by decide : ([js "objectCount", js "totalBytes", js "digest"]).Pairwise KeyOrder) ?_
  simp only [forall_mem_cons]
  exact ⟨isExact_int _, isExact_int _, isExact_string _, forall_mem_nil _⟩

theorem isExact_manifest (manifest : BundleManifest) : IsExact manifest.toJson := by
  refine isExact_object (by decide : ([js "format", js "version", js "createdAt", js "sessions",
    js "roots", js "closure", js "pins"]).Pairwise KeyOrder) ?_
  simp only [forall_mem_cons]
  exact ⟨isExact_string _, isExact_int _, isExact_string _, isExact_map isExact_session,
    isExact_map isExact_root, isExact_closure manifest, isExact_map isExact_pin, forall_mem_nil _⟩

theorem manifestFields_toJson (manifest : BundleManifest) :
    manifestFields manifest.toJson = some (manifest.roots.map toJson,
      [(js "objectCount", .number (.int manifest.objectCount)),
        (js "totalBytes", .number (.int manifest.totalBytes)), (js "digest", .string manifest.digest)]) := by
  rfl

theorem jsonRoots_toJson (roots : List BundleRoot) : jsonRoots (roots.map toJson) = some (roots.map .object) := by
  induction roots with
  | nil => rfl
  | cons root rest ih =>
    have hroot : jsonRoot root.toJson = some (.object root) := rfl
    rw [map_cons, jsonRoots, hroot, Option.bind_some, ih, Option.map_some, map_cons]

section Archive

variable [JsonText.NumberText]

theorem decode_manifestText {manifest : BundleManifest} {text : JsStr} (htext : manifestText manifest = some text) :
    (decoderDecode (textEncode text)).bind JsonText.parse = some manifest.toJson ∧
      (textEncode text).length < 8 ^ 11 := by
  rw [manifestText] at htext
  split_ifs at htext with hlen
  obtain rfl := Option.some.inj htext
  obtain ⟨hser, hnorm⟩ := isExact_manifest manifest
  have hscal := JsonText.isScalarText_stringify hser.writable
  have hmark : (JsonText.stringify manifest.toJson).head? ≠ some 0xFEFF := by
    rw [BundleManifest.toJson, JsonText.stringify_object, head?_cons]
    decide
  constructor
  · rw [decoderDecode_textEncode hscal hmark hlen, Option.bind_some, JsonText.parse_stringify hser, hnorm]
  · have hbytes := (textEncode_length hscal).2
    have hbound : 3 * maxStringLength < 8 ^ 11 := by decide
    omega

end Archive

/-! ### The objects -/

theorem hashLe_total (left right : ObjectHash × Nat) : left.1 ≤ right.1 ∨ right.1 ≤ left.1 :=
  List.le_total left.1 right.1

theorem hashLe_trans {first second third : ObjectHash × Nat} (hleft : first.1 ≤ second.1)
    (hright : second.1 ≤ third.1) : first.1 ≤ third.1 :=
  List.le_trans hleft hright

instance : Std.Total fun left right : ObjectHash × Nat => left.1 ≤ right.1 := ⟨hashLe_total⟩

instance : IsTrans (ObjectHash × Nat) fun left right => left.1 ≤ right.1 :=
  ⟨fun _ _ _ hleft hright => hashLe_trans hleft hright⟩

theorem sortObjects_ascending {objects : List (ObjectHash × Nat)} (hnodup : (objects.map Prod.fst).Nodup) :
    (sortObjects objects).Pairwise fun left right => ¬ right.1 ≤ left.1 := by
  have hsor : (sortObjects objects).Pairwise fun left right => left.1 ≤ right.1 :=
    pairwise_insertionSort _ objects
  have hperm : (sortObjects objects).Perm objects := perm_insertionSort _ objects
  have hdist : (sortObjects objects).Pairwise fun left right => left.1 ≠ right.1 :=
    pairwise_map.mp ((hperm.map Prod.fst).nodup_iff.mpr hnodup)
  refine (hsor.and hdist).imp fun hboth hback => ?_
  exact hboth.2 (List.le_antisymm hboth.1 hback)

theorem isMemberName_object {hash : ObjectHash} (hhash : isObjectHash hash = true) :
    IsMemberName (objectsPath ++ hash) := by
  rw [isObjectHash, Bool.and_eq_true, decide_eq_true_eq, all_eq_true] at hhash
  obtain ⟨hlen, hunits⟩ := hhash
  have hhex : ∀ unit ∈ hash, unit.toNat < 0x80 ∧ unit ≠ 0 := by
    intro unit hunit
    have hrange := hunits unit hunit
    simp only [isHexUnit, Bool.or_eq_true, Bool.and_eq_true, decide_eq_true_eq] at hrange
    refine ⟨by omega, ?_⟩
    rintro rfl
    exact absurd hrange (by decide)
  refine ⟨forall_mem_append.mpr ⟨JsonText.forall_mem_of_all (by decide), fun unit hunit =>
      (hhex unit hunit).1⟩, forall_mem_append.mpr ⟨JsonText.forall_mem_of_all (by decide),
      fun unit hunit => (hhex unit hunit).2⟩, ?_⟩
  rw [length_append, hlen]
  decide

theorem objectName_object {hash : ObjectHash} (hhash : isObjectHash hash = true) :
    objectName (objectsPath ++ hash) = some hash := by
  have hdrop : (objectsPath ++ hash).drop objectsPath.length = hash := drop_left' rfl
  have hstar : objectsPath.isPrefixOf (objectsPath ++ hash) = true :=
    isPrefixOf_iff_prefix.mpr (prefix_append _ _)
  rw [objectName, hdrop, hstar, hhash]
  rfl

section Objects

variable [Sha256]

variable {store : ObjectStore} {chunks : List Bytes}

/-- **The reader stages the objects the writer wrote.** -/
theorem readObjects_writeObjects {objects : List (ObjectHash × Nat)}
    (hwrite : writeObjects store objects = some chunks)
    (hsizes : ∀ object ∈ objects, ∀ bytes, store.get? object.1 = some bytes → bytes.length < 8 ^ 11)
    (hasc : objects.Pairwise fun left right => ¬ right.1 ≤ left.1) {previous : JsStr}
    (hprev : ∀ object ∈ objects, ¬ object.1 ≤ previous) (staged : ObjectStore)
    (hnew : ∀ object ∈ objects, staged.has object.1 = false) {budget : Nat} (hbud : objects.length < budget) :
    ∃ result, readObjects (chunks.flatten ++ List.replicate (block * 2) 0) previous staged budget = some result ∧
      result.entries = staged.entries ++ objects.map fun object => (object.1, (store.get? object.1).getD []) := by
  induction objects generalizing chunks previous staged budget with
  | nil =>
    obtain rfl := Option.some.inj hwrite
    obtain ⟨budget, rfl⟩ := Nat.exists_eq_add_of_lt hbud
    refine ⟨staged, ?_, (append_nil _).symm⟩
    have hend := member_end []
    rw [append_nil] at hend
    rw [flatten_nil, nil_append, readObjects, hend, Option.bind_some]
  | cons object rest ih =>
    rw [writeObjects] at hwrite
    cases hget : store.get? object.1 with
    | none => rw [hget] at hwrite; exact nomatch hwrite
    | some bytes =>
      rw [hget] at hwrite
      simp only at hwrite
      split_ifs at hwrite with hhash
      obtain ⟨others, hoth, rfl⟩ := Option.map_eq_some_iff.mp hwrite
      obtain ⟨budget, rfl⟩ : ∃ remaining, budget = remaining + 1 := ⟨budget - 1, by omega⟩
      obtain ⟨hfirst, hrest⟩ := pairwise_cons.mp hasc
      have hvalid : isObjectHash object.1 = true := hhash ▸ isObjectHash_hashObject bytes
      have hfresh := hnew object mem_cons_self
      have hlater : ∀ other ∈ rest, (staged.set object.1 bytes).has other.1 = false := by
        intro other hother
        rw [JsMap.has, JsMap.get?_set, if_neg]
        · exact hnew other (mem_cons_of_mem _ hother)
        · intro heq
          exact hfirst other hother (heq ▸ List.le_refl _)
      have hleft : rest.length < budget := Nat.succ_lt_succ_iff.mp hbud
      obtain ⟨result, hread, hents⟩ := ih hoth
        (fun other hother => hsizes other (mem_cons_of_mem _ hother)) hrest hfirst _ hlater hleft
      refine ⟨result, ?_, ?_⟩
      · rw [flatten_append, append_assoc, readObjects,
          member_writeMember (isMemberName_object hvalid) (hsizes object mem_cons_self bytes hget),
          Option.bind_some]
        dsimp only
        rw [objectName_object hvalid, Option.bind_some, if_pos ⟨hprev object mem_cons_self, rfl, hhash⟩]
        exact hread
      · rw [hents, JsMap.entries_set_of_new bytes hfresh, append_assoc, map_cons, hget]
        rfl

variable [JsonText.NumberText]

theorem visited_length {stack : List ClosureRef} {visited : List (ObjectHash × Nat)}
    (htrav : Worklist.Traverses ClosureRef.hash (visit store.get?) stack [] visited)
    {object : ObjectHash × Nat} (hobj : object ∈ visited) :
    ∃ bytes, store.get? object.1 = some bytes ∧ object.2 = bytes.length ∧ bytes.length < 8 ^ 11 := by
  rcases htrav.record hobj with hold | ⟨item, refs, hhash, hvisit, _⟩
  · exact absurd hold not_mem_nil
  · obtain ⟨bytes, hashes, hget, _, hrefs, hfound⟩ := visit_get hvisit
    refine ⟨bytes, hhash ▸ hget, congrArg Prod.fst hfound, ?_⟩
    -- the walk has decoded the bytes into a string
    obtain ⟨value, hvalue, _⟩ := Option.bind_eq_some_iff.mp hrefs
    rw [parse] at hvalue
    cases hdec : decoderDecode bytes with
    | none => rw [hdec] at hvalue; exact nomatch hvalue
    | some text =>
      have hbound := length_of_decoderDecode hdec
      have hlimit : 3 * maxStringLength + 3 < 8 ^ 11 := by decide
      omega

theorem walk_unique {left right : List ClosureRoot} {first second : ClosureWalk}
    (hleft : walk left store = some first) (hright : walk right store = some second)
    (hroots : ∀ root, root ∈ left ↔ root ∈ right) : first = second := by
  have hsub : ∀ {left right : List ClosureRoot} {pending others : List ClosureRef}
      {visited found : List (ObjectHash × Nat)},
      pendingRoots left = some pending → pendingRoots right = some others →
      (∀ root ∈ left, root ∈ right) →
      Worklist.Traverses ClosureRef.hash (visit store.get?) pending.reverse [] visited →
      Worklist.Traverses ClosureRef.hash (visit store.get?) others.reverse [] found →
      ∀ object ∈ visited, object ∈ found := by
    intro left right pending others visited found hpend hoth hroots hvis hfound object hobj
    have hstart : ∀ item ∈ pending.reverse, item.hash ∈ found.map Prod.fst := by
      intro item hitem
      apply hfound.mem_of_stack
      obtain ⟨root, hroot, items, hitems, hmem⟩ :=
        (mem_pendingRoots hpend).mp (mem_reverse.mp hitem)
      exact mem_reverse.mpr ((mem_pendingRoots hoth).mpr ⟨root, hroots root hroot, items, hitems, hmem⟩)
    have hkey := hvis.inside (closed_of_traverses hfound) hstart (by simp) object hobj
    obtain ⟨other, hother, heq⟩ := mem_map.mp hkey
    obtain ⟨bytes, hget, hlen, _⟩ := visited_length hvis hobj
    obtain ⟨same, hsame, hother', _⟩ := visited_length hfound hother
    rw [heq, hget] at hsame
    obtain rfl := Option.some.inj hsame
    rwa [Prod.ext heq (hother'.trans hlen.symm)] at hother
  obtain ⟨pending, visited, hpend, hvis, rfl⟩ := walk_eq_some_iff.mp hleft
  obtain ⟨others, found, hoth, hfound, rfl⟩ := walk_eq_some_iff.mp hright
  have hvisitedNodup := hvis.nodup nodup_nil
  have hfoundNodup := hfound.nodup nodup_nil
  have hperm : visited.Perm found := by
    refine (perm_ext_iff_of_nodup hvisitedNodup.of_map hfoundNodup.of_map).mpr fun object => ?_
    exact ⟨hsub hpend hoth (fun root hroot => (hroots root).mp hroot) hvis hfound object,
      hsub hoth hpend (fun root hroot => (hroots root).mpr hroot) hfound hvis object⟩
  have hsort : sortObjects visited = sortObjects found := by
    have hsor : (sortObjects visited).Perm (sortObjects found) :=
      ((perm_insertionSort _ visited).trans hperm).trans (perm_insertionSort _ found).symm
    refine hsor.eq_of_pairwise (fun first second _ _ hfirst hsnd => ?_)
      (sortObjects_ascending hvisitedNodup) (sortObjects_ascending hfoundNodup)
    rcases hashLe_total first second with hle | hle
    · exact absurd hle hsnd
    · exact absurd hle hfirst
  rw [closureOf, closureOf, hsort]

omit [JsonText.NumberText] in
theorem putAll_get? (content : ObjectHash → Bytes) {objects : List (ObjectHash × Bytes)}
    (hobjec : ∀ object ∈ objects, hashObject object.2 = object.1 ∧ object.2 = content object.1)
    (target : ObjectStore) (index : Nat) : (putAll target (fun _ => false) index objects).2 = true ∧
      ∀ hash, (putAll target (fun _ => false) index objects).1.get? hash =
        if hash ∈ objects.map Prod.fst then some (content hash) else target.get? hash := by
  induction objects generalizing target index with
  | nil => exact ⟨rfl, fun hash => (if_neg not_mem_nil).symm⟩
  | cons object rest ih =>
    obtain ⟨hhash, hcont⟩ := hobjec object mem_cons_self
    obtain ⟨hdone, hget⟩ := ih (fun other hother => hobjec other (mem_cons_of_mem _ hother))
      (target.set (hashObject object.2) object.2) (index + 1)
    rw [putAll, if_neg Bool.false_ne_true]
    refine ⟨hdone, fun hash => ?_⟩
    rw [hget hash, JsMap.get?_set, hhash, map_cons]
    by_cases hrest : hash ∈ rest.map Prod.fst
    · rw [if_pos hrest, if_pos (mem_cons_of_mem _ hrest)]
    · rw [if_neg hrest]
      by_cases hfirst : hash = object.1
      · rw [if_pos hfirst, hfirst, if_pos mem_cons_self, hcont]
      · rw [if_neg hfirst, if_neg]
        exact fun hmem => (mem_cons.mp hmem).elim hfirst hrest

omit [JsonText.NumberText] in
theorem writeObjects_length {objects : List (ObjectHash × Nat)} (hwrite : writeObjects store objects = some chunks) :
    objects.length ≤ chunks.flatten.length := by
  induction objects generalizing chunks with
  | nil => exact Nat.zero_le _
  | cons object rest ih =>
    rw [writeObjects] at hwrite
    cases hget : store.get? object.1 with
    | none => rw [hget] at hwrite; exact nomatch hwrite
    | some bytes =>
      rw [hget] at hwrite
      simp only at hwrite
      split_ifs at hwrite with hhash
      obtain ⟨others, hoth, rfl⟩ := Option.map_eq_some_iff.mp hwrite
      have hrest := ih hoth
      have hhead := tarHeader_length (objectsPath ++ object.1) bytes.length
      rw [flatten_append, writeMember_flatten, length_append, length_append, hhead, length_cons]
      omega

omit [Sha256] [JsonText.NumberText] in
theorem isCount_int (count : Nat) : isCount (some (.number (.int count))) count = true := by
  rw [isCount, JsNumber.norm_int]
  exact decide_eq_true rfl

variable {closure : ClosureWalk}

theorem verifyClosure_staged {staged : ObjectStore} {roots : List BundleRoot}
    (hwalk : walk (roots.map .object) store = some closure)
    (hstag : ∀ object ∈ closure.objects, staged.get? object.1 = store.get? object.1)
    (hkeys : staged.keys = closure.objects.map Prod.fst) (hcount : closure.objectCount = closure.objects.length) :
    verifyClosure (roots.map toJson) [(js "objectCount", .number (.int closure.objectCount)),
        (js "totalBytes", .number (.int closure.totalBytes)), (js "digest", .string closure.digest)]
      staged = some closure := by
  have hlen : staged.entries.length = closure.objectCount := by
    have hsame := congrArg List.length hkeys
    rwa [JsMap.keys, length_map, length_map, ← hcount] at hsame
  have hall : staged.keys.all (fun hash => hash ∈ closure.objects.map Prod.fst) = true := by
    rw [hkeys, all_eq_true]
    exact fun hash hmem => decide_eq_true hmem
  rw [verifyClosure, jsonRoots_toJson, Option.bind_some, walk_congr hwalk hstag fun _ hroot => hroot,
    hwalk, Option.filter_some, if_pos]
  simp only [Bool.and_eq_true, decide_eq_true_eq]
  exact ⟨⟨⟨⟨isCount_int _, isCount_int _⟩, rfl⟩, hlen⟩, hall⟩

/-- The surroundings of an import that nothing disturbs. -/
def undisturbed : ImportAnswers := ⟨false, false, fun _ => false⟩

theorem not_le_nil_of_visited {stack : List ClosureRef} {visited : List (ObjectHash × Nat)}
    (hvis : Worklist.Traverses ClosureRef.hash (visit store.get?) stack [] visited)
    {object : ObjectHash × Nat} (hobj : object ∈ visited) : ¬ object.1 ≤ ([] : JsStr) := by
  intro hle
  rcases hvis.record hobj with hold | ⟨item, refs, hhash, hvisit, _⟩
  · exact absurd hold not_mem_nil
  · obtain ⟨data, _, _, hdata, _⟩ := visit_get hvisit
    have hvalid := isObjectHash_hashObject data
    rw [hdata, hhash, List.le_antisymm hle (nil_le _)] at hvalid
    exact absurd hvalid (by decide)

theorem readObjects_of_walk {roots : List ClosureRoot} (hwalk : walk roots store = some closure)
    (hwrite : writeObjects store closure.objects = some chunks) {budget : Nat}
    (hbud : closure.objects.length < budget) :
    ∃ staged, readObjects (chunks.flatten ++ List.replicate (block * 2) 0) [] .empty budget = some staged ∧
      staged.keys = closure.objects.map Prod.fst ∧
      ∀ object ∈ closure.objects, staged.get? object.1 = store.get? object.1 := by
  obtain ⟨pending, visited, hpend, hvis, rfl⟩ := walk_eq_some_iff.mp hwalk
  have hobj : ∀ object ∈ (closureOf visited).objects, ∃ bytes, store.get? object.1 = some bytes ∧
      object.2 = bytes.length ∧ bytes.length < 8 ^ 11 := fun object hmem =>
    visited_length hvis (mem_closureOf.mp hmem)
  have hsizes : ∀ object ∈ (closureOf visited).objects, ∀ bytes, store.get? object.1 = some bytes →
      bytes.length < 8 ^ 11 := by
    intro object hmem bytes hget
    obtain ⟨found, hfound, _, hbound⟩ := hobj object hmem
    rw [hget] at hfound
    exact Option.some.inj hfound ▸ hbound
  obtain ⟨staged, hread, hents⟩ := readObjects_writeObjects hwrite hsizes
    (sortObjects_ascending (hvis.nodup nodup_nil))
    (fun object hmem => not_le_nil_of_visited hvis (mem_closureOf.mp hmem)) .empty
    (fun _ _ => rfl) hbud
  rw [JsMap.entries_empty, nil_append] at hents
  refine ⟨staged, hread, ?_, fun object hmem => ?_⟩
  · rw [JsMap.keys, hents, map_map]
    rfl
  · obtain ⟨bytes, hget, _⟩ := hobj object hmem
    rw [hget, JsMap.get?_eq_some, hents]
    exact mem_map.mpr ⟨object, hmem, by rw [hget]; rfl⟩

omit [Sha256] [JsonText.NumberText] in
theorem isMemberName_manifest : IsMemberName (js "manifest.json") :=
  ⟨JsonText.forall_mem_of_all (by decide), JsonText.forall_mem_of_all (by decide), by decide⟩

theorem objectCount_of_walk {roots : List ClosureRoot}
    (hwalk : walk roots store = some closure) : closure.objectCount = closure.objects.length := by
  obtain ⟨_, visited, _, _, rfl⟩ := walk_eq_some_iff.mp hwalk
  rfl

/-- **An exported bundle is read back**: its manifest, its roots and the objects of the walk. -/
theorem readBundle_writeBundle {roots : List BundleRoot}
    {createdAt : JsStr} {sessions : List BundleSession} {pins : List BundlePin}
    (hwalk : walk (roots.map .object) store = some closure)
    (hwrite : writeBundle store (manifestOf createdAt sessions pins roots closure) closure.objects = some chunks) :
    readBundle chunks.flatten = some ((manifestOf createdAt sessions pins roots closure).toJson, roots.map toJson,
        closure.objects.map fun object => (object.1, (store.get? object.1).getD [])) := by
  obtain ⟨text, htext, hwrite⟩ := Option.bind_eq_some_iff.mp hwrite
  obtain ⟨written, hwrt, rfl⟩ := Option.map_eq_some_iff.mp hwrite
  obtain ⟨hdec, hsize⟩ := decode_manifestText htext
  have harc : (writeMember (js "manifest.json") (textEncode text) ++ written ++
      [List.replicate (block * 2) 0]).flatten =
      (writeMember (js "manifest.json") (textEncode text)).flatten ++
        (written.flatten ++ List.replicate (block * 2) 0) := by
    rw [flatten_append, flatten_append, flatten_singleton, append_assoc]
  have hbud : closure.objects.length < ((writeMember (js "manifest.json") (textEncode text)).flatten ++
      (written.flatten ++ List.replicate (block * 2) 0)).length := by
    have hlen := writeObjects_length hwrt
    have hblock : 0 < block * 2 := by decide
    rw [length_append, length_append, length_replicate]
    omega
  obtain ⟨staged, hread, hkeys, hstag⟩ := readObjects_of_walk hwalk hwrt hbud
  have hver := verifyClosure_staged hwalk hstag hkeys (objectCount_of_walk hwalk)
  rw [harc, readBundle, member_writeMember isMemberName_manifest hsize, Option.bind_some]
  dsimp only
  rw [if_pos rfl, hdec, Option.bind_some, manifestFields_toJson, Option.bind_some, hread, Option.bind_some]
  dsimp only [manifestOf]
  rw [hver, Option.map_some]
  have hput : ∀ object ∈ closure.objects, (object.1, (staged.get? object.1).getD []) =
      (object.1, (store.get? object.1).getD []) := fun object hmem => by rw [hstag object hmem]
  rw [map_congr_left hput]

/-- **Bundle round trip.** The stream of an export, cut into parts in any way, is imported: the import
returns the manifest and the roots of the export and puts the objects of the closure, and only them,
into the target. An import that is rejected leaves the target as it is. -/
theorem bundle_round_trip : (∀ (store target : ObjectStore) (roots : List BundleRoot) (sessions : List BundleSession)
      (pins : List BundlePin) (createdAt : JsStr) (closure : ClosureWalk) (manifest : BundleManifest)
      (chunks parts : List Bytes), walk (roots.map .object) store = some closure →
      exportBundle roots sessions pins createdAt store = some (manifest, chunks) → parts.flatten = chunks.flatten →
      ∃ result, importBundle target parts undisturbed =
          (result, .imported manifest.toJson (manifest.roots.map toJson)) ∧ ∀ hash, result.get? hash =
          if hash ∈ closure.objects.map Prod.fst then store.get? hash else target.get? hash) ∧
      ∀ (target : ObjectStore) (parts : List Bytes) (answers : ImportAnswers),
        (importBundle target parts answers).2 = .rejected → (importBundle target parts answers).1 = target := by
  constructor
  · intro store target roots sessions pins createdAt closure manifest chunks parts hwalk hexp hparts
    obtain ⟨sorted, hsor, hexp⟩ := Option.bind_eq_some_iff.mp hexp
    obtain ⟨written, hwrt, hman⟩ := Option.map_eq_some_iff.mp hexp
    obtain ⟨rfl, rfl⟩ := Prod.mk.inj hman
    obtain rfl : closure = sorted := by
      refine walk_unique hwalk hsor fun root => ?_
      rw [mem_map, mem_map]
      simp only [sortRoots, mem_insertionSort]
    have hobjec : ∀ object ∈ closure.objects.map fun object =>
        (object.1, (store.get? object.1).getD []),
        hashObject object.2 = object.1 ∧ object.2 = (store.get? object.1).getD [] := by
      intro object hobj
      obtain ⟨source, hsrc, rfl⟩ := mem_map.mp hobj
      obtain ⟨pending, visited, _, hvis, rfl⟩ := walk_eq_some_iff.mp hwalk
      rcases hvis.record (mem_closureOf.mp hsrc) with hold | ⟨item, refs, hhash, hvisit, _⟩
      · exact absurd hold not_mem_nil
      · obtain ⟨bytes, _, hget, hbytes, _⟩ := visit_get hvisit
        rw [hhash] at hget hbytes
        exact ⟨by rw [hget]; exact hbytes, rfl⟩
    obtain ⟨hdone, hget⟩ := putAll_get? (fun hash => (store.get? hash).getD []) hobjec target 0
    refine ⟨(putAll target (fun _ => false) 0 (closure.objects.map fun object =>
      (object.1, (store.get? object.1).getD []))).1, ?_, fun hash => ?_⟩
    · rw [importBundle, undisturbed, hparts, Bool.or_self, if_neg Bool.false_ne_true,
        readBundle_writeBundle hsor hwrt]
      dsimp only
      rw [hdone, if_pos rfl]
      rfl
    · rw [hget hash, map_map]
      have hkeys : (Prod.fst ∘ fun object : ObjectHash × Nat =>
          (object.1, (store.get? object.1).getD [])) = Prod.fst := rfl
      rw [hkeys]
      split_ifs with hmem
      · obtain ⟨object, hobj, rfl⟩ := mem_map.mp hmem
        obtain ⟨pending, visited, _, hvis, rfl⟩ := walk_eq_some_iff.mp hwalk
        obtain ⟨bytes, hfound, _⟩ := visited_length hvis (mem_closureOf.mp hobj)
        rw [hfound, Option.getD_some]
      · rfl
  · intro target parts answers hrej
    rw [importBundle] at hrej ⊢
    split at hrej
    · rfl
    · dsimp only at hrej
      split_ifs at hrej

end Objects

section Sample

local instance : JsonText.NumberText := JsonText.decimalNumbers

def sampleObject : Bytes := textEncode (js "\x7b\"entries\":[],\"tg\":\"tree.v1\"\x7d")

/-- The digests of an empty tree and of the closure that holds it alone. -/
def sampleDigest (data : Bytes) : Bytes :=
  if data = sampleObject then
    [64, 184, 20, 222, 195, 161, 98, 0, 104, 71, 161, 11, 35, 144, 114, 122,
      246, 172, 70, 242, 58, 200, 161, 170, 119, 70, 114, 145, 132, 141, 173, 116]
  else if data = closureDomain ++ beBytes 8 1 ++ [64, 184, 20, 222, 195, 161, 98, 0, 104, 71, 161, 11, 35, 144, 114, 122,
      246, 172, 70, 242, 58, 200, 161, 170, 119, 70, 114, 145, 132, 141, 173, 116] ++ beBytes 8 29 then
    [109, 83, 189, 195, 223, 44, 189, 32, 83, 134, 249, 100, 195, 66, 218, 58,
      225, 121, 77, 65, 136, 47, 219, 160, 15, 223, 138, 109, 7, 60, 110, 72]
  else List.replicate 32 0

local instance : Sha256 where
  digest := sampleDigest
  length_digest data := by
    unfold sampleDigest
    split_ifs <;> rfl

def sampleHash : ObjectHash := js "40b814dec3a162006847a10b2390727af6ac46f23ac8a1aa77467291848dad74"

def sampleStore : ObjectStore := JsMap.empty.set sampleHash sampleObject

def sampleRoots : List BundleRoot := [⟨sampleHash, js "tree.v1"⟩]

theorem parse_sampleObject :
    parse sampleObject = some (.object [(js "entries", .array []), (js "tg", .string (js "tree.v1"))]) := by
  have hascii : IsAscii (js "\x7b\"entries\":[],\"tg\":\"tree.v1\"\x7d") := JsonText.forall_mem_of_all (by decide)
  rw [parse, sampleObject, decoderDecode_textEncode hascii.isScalarText (by decide +kernel) (by decide +kernel)]
  decide +kernel

theorem walk_sample : walk (sampleRoots.map .object) sampleStore = some (closureOf [(sampleHash, 29)]) := by
  have hvisit : visit sampleStore.get? ⟨sampleHash, some (js "tree.v1")⟩ = some (29, []) := by
    have hhash : hashObject sampleObject = sampleHash := by decide +kernel
    have hrefs : refs (some (js "tree.v1"))
        (.object [(js "entries", .array []), (js "tg", .string (js "tree.v1"))]) = some [] := by decide +kernel
    have hget : sampleStore.get? sampleHash = some sampleObject := by decide +kernel
    rw [visit, hget]
    dsimp only
    rw [if_pos hhash, parse_sampleObject, Option.bind_some, hrefs]
    decide +kernel
  refine walk_eq_some_iff.mpr ⟨[⟨sampleHash, some (js "tree.v1")⟩], _, by decide +kernel, ?_, rfl⟩
  exact .visit (by decide) hvisit (.done _)

theorem exportBundle_sample : ∃ manifest chunks,
      exportBundle sampleRoots [] [] (js "now") sampleStore = some (manifest, chunks) := by
  have hsor : sortRoots sampleRoots = sampleRoots := by decide +kernel
  have htext : (manifestText (manifestOf (js "now") [] [] sampleRoots
      (closureOf [(sampleHash, 29)]))).isSome = true := by decide +kernel
  have hobjec : (writeObjects sampleStore (closureOf [(sampleHash, 29)]).objects).isSome = true := by
    decide +kernel
  obtain ⟨text, htext⟩ := Option.isSome_iff_exists.mp htext
  obtain ⟨chunks, hchun⟩ := Option.isSome_iff_exists.mp hobjec
  have hwrite : writeBundle sampleStore (manifestOf (js "now") [] [] sampleRoots
      (closureOf [(sampleHash, 29)])) (closureOf [(sampleHash, 29)]).objects =
      some (writeMember (js "manifest.json") (textEncode text) ++ chunks ++
        [List.replicate (block * 2) 0]) := by
    rw [writeBundle, htext, Option.bind_some, hchun, Option.map_some]
  refine ⟨manifestOf (js "now") [] [] sampleRoots (closureOf [(sampleHash, 29)]),
    writeMember (js "manifest.json") (textEncode text) ++ chunks ++ [List.replicate (block * 2) 0], ?_⟩
  rw [exportBundle, hsor, walk_sample, Option.bind_some]
  dsimp only
  rw [hwrite, Option.map_some]

/-- The export of one object, imported from its single part. -/
theorem bundle_round_trip_sample : ∃ manifest chunks result,
      exportBundle sampleRoots [] [] (js "now") sampleStore = some (manifest, chunks) ∧
      importBundle .empty [chunks.flatten] undisturbed =
        (result, .imported manifest.toJson (manifest.roots.map toJson)) := by
  obtain ⟨manifest, chunks, hexp⟩ := exportBundle_sample
  obtain ⟨result, himp, _⟩ := bundle_round_trip.1 sampleStore .empty sampleRoots [] [] (js "now")
    _ manifest chunks [chunks.flatten] walk_sample hexp flatten_singleton
  exact ⟨manifest, chunks, result, hexp, himp⟩

end Sample

end PiRp.Bundle
