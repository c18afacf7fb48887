import PiRp.JsonTextPrefix
import PiRp.ObjectStore

/-! The bytes of texts. Scalar texts are closed under concatenation and their encodings concatenate; an
ASCII text is encoded unit by unit. The text of a JSON value is scalar, since lone surrogates are
escaped. -/

namespace PiRp

open List

theorem toNat_ofNat_char {value : Nat} (hvalue : value < 0xD800 ∨ 0xDFFF < value ∧ value < 0x110000) :
    (Char.ofNat value).toNat = value := by
  rw [Char.ofNat, dif_pos hvalue]
  rfl

theorem utf16_append (left right : List Char) : utf16 (left ++ right) = utf16 left ++ utf16 right :=
  flatMap_append

theorem IsScalarText.append {left right : JsStr} (hleft : IsScalarText left)
    (hright : IsScalarText right) : IsScalarText (left ++ right) := by
  obtain ⟨front, rfl⟩ := hleft
  obtain ⟨back, rfl⟩ := hright
  exact ⟨front ++ back, (utf16_append front back).symm⟩

theorem textEncode_append {left right : JsStr} (hleft : IsScalarText left)
    (hright : IsScalarText right) : textEncode (left ++ right) = textEncode left ++ textEncode right := by
  obtain ⟨front, rfl⟩ := hleft
  obtain ⟨back, rfl⟩ := hright
  rw [← utf16_append, textEncode_utf16, textEncode_utf16, textEncode_utf16, utf8, utf8, utf8, flatMap_append]

theorem utf8EncodeChar_length (c : Char) : (utf16Char c).length ≤ (String.utf8EncodeChar c).length ∧
      (String.utf8EncodeChar c).length ≤ 3 * (utf16Char c).length := by
  have hbound := char_toNat_bound c
  rw [String.length_utf8EncodeChar, Char.utf8Size, utf16Char]
  have hval : ∀ bound : UInt32, c.val ≤ bound ↔ c.toNat ≤ bound.toNat := fun bound => UInt32.le_iff_toNat_le
  simp only [hval]
  split_ifs <;> simp at * <;> omega

variable {text : JsStr}

theorem textEncode_length (htext : IsScalarText text) :
    text.length ≤ (textEncode text).length ∧ (textEncode text).length ≤ 3 * text.length := by
  obtain ⟨cs, rfl⟩ := htext
  rw [textEncode_utf16]
  induction cs with
  | nil => exact ⟨Nat.le_refl _, Nat.le_refl _⟩
  | cons c cs ih =>
    have hchar := utf8EncodeChar_length c
    have hutf16 : utf16 (c :: cs) = utf16Char c ++ utf16 cs := rfl
    have hutf8 : utf8 (c :: cs) = String.utf8EncodeChar c ++ utf8 cs := rfl
    rw [hutf16, hutf8, length_append, length_append]
    omega

/-- A text of ASCII characters. -/
def IsAscii (text : JsStr) : Prop := ∀ unit ∈ text, unit.toNat < 0x80

variable {unit : UInt16}

theorem utf16Char_ascii (hunit : unit.toNat < 0x80) : utf16Char (Char.ofNat unit.toNat) = [unit] := by
  have hnat : (Char.ofNat unit.toNat).toNat = unit.toNat := toNat_ofNat_char (by omega)
  rw [utf16Char, hnat, if_pos (by omega), UInt16.ofNat_toNat]

theorem IsAscii.scalars (htext : IsAscii text) : text = utf16 (text.map fun unit => Char.ofNat unit.toNat) := by
  induction text with
  | nil => rfl
  | cons unit rest ih =>
    have hrest := ih fun other hother => htext other (mem_cons_of_mem _ hother)
    rw [map_cons, utf16, flatMap_cons, utf16Char_ascii (htext unit mem_cons_self), ← utf16, ← hrest]
    rfl

theorem IsAscii.isScalarText (htext : IsAscii text) : IsScalarText text :=
  ⟨_, htext.scalars⟩

theorem utf8EncodeChar_ascii (hunit : unit.toNat < 0x80) :
    String.utf8EncodeChar (Char.ofNat unit.toNat) = [UInt8.ofNat unit.toNat] := by
  have hnat : (Char.ofNat unit.toNat).toNat = unit.toNat := toNat_ofNat_char (by omega)
  have hval : (Char.ofNat unit.toNat).val.toNat = unit.toNat := hnat
  rw [String.utf8EncodeChar]
  simp only [hval]
  rw [if_pos (by omega)]

theorem textEncode_ascii (htext : IsAscii text) : textEncode text = text.map fun unit => UInt8.ofNat unit.toNat := by
  conv_lhs => rw [htext.scalars]
  rw [textEncode_utf16, utf8, flatMap_map]
  induction text with
  | nil => rfl
  | cons unit rest ih =>
    rw [flatMap_cons, utf8EncodeChar_ascii (htext unit mem_cons_self),
      ih fun other hother => htext other (mem_cons_of_mem _ hother)]
    rfl

theorem isScalarText_unit (hhigh : isHighSurrogate unit = false)
    (hlow : isLowSurrogate unit = false) : IsScalarText [unit] := by
  have hlt := UInt16.toNat_lt unit
  simp only [isHighSurrogate, isLowSurrogate, Bool.and_eq_false_iff, decide_eq_false_iff_not] at hhigh hlow
  have hnat : (Char.ofNat unit.toNat).toNat = unit.toNat := toNat_ofNat_char (by omega)
  refine ⟨[Char.ofNat unit.toNat], ?_⟩
  rw [utf16, flatMap_singleton, utf16Char, hnat, if_pos (by omega), UInt16.ofNat_toNat]

theorem isScalarText_pair {high low : UInt16} (hhigh : isHighSurrogate high = true)
    (hlow : isLowSurrogate low = true) : IsScalarText [high, low] := by
  simp only [isHighSurrogate, isLowSurrogate, Bool.and_eq_true, decide_eq_true_eq] at hhigh hlow
  have hnat : (Char.ofNat (0x10000 + (high.toNat - 0xD800) * 0x400 + (low.toNat - 0xDC00))).toNat =
      0x10000 + (high.toNat - 0xD800) * 0x400 + (low.toNat - 0xDC00) := toNat_ofNat_char (by omega)
  refine ⟨[Char.ofNat (0x10000 + (high.toNat - 0xD800) * 0x400 + (low.toNat - 0xDC00))], ?_⟩
  rw [utf16, flatMap_singleton, utf16Char, hnat, if_neg (by omega)]
  have hleft : 0xD800 + (0x10000 + (high.toNat - 0xD800) * 0x400 + (low.toNat - 0xDC00) - 0x10000) / 0x400 =
      high.toNat := by omega
  have hright : 0xDC00 + (0x10000 + (high.toNat - 0xD800) * 0x400 + (low.toNat - 0xDC00) - 0x10000) % 0x400 =
      low.toNat := by omega
  rw [hleft, hright, UInt16.ofNat_toNat, UInt16.ofNat_toNat]

theorem utf8EncodeChar_mark (c : Char) (rest : Bytes) :
    byteOrderMark.isPrefixOf (String.utf8EncodeChar c ++ rest) = true ↔ c.toNat = 0xFEFF := by
  have hbound := char_toNat_bound c
  have hval : c.val.toNat = c.toNat := rfl
  rw [ isPrefixOf_iff_prefix, byteOrderMark, String.utf8EncodeChar]
  simp only [hval]
  split_ifs with hone htwo hthree
  all_goals
    simp only [cons_append, cons_prefix_cons, ← UInt8.toNat_inj]
    simp
    omega

theorem textEncode_mark (htext : IsScalarText text) :
    byteOrderMark.isPrefixOf (textEncode text) = true ↔ text.head? = some 0xFEFF := by
  obtain ⟨cs, rfl⟩ := htext
  rw [textEncode_utf16]
  cases cs with
  | nil => simp [utf8, utf16, byteOrderMark]
  | cons c cs =>
    have hutf16 : utf16 (c :: cs) = utf16Char c ++ utf16 cs := rfl
    have hutf8 : utf8 (c :: cs) = String.utf8EncodeChar c ++ utf8 cs := rfl
    have hbound := char_toNat_bound c
    rw [hutf8, utf8EncodeChar_mark, hutf16, utf16Char]
    split_ifs with hsmall
    · rw [singleton_append, head?_cons, Option.some.injEq, ← UInt16.toNat_inj, toNat_ofNat_unit hsmall]
      rfl
    · rw [cons_append, head?_cons, Option.some.injEq, ← UInt16.toNat_inj, toNat_ofNat_unit (by omega)]
      have hmark : (0xFEFF : UInt16).toNat = 0xFEFF := rfl
      omega

theorem decoderDecode_textEncode (htext : IsScalarText text)
    (hmark : text.head? ≠ some 0xFEFF) (hlen : text.length ≤ maxStringLength) :
    decoderDecode (textEncode text) = some text := by
  rw [decoderDecode, if_neg fun h => hmark ((textEncode_mark htext).mp h), textDecode_textEncode htext,
    Option.filter_some, if_pos (decide_eq_true hlen)]

theorem length_of_decoderDecode {bytes : Bytes}
    (hdec : decoderDecode bytes = some text) : bytes.length ≤ 3 * maxStringLength + 3 := by
  rw [decoderDecode, Option.filter_eq_some_iff] at hdec
  obtain ⟨htext, hlen⟩ := hdec
  obtain ⟨hscal, hbytes⟩ := textEncode_of_textDecode htext
  have hbound := (textEncode_length hscal).2
  have hshort := of_decide_eq_true hlen
  rw [hbytes] at hbound
  split_ifs at hbound
  · rw [length_drop] at hbound
    omega
  · omega

namespace JsonText

/-- **The text of a value is scalar**: lone surrogates are escaped. -/
theorem isScalarText_stringify [NumberText] {value : Json} (hvalue : value.Writable) :
    IsScalarText (stringify value) := by
  have hvis : ∀ text : JsStr, (∀ unit ∈ text, IsVisible unit) → IsScalarText text :=
    fun _ htext => IsAscii.isScalarText fun unit hunit => (htext unit hunit).2
  have happ : ∀ left right, IsScalarText left → IsScalarText right → IsScalarText (left ++ right) :=
    fun _ _ => IsScalarText.append
  refine stringify_pieces happ hvis (quote_pieces happ hvis ?_ fun _ _ => isScalarText_pair) hvalue
  exact fun _ _ => isScalarText_unit

end JsonText

end PiRp
