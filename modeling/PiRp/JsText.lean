import Mathlib.Data.List.Basic
import Mathlib.Tactic

/-! JavaScript strings and their encodings. A string is a list of UTF-16 code units, so that lone
surrogates are representable. `TextEncoder` writes UTF-8 after replacing lone surrogates by U+FFFD;
a fatal `TextDecoder` accepts well-formed UTF-8 only. -/

namespace PiRp

/-- A JavaScript string: UTF-16 code units. -/
abbrev JsStr := List UInt16

instance : LawfulBEq JsStr := inferInstance

/-- The code units of a Unicode scalar value. -/
def utf16Char (c : Char) : JsStr :=
  if c.toNat < 0x10000 then [UInt16.ofNat c.toNat]
  else [UInt16.ofNat (0xD800 + (c.toNat - 0x10000) / 0x400), UInt16.ofNat (0xDC00 + (c.toNat - 0x10000) % 0x400)]

def utf16 (scalars : List Char) : JsStr := scalars.flatMap utf16Char

/-- The JavaScript string of a literal. -/
def js (literal : String) : JsStr := utf16 literal.toList

def isHighSurrogate (unit : UInt16) : Bool := 0xD800 ≤ unit.toNat && unit.toNat < 0xDC00

def isLowSurrogate (unit : UInt16) : Bool := 0xDC00 ≤ unit.toNat && unit.toNat < 0xE000

/-- A code unit outside a surrogate pair as a scalar value; a surrogate becomes U+FFFD. -/
def scalarOfUnit (unit : UInt16) : Char :=
  if isHighSurrogate unit || isLowSurrogate unit then Char.ofNat 0xFFFD else Char.ofNat unit.toNat

/-- The scalar values of a string, lone surrogates replaced. -/
def scalars : JsStr → List Char
  | [] => []
  | [unit] => [scalarOfUnit unit]
  | high :: low :: rest =>
    if isHighSurrogate high && isLowSurrogate low then
      Char.ofNat (0x10000 + (high.toNat - 0xD800) * 0x400 + (low.toNat - 0xDC00)) :: scalars rest
    else scalarOfUnit high :: scalars (low :: rest)

theorem toNat_ofNat_unit {value : Nat} (hvalue : value < 0x10000) : (UInt16.ofNat value).toNat = value := by
  rw [UInt16.toNat_ofNat', Nat.mod_eq_of_lt hvalue]

theorem char_ofNat_toNat (c : Char) : Char.ofNat c.toNat = c := Char.ofNat_toNat c

theorem char_toNat_bound (c : Char) : c.toNat < 0xD800 ∨ 0xDFFF < c.toNat ∧ c.toNat < 0x110000 := by
  exact c.valid

theorem scalars_cons_of_not_high {unit : UInt16} (rest : JsStr) (hunit : isHighSurrogate unit = false) :
    scalars (unit :: rest) = scalarOfUnit unit :: scalars rest := by
  cases rest with
  | nil => rfl
  | cons next rest => rw [scalars, hunit, Bool.false_and, if_neg Bool.false_ne_true]

theorem scalars_utf16Char (c : Char) (rest : JsStr) : scalars (utf16Char c ++ rest) = c :: scalars rest := by
  have hbound := char_toNat_bound c
  rw [utf16Char]
  split_ifs with hbmp
  · have hhigh : isHighSurrogate (UInt16.ofNat c.toNat) = false := by
      simp only [isHighSurrogate, toNat_ofNat_unit hbmp]
      rw [Bool.and_eq_false_iff, decide_eq_false_iff_not, decide_eq_false_iff_not]
      omega
    have hlow : isLowSurrogate (UInt16.ofNat c.toNat) = false := by
      simp only [isLowSurrogate, toNat_ofNat_unit hbmp]
      rw [Bool.and_eq_false_iff, decide_eq_false_iff_not, decide_eq_false_iff_not]
      omega
    rw [List.singleton_append, scalars_cons_of_not_high _ hhigh, scalarOfUnit, hhigh, hlow,
      toNat_ofNat_unit hbmp, char_ofNat_toNat]
    rfl
  · have hhighNat : (UInt16.ofNat (0xD800 + (c.toNat - 0x10000) / 0x400)).toNat =
        0xD800 + (c.toNat - 0x10000) / 0x400 := toNat_ofNat_unit (by omega)
    have hlowNat : (UInt16.ofNat (0xDC00 + (c.toNat - 0x10000) % 0x400)).toNat =
        0xDC00 + (c.toNat - 0x10000) % 0x400 := toNat_ofNat_unit (by omega)
    have hpair : (isHighSurrogate (UInt16.ofNat (0xD800 + (c.toNat - 0x10000) / 0x400)) &&
        isLowSurrogate (UInt16.ofNat (0xDC00 + (c.toNat - 0x10000) % 0x400))) = true := by
      simp only [isHighSurrogate, isLowSurrogate, hhighNat, hlowNat, Bool.and_eq_true, decide_eq_true_eq]
      omega
    have hvalue : 0x10000 + (0xD800 + (c.toNat - 0x10000) / 0x400 - 0xD800) * 0x400 +
        (0xDC00 + (c.toNat - 0x10000) % 0x400 - 0xDC00) = c.toNat := by omega
    rw [List.cons_append, List.singleton_append, scalars, if_pos hpair, hhighNat, hlowNat, hvalue, char_ofNat_toNat]

theorem scalars_utf16 (cs : List Char) : scalars (utf16 cs) = cs := by
  induction cs with
  | nil => rfl
  | cons c cs ih =>
    have hcons : utf16 (c :: cs) = utf16Char c ++ utf16 cs := rfl
    rw [hcons, scalars_utf16Char, ih]

/-- The string consists of Unicode scalar values: no surrogate stands alone. -/
def IsScalarText (text : JsStr) : Prop := ∃ cs : List Char, text = utf16 cs

/-- UTF-8 of scalar values. -/
def utf8 (cs : List Char) : List UInt8 := cs.flatMap String.utf8EncodeChar

/-- Strict UTF-8 decoding. -/
def decodeUtf8 (bytes : List UInt8) : Option (List Char) :=
  bytes.toByteArray.utf8Decode?.map Array.toList

theorem decodeUtf8_utf8 (cs : List Char) : decodeUtf8 (utf8 cs) = some cs := by
  have h := List.utf8Decode?_utf8Encode (l := cs)
  rw [List.utf8Encode] at h
  rw [decodeUtf8, utf8, h]
  rfl

theorem utf8_of_decodeUtf8 {bytes : List UInt8} {cs : List Char}
    (hdec : decodeUtf8 bytes = some cs) : utf8 cs = bytes := by
  rw [decodeUtf8, Option.map_eq_some_iff] at hdec
  obtain ⟨chars, hchars, rfl⟩ := hdec
  have h := ByteArray.utf8Encode_get_utf8Decode? (b := bytes.toByteArray)
    (h := by rw [hchars]; rfl)
  simp only [hchars, Option.get_some] at h
  exact List.toByteArray_inj.mp h

/-- `TextEncoder.encode`. -/
def textEncode (text : JsStr) : List UInt8 := utf8 (scalars text)

/-- `TextDecoder.decode` with `fatal` and `ignoreBOM`. -/
def textDecode (bytes : List UInt8) : Option JsStr := (decodeUtf8 bytes).map utf16

theorem textEncode_utf16 (cs : List Char) : textEncode (utf16 cs) = utf8 cs := by
  rw [textEncode, scalars_utf16]

theorem textDecode_utf8 (cs : List Char) : textDecode (utf8 cs) = some (utf16 cs) := by
  rw [textDecode, decodeUtf8_utf8]
  rfl

theorem textDecode_textEncode {text : JsStr} (htext : IsScalarText text) :
    textDecode (textEncode text) = some text := by
  obtain ⟨cs, rfl⟩ := htext
  rw [textEncode_utf16, textDecode_utf8]

theorem textEncode_of_textDecode {bytes : List UInt8} {text : JsStr}
    (hdec : textDecode bytes = some text) : IsScalarText text ∧ textEncode text = bytes := by
  rw [textDecode, Option.map_eq_some_iff] at hdec
  obtain ⟨cs, hcs, rfl⟩ := hdec
  exact ⟨⟨cs, rfl⟩, by rw [textEncode_utf16, utf8_of_decodeUtf8 hcs]⟩

end PiRp
