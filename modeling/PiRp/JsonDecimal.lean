import PiRp.JsonTextRoundTrip

/-! Numbers in decimal. Integers are written as JavaScript writes the safe ones; a number that is not
an integer is written by its bit pattern. This is one conversion between numbers and text with the
properties the codecs rely on. -/

namespace PiRp.JsonText

open List

/-- The code unit of a decimal digit. -/
def digitUnit (digit : Nat) : UInt16 := UInt16.ofNat digit.digitChar.toNat

theorem decimal_small {value : Nat} (hvalue : value < 10) : decimal value = [digitUnit value] := by
  rw [decimal, Nat.toDigits_of_lt_base hvalue]
  rfl

theorem decimal_large {value : Nat} (hvalue : 10 ≤ value) :
    decimal value = decimal (value / 10) ++ [digitUnit (value % 10)] := by
  rw [decimal, Nat.toDigits_of_base_le (by decide) hvalue, map_append]
  rfl

theorem digitUnit_toNat {digit : Nat} (hdigit : digit < 10) : (digitUnit digit).toNat = 0x30 + digit := by
  have hall : ∀ digit < 10, (digitUnit digit).toNat = 0x30 + digit := by decide
  exact hall digit hdigit

theorem isDigit_digitUnit {digit : Nat} (hdigit : digit < 10) : isDigit (digitUnit digit) = true := by
  rw [isDigit, digitUnit_toNat hdigit]
  simp
  omega

theorem decimal_induction {motive : Nat → Prop} (hsmall : ∀ value < 10, motive value)
    (hlarge : ∀ value, 10 ≤ value → motive (value / 10) → motive value) (value : Nat) : motive value := by
  induction value using Nat.strongRecOn with
  | ind value ih =>
    by_cases hvalue : value < 10
    · exact hsmall value hvalue
    · exact hlarge value (by omega) (ih (value / 10) (by omega))

theorem decimalValue_concat (text : JsStr) (unit : UInt16) :
    decimalValue (text ++ [unit]) = decimalValue text * 10 + (unit.toNat - 0x30) := by
  rw [decimalValue, foldl_append]
  rfl

theorem decimalValue_decimal (value : Nat) : decimalValue (decimal value) = value := by
  induction value using decimal_induction with
  | hsmall value hvalue =>
    rw [decimal_small hvalue, decimalValue, foldl_cons, foldl_nil, digitUnit_toNat hvalue]
    omega
  | hlarge value hvalue ih =>
    rw [decimal_large hvalue, decimalValue_concat, ih, digitUnit_toNat (by omega)]
    omega

theorem isDigit_decimal (value : Nat) : ∀ unit ∈ decimal value, isDigit unit = true := by
  induction value using decimal_induction with
  | hsmall value hvalue =>
    rw [decimal_small hvalue]
    exact forall_mem_singleton.mpr (isDigit_digitUnit hvalue)
  | hlarge value hvalue ih =>
    rw [decimal_large hvalue]
    exact forall_mem_append.mpr
      ⟨ih, forall_mem_singleton.mpr (isDigit_digitUnit (by omega))⟩

theorem decimal_ne_nil (value : Nat) : decimal value ≠ [] := by
  rcases Nat.lt_or_ge value 10 with hvalue | hvalue
  · rw [decimal_small hvalue]
    exact cons_ne_nil _ _
  · rw [decimal_large hvalue]
    exact append_ne_nil_of_right_ne_nil _ (cons_ne_nil _ _)

/-! ### Number literals -/

theorem readNumber_digit {unit : UInt16} (hunit : isDigit unit = true) (rest : JsStr) :
    readNumber .digits (unit :: rest) = readNumber .digits rest := by
  simp only [readNumber, NumberState.step, hunit, if_true]

theorem readNumber_decimal {state : NumberState} (hstate : state = .start ∨ state = .minus)
    {value : Nat} (hvalue : 0 < value) (rest : JsStr) :
    readNumber state (decimal value ++ rest) = readNumber .digits rest := by
  revert hvalue rest
  induction value using decimal_induction with
  | hsmall value hsmall =>
    intro hvalue rest
    have hstep : ∀ digit < 10, 0 < digit → state.step (digitUnit digit) = some .digits := by
      rcases hstate with rfl | rfl <;> decide
    rw [decimal_small hsmall, singleton_append]
    simp only [readNumber, hstep value hsmall hvalue]
  | hlarge value hlarge ih =>
    intro _ rest
    rw [decimal_large hlarge, append_assoc, ih (by omega), singleton_append,
      readNumber_digit (isDigit_digitUnit (by omega))]

theorem readNumber_fraction {text : JsStr} (htext : ∀ unit ∈ text, isDigit unit = true) :
    readNumber .fraction text = true := by
  induction text with
  | nil => rfl
  | cons unit text ih =>
    obtain ⟨hunit, hrest⟩ := forall_mem_cons.mp htext
    simp only [readNumber, NumberState.step, hunit, if_true]
    exact ih hrest

/-! ### The conversion -/

def minusSign : UInt16 := 0x2d

/-- The text in front of the bit pattern of a number that is not an integer. -/
def fractionMark : JsStr := js "0."

def decimalText : JsNumber → JsStr
  | .int value => if value < 0 then minusSign :: decimal value.natAbs else decimal value.natAbs
  | .fraction bits => fractionMark ++ decimal bits.1
  | .negZero => decimal 0
  | .infinite _ | .nan => js "null"

def decimalNumber (text : JsStr) : JsNumber :=
  if text.head? = some minusSign then .int (-(decimalValue text.tail))
  else if fractionMark.isPrefixOf text then
    let bits := decimalValue (text.drop fractionMark.length)
    if h : Float64.IsFraction bits then .fraction ⟨bits, h⟩ else .nan
  else .int (decimalValue text)

theorem isNumberLiteral_decimalText {number : JsNumber} (hfin : number.isFinite = true) :
    isNumberLiteral (decimalText number) = true := by
  have hdec : ∀ value, readNumber .start (decimal value) = true := fun value => by
    rcases Nat.eq_zero_or_pos value with rfl | hvalue
    · decide
    · have hread := readNumber_decimal (.inl rfl) hvalue []
      rwa [append_nil] at hread
  cases number with
  | int value =>
    rw [decimalText]
    split_ifs with hvalue
    · have hread := readNumber_decimal (.inr rfl) (show 0 < value.natAbs by omega) []
      rw [append_nil] at hread
      exact hread
    · exact hdec _
  | negZero => exact hdec 0
  | fraction bits =>
    have hdig := isDigit_decimal bits.1
    rw [decimalText, isNumberLiteral]
    cases hunits : decimal bits.1 with
    | nil => exact absurd hunits (decimal_ne_nil _)
    | cons unit rest =>
      rw [hunits] at hdig
      obtain ⟨hunit, hrest⟩ := forall_mem_cons.mp hdig
      have hdot : readNumber .start (fractionMark ++ unit :: rest) =
          readNumber .dot (unit :: rest) := rfl
      simp only [hdot, readNumber, NumberState.step, hunit, if_true]
      exact readNumber_fraction hrest
  | infinite negative => cases hfin
  | nan => cases hfin

theorem decimalNumber_decimal (value : Nat) : decimalNumber (decimal value) = .int value := by
  have hdig := isDigit_decimal value
  have hminus : (decimal value).head? ≠ some minusSign := fun h =>
    absurd (hdig _ (mem_of_head? h)) (by decide)
  have hfrac : fractionMark.isPrefixOf (decimal value) = false := by
    rw [← Bool.not_eq_true, isPrefixOf_iff_prefix]
    rintro ⟨rest, hrest⟩
    exact absurd (hdig 0x2e (hrest ▸ mem_append_left _ (by decide))) (by decide)
  rw [decimalNumber, if_neg hminus, hfrac, if_neg Bool.false_ne_true, decimalValue_decimal]

theorem decimalNumber_decimalText {number : JsNumber} (hfin : number.isFinite = true) :
    decimalNumber (decimalText number) = number.norm := by
  cases number with
  | int value =>
    rw [decimalText, JsNumber.norm_int]
    split_ifs with hvalue
    · rw [decimalNumber, head?_cons, if_pos rfl, tail_cons, decimalValue_decimal]
      exact congrArg _ (by omega)
    · rw [decimalNumber_decimal]
      exact congrArg _ (by omega)
  | negZero => exact decimalNumber_decimal 0
  | fraction bits =>
    have hhead : (fractionMark ++ decimal bits.1).head? ≠ some minusSign := by
      rw [head?_append_of_ne_nil _ (by decide)]
      decide
    have hstar : fractionMark.isPrefixOf (fractionMark ++ decimal bits.1) = true :=
      isPrefixOf_iff_prefix.mpr (prefix_append _ _)
    rw [decimalText, decimalNumber, if_neg hhead, if_pos hstar]
    simp only [drop_left, decimalValue_decimal, dif_pos bits.2]
    rfl
  | infinite negative => exact nomatch hfin
  | nan => exact nomatch hfin

/-- Numbers in decimal, as a conversion between numbers and text. -/
@[reducible] def decimalNumbers : NumberText where
  text := decimalText
  value := decimalNumber
  text_literal := fun _ hfin => isNumberLiteral_decimalText hfin
  text_norm := fun number => by cases number <;> rfl
  value_text := fun _ hfin => decimalNumber_decimalText hfin

end PiRp.JsonText

namespace PiRp.JsNumber

open List

/-- Addition of integers; sums with other numbers are left out. -/
@[reducible] def integerAddition : Addition where
  add left right :=
    match left.norm, right.norm with
    | .int left, .int right => .int (left + right)
    | _, _ => .nan
  norm_add := fun left right => by
    simp only [norm_norm]
    cases left.norm <;> cases right.norm <;> rfl

end PiRp.JsNumber
