import Mathlib.Data.List.Basic
import Mathlib.Tactic

/-! JavaScript numbers as IEEE doubles. Integers are kept by value, minus zero apart; a number that is
not an integer is kept as its bit pattern. `float64` reads a bit pattern. -/

namespace PiRp

def maxSafeInteger : Nat := 2 ^ 53 - 1

namespace Float64

def exponent (bits : Nat) : Nat := bits / 2 ^ 52 % 2 ^ 11

def mantissa (bits : Nat) : Nat := bits % 2 ^ 52

/-- The significand of a finite pattern, whose value is `significand * 2 ^ (scale - 1075)`. -/
def significand (bits : Nat) : Nat :=
  if exponent bits = 0 then mantissa bits else 2 ^ 52 + mantissa bits

def scale (bits : Nat) : Nat := max (exponent bits) 1

/-- The pattern of a finite double that is not an integer. -/
def IsFraction (bits : Nat) : Prop :=
  bits < 2 ^ 64 ∧ exponent bits ≠ 2047 ∧ scale bits < 1075 ∧
    significand bits % 2 ^ (1075 - scale bits) ≠ 0

instance (bits : Nat) : Decidable (IsFraction bits) :=
  inferInstanceAs (Decidable (_ ∧ _ ∧ _ ∧ _))

end Float64

/-- A JavaScript number. -/
inductive JsNumber where
  /-- An integer other than minus zero. -/
  | int (value : Int)
  | negZero
  | fraction (bits : { bits : Nat // Float64.IsFraction bits })
  | infinite (negative : Bool)
  | nan
  deriving DecidableEq

namespace JsNumber

def isFinite : JsNumber → Bool
  | .infinite _ | .nan => false
  | _ => true

def isInteger : JsNumber → Bool
  | .int _ | .negZero => true
  | _ => false

def isSafeInteger : JsNumber → Bool
  | .int value => value.natAbs ≤ maxSafeInteger
  | .negZero => true
  | _ => false

/-- The number a 64-bit pattern stands for: `DataView.getFloat64`. -/
def float64 (bits : Nat) : JsNumber :=
  if h : Float64.IsFraction bits then .fraction ⟨bits, h⟩
  else
    let negative := decide (2 ^ 63 ≤ bits)
    if Float64.exponent bits = 2047 then
      if Float64.mantissa bits = 0 then .infinite negative else .nan
    else if Float64.significand bits = 0 then if negative then .negZero else .int 0
    else
      let magnitude :=
        if 1075 ≤ Float64.scale bits then
          Float64.significand bits * 2 ^ (Float64.scale bits - 1075)
        else Float64.significand bits / 2 ^ (1075 - Float64.scale bits)
      .int (if negative then -(magnitude : Int) else magnitude)

def negZeroBits : Nat := 2 ^ 63

theorem float64_fraction (bits : { bits : Nat // Float64.IsFraction bits }) : float64 bits.1 = .fraction bits := by
  rw [float64, dif_pos bits.2]

theorem float64_negZeroBits : float64 negZeroBits = .negZero := by
  have hsig : Float64.significand negZeroBits = 0 := by decide
  have hexp : Float64.exponent negZeroBits ≠ 2047 := by decide
  have hfrac : ¬ Float64.IsFraction negZeroBits := by
    rintro ⟨_, _, _, hrest⟩
    rw [hsig, Nat.zero_mod] at hrest
    exact hrest rfl
  rw [float64, dif_neg hfrac]
  simp only [if_neg hexp, if_pos hsig]
  rfl

end JsNumber

end PiRp
