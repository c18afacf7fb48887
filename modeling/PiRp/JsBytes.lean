import Mathlib.Data.List.Basic
import Mathlib.Tactic

/-! Typed arrays as lists of bytes: `target.set(source, offset)` and big-endian numbers. -/

namespace PiRp

abbrev Bytes := List UInt8

/-- `target.set(source, offset)` on a typed array. -/
def setBytes (target source : Bytes) (offset : Nat) : Bytes :=
  target.take offset ++ source ++ target.drop (offset + source.length)

theorem setBytes_length {target source : Bytes} {offset : Nat} (hfits : offset + source.length ≤ target.length) :
    (setBytes target source offset).length = target.length := by
  simp only [setBytes, List.length_append, List.length_take, List.length_drop]
  omega

theorem setBytes_take {target source : Bytes} {offset : Nat} (hfits : offset + source.length ≤ target.length) :
    (setBytes target source offset).take (offset + source.length) = target.take offset ++ source := by
  rw [setBytes]
  apply List.take_left'
  rw [List.length_append, List.length_take]
  omega

/-- The low `width` bytes of a number, most significant first. -/
def beBytes : Nat → Nat → Bytes
  | 0, _ => []
  | width + 1, value => UInt8.ofNat (value / 256 ^ width) :: beBytes width value

/-- The number big-endian bytes stand for. -/
def beValue (bytes : Bytes) : Nat :=
  bytes.foldl (fun value byte => value * 256 + byte.toNat) 0

theorem beBytes_length (width value : Nat) : (beBytes width value).length = width := by
  induction width with
  | zero => rfl
  | succ width ih => rw [beBytes, List.length_cons, ih]

theorem foldl_beBytes (width value start : Nat) :
    (beBytes width value).foldl (fun value byte => value * 256 + byte.toNat) start =
      start * 256 ^ width + value % 256 ^ width := by
  induction width generalizing start with
  | zero => simp [beBytes, Nat.mod_one]
  | succ width ih =>
    have hmod : value % (256 ^ width * 256) =
        value % 256 ^ width + 256 ^ width * (value / 256 ^ width % 256) := Nat.mod_mul
    rw [beBytes, List.foldl_cons, ih, UInt8.toNat_ofNat', show 2 ^ 8 = 256 from rfl, Nat.pow_succ, hmod]
    ring

theorem beValue_beBytes {width value : Nat} (hvalue : value < 256 ^ width) :
    beValue (beBytes width value) = value := by
  rw [beValue, foldl_beBytes, Nat.zero_mul, Nat.zero_add, Nat.mod_eq_of_lt hvalue]

end PiRp
