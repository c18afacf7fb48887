import Mathlib.Data.List.Basic
import Mathlib.Tactic
import PiRp.JsText

/-! A text decoder that replaces what is no UTF-8. It reads one byte at a time and holds the bytes of an
unfinished character; a byte that cannot continue the character ends it with U+FFFD and is read again. How
the bytes are cut into chunks cannot be observed, and since a line break never continues a character, decoding
a text and decoding its lines is the same. -/

namespace PiRp

open List

namespace Utf8

/-- An unfinished character: how many bytes are to come, its bits so far, and the bounds of the next byte.
What it becomes is no ASCII character. -/
structure Pending where
  needed : Nat
  point : Nat
  lower : Nat
  upper : Nat
  above : 0x80 ≤ lower
  large : 2 ≤ point ∨ 1 < needed ∧ (1 ≤ point ∨ 0x82 ≤ lower)

/-- The replacement character U+FFFD. -/
def replacement : UInt16 := 0xfffd

/-- The first byte of a character. -/
def start (byte : UInt8) : JsStr × Option Pending :=
  if byte.toNat < 0x80 then ([UInt16.ofNat byte.toNat], none)
  else if hlead : 0xc2 ≤ byte.toNat ∧ byte.toNat < 0xe0 then
    ([], some ⟨1, byte.toNat - 0xc0, 0x80, 0xbf, by omega, by omega⟩)
  else if hlead : 0xe0 ≤ byte.toNat ∧ byte.toNat < 0xf0 then
    ([], some ⟨2, byte.toNat - 0xe0, if byte.toNat = 0xe0 then 0xa0 else 0x80,
      if byte.toNat = 0xed then 0x9f else 0xbf, by split_ifs <;> omega, by split_ifs <;> omega⟩)
  else if hlead : 0xf0 ≤ byte.toNat ∧ byte.toNat < 0xf5 then
    ([], some ⟨3, byte.toNat - 0xf0, if byte.toNat = 0xf0 then 0x90 else 0x80,
      if byte.toNat = 0xf4 then 0x8f else 0xbf, by split_ifs <;> omega, by split_ifs <;> omega⟩)
  else ([replacement], none)

/-- The bits of a character with those of one more byte. -/
def Pending.extend (pending : Pending) (byte : UInt8) : Nat := pending.point * 0x40 + (byte.toNat - 0x80)

theorem Pending.extend_large (pending : Pending) {byte : UInt8} (hbyte : pending.lower ≤ byte.toNat) :
    2 ≤ pending.extend byte := by
  have habove := pending.above
  have hlarge := pending.large
  unfold extend
  generalize byte.toNat = value at hbyte ⊢
  generalize pending.lower = lower at *
  generalize pending.point = point at *
  rcases hlarge with hlarge | ⟨_, hlarge | hlarge⟩
  · omega
  · omega
  · omega

theorem Pending.extend_last (pending : Pending) {byte : UInt8} (hlast : pending.needed ≤ 1) :
    0x80 ≤ pending.extend byte := by
  have hlarge := pending.large
  unfold extend
  generalize byte.toNat = value
  generalize pending.point = point at *
  rcases hlarge with hlarge | ⟨hmore, _⟩
  · omega
  · omega

/-- A byte that continues a character. -/
def Pending.continue (pending : Pending) (byte : UInt8) (hbyte : pending.lower ≤ byte.toNat) :
    JsStr × Option Pending :=
  if pending.needed ≤ 1 then (utf16Char (Char.ofNat (pending.extend byte)), none)
  else ([], some ⟨pending.needed - 1, pending.extend byte, 0x80, 0xbf, Nat.le_refl _,
    Or.inl (pending.extend_large hbyte)⟩)

def step : Option Pending → UInt8 → JsStr × Option Pending
  | none, byte => start byte
  | some pending, byte =>
    if hbyte : pending.lower ≤ byte.toNat ∧ byte.toNat ≤ pending.upper then pending.continue byte hbyte.1
    else (replacement :: (start byte).1, (start byte).2)

/-- The text of a chunk, and the character that is unfinished behind it. -/
def decodeFrom : Option Pending → List UInt8 → JsStr × Option Pending
  | state, [] => ([], state)
  | state, byte :: rest =>
    ((step state byte).1 ++ (decodeFrom (step state byte).2 rest).1, (decodeFrom (step state byte).2 rest).2)

/-- The end of the bytes ends an unfinished character. -/
def flush : Option Pending → JsStr
  | none => []
  | some _ => [replacement]

/-- The text of some bytes, without regard to a byte order mark. -/
def decode (bytes : List UInt8) : JsStr := (decodeFrom none bytes).1 ++ flush (decodeFrom none bytes).2

theorem decodeFrom_append (state : Option Pending) (left right : List UInt8) : decodeFrom state (left ++ right) =
      ((decodeFrom state left).1 ++ (decodeFrom (decodeFrom state left).2 right).1,
        (decodeFrom (decodeFrom state left).2 right).2) := by
  induction left generalizing state with
  | nil => rfl
  | cons byte rest ih => rw [cons_append, decodeFrom, ih, decodeFrom, append_assoc]

/-! ### Line breaks -/

theorem start_newline : start 0x0a = ([0x0a], none) := rfl

theorem step_newline (state : Option Pending) : step state 0x0a = (flush state ++ [0x0a], none) := by
  cases state with
  | none => rfl
  | some pending =>
    have habove := pending.above
    have hbyte : ¬(pending.lower ≤ (0x0a : UInt8).toNat ∧ (0x0a : UInt8).toNat ≤ pending.upper) := by
      rw [show (0x0a : UInt8).toNat = 0x0a from rfl]
      omega
    rw [step, dif_neg hbyte, start_newline]
    rfl

theorem decode_newline (left right : List UInt8) :
    decode (left ++ 0x0a :: right) = decode left ++ 0x0a :: decode right := by
  rw [decode, decodeFrom_append, decodeFrom, step_newline, decode, decode]
  simp only [append_assoc, cons_append, nil_append]

theorem newline_notMem_utf16Char {point : Nat} (hpoint : 0x80 ≤ point) :
    (0x0a : UInt16) ∉ utf16Char (Char.ofNat point) := by
  have hvalue : (Char.ofNat point).toNat = 0 ∨ 0x80 ≤ (Char.ofNat point).toNat := by
    by_cases hvalid : point.isValidChar
    · rw [Char.ofNat, dif_pos hvalid]
      exact .inr hpoint
    · left
      rw [Char.ofNat, dif_neg hvalid]
      rfl
  have hbound : (Char.ofNat point).toNat < 0x110000 := by
    rcases char_toNat_bound (Char.ofNat point) with hlow | hhigh
    · omega
    · exact hhigh.2
  have hunit {value : Nat} (hsmall : value < 0x10000) (hne : value ≠ 0x0a) : (0x0a : UInt16) ≠ UInt16.ofNat value := by
    intro heq
    have hvalue := congrArg UInt16.toNat heq
    rw [toNat_ofNat_unit hsmall] at hvalue
    exact hne hvalue.symm
  rw [utf16Char]
  split_ifs with hbmp
  · rw [mem_singleton]
    exact hunit hbmp (by omega)
  · simp only [mem_cons, not_mem_nil, or_false, not_or]
    exact ⟨hunit (by omega) (by omega), hunit (by omega) (by omega)⟩

theorem newline_notMem_step (state : Option Pending) {byte : UInt8} (hbyte : byte ≠ 0x0a) :
    (0x0a : UInt16) ∉ (step state byte).1 := by
  have hstart : (0x0a : UInt16) ∉ (start byte).1 := by
    have hsmall := byte.toNat_lt
    have hne : byte.toNat ≠ 0x0a := fun heq => hbyte (UInt8.toNat_inj.mp heq)
    rw [start]
    split_ifs
    · rw [mem_singleton]
      intro heq
      have hvalue := congrArg UInt16.toNat heq
      rw [toNat_ofNat_unit (by omega)] at hvalue
      exact hne hvalue.symm
    all_goals simp [replacement]
  cases state with
  | none => exact hstart
  | some pending =>
    rw [step]
    split_ifs with hcon
    · rw [Pending.continue]
      split_ifs with hlast
      · dsimp only
        exact newline_notMem_utf16Char (pending.extend_last hlast)
      · exact not_mem_nil
    · rw [mem_cons, not_or]
      exact ⟨by decide, hstart⟩

theorem newline_notMem_decodeFrom (state : Option Pending) {bytes : List UInt8} (hbytes : 0x0a ∉ bytes) :
    (0x0a : UInt16) ∉ (decodeFrom state bytes).1 := by
  induction bytes generalizing state with
  | nil => exact not_mem_nil
  | cons byte rest ih =>
    rw [mem_cons, not_or] at hbytes
    rw [decodeFrom, mem_append, not_or]
    exact ⟨newline_notMem_step state (Ne.symm hbytes.1), ih _ hbytes.2⟩

theorem newline_notMem_decode {bytes : List UInt8} (hbytes : 0x0a ∉ bytes) : (0x0a : UInt16) ∉ decode bytes := by
  rw [decode, mem_append, not_or]
  refine ⟨newline_notMem_decodeFrom none hbytes, ?_⟩
  cases (decodeFrom none bytes).2 with
  | none => exact not_mem_nil
  | some pending =>
    rw [flush, mem_singleton]
    decide

theorem splitOn_decode (bytes : List UInt8) : (decode bytes).splitOn 0x0a = (bytes.splitOn 0x0a).map decode := by
  induction hlength : bytes.length using Nat.strong_induction_on generalizing bytes with
  | _ length ih =>
    by_cases hmem : 0x0a ∈ bytes
    · obtain ⟨line, rest, rfl, hline⟩ := eq_append_cons_of_mem hmem
      have hrest := ih rest.length (by rw [← hlength, length_append, length_cons]; omega) rest rfl
      rw [decode_newline, splitOn_append_cons_self_of_not_mem (newline_notMem_decode hline), hrest,
        splitOn_append_cons_self_of_not_mem hline, map_cons]
    · rw [splitOn_eq_singleton hmem, splitOn_eq_singleton (newline_notMem_decode hmem), map_singleton]

end Utf8

end PiRp
