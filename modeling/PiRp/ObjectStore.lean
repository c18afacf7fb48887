import PiRp.JsBytes
import PiRp.JsMap
import PiRp.JsText
import PiRp.JsonText

/-! Content-addressed objects of `packages/agent/src/core/objects/object-store.ts`. SHA-256 is a
parameter; an object's hash is its digest in lower-case hexadecimal digits. A store is the map from
hashes to bytes it currently holds. -/

namespace PiRp

/-- The digest of a byte sequence. -/
class Sha256 where
  digest : Bytes → Bytes
  length_digest : ∀ data, (digest data).length = 32

/-- A byte order mark is dropped by a `TextDecoder`. -/
def byteOrderMark : Bytes := [0xEF, 0xBB, 0xBF]

/-- The longest string the engine can hold. -/
def maxStringLength : Nat := 2 ^ 29 - 24

/-- `decode` of a fatal `TextDecoder`. -/
def decoderDecode (bytes : Bytes) : Option JsStr :=
  (textDecode (if byteOrderMark.isPrefixOf bytes then bytes.drop 3 else bytes)).filter fun text =>
    text.length ≤ maxStringLength

abbrev ObjectHash := JsStr

namespace ObjectHash

/-- `HEX_DIGITS[byte >> 4] + HEX_DIGITS[byte & 0x0f]` for each byte. -/
def hex (bytes : Bytes) : JsStr :=
  bytes.flatMap fun byte => [JsonText.hexDigit (byte.toNat / 16), JsonText.hexDigit (byte.toNat % 16)]

def isHexUnit (unit : UInt16) : Bool :=
  (0x30 ≤ unit.toNat && unit.toNat ≤ 0x39) || (0x61 ≤ unit.toNat && unit.toNat ≤ 0x66)

/-- Sixty-four lower-case hexadecimal digits. -/
def isObjectHash (value : JsStr) : Bool := value.length = 64 && value.all isHexUnit

theorem isHexUnit_hexDigit {value : Nat} (hvalue : value < 16) : isHexUnit (JsonText.hexDigit value) = true := by
  interval_cases value <;> decide

theorem hex_length (bytes : Bytes) : (hex bytes).length = 2 * bytes.length := by
  induction bytes with
  | nil => rfl
  | cons byte rest ih =>
    rw [hex, List.flatMap_cons, List.length_append, ← hex, ih, List.length_cons, List.length_cons,
      List.length_cons, List.length_nil]
    omega

theorem hex_units (bytes : Bytes) : ∀ unit ∈ hex bytes, isHexUnit unit = true := by
  intro unit hunit
  obtain ⟨byte, _, hbyte⟩ := List.mem_flatMap.mp hunit
  have hbound : byte.toNat < 256 := byte.toNat_lt
  rcases List.mem_cons.mp hbyte with rfl | hbyte
  · exact isHexUnit_hexDigit (by omega)
  · obtain rfl := List.mem_singleton.mp hbyte
    exact isHexUnit_hexDigit (by omega)

end ObjectHash

section Hashing

variable [Sha256]

def hashObject (data : Bytes) : ObjectHash := ObjectHash.hex (Sha256.digest data)

theorem isObjectHash_hashObject (data : Bytes) : ObjectHash.isObjectHash (hashObject data) = true := by
  rw [ObjectHash.isObjectHash, Bool.and_eq_true, decide_eq_true_eq, hashObject, ObjectHash.hex_length,
    Sha256.length_digest]
  exact ⟨rfl, List.all_eq_true.mpr (ObjectHash.hex_units _)⟩

end Hashing

/-- The objects a store holds, by hash. -/
abbrev ObjectStore := JsMap ObjectHash Bytes

end PiRp
