/-!
# Integers as byte sequences

Class files are big-endian, archives little-endian. Both decoders are base 256 evaluations, and the
fixed-width big-endian encoder inverts the first modulo the width. Used by the class file decoder
and the archive reader; specification: `SPEC_FULL.md` §4.2, lines 40–46, and §10.6, lines 171–174.
-/

namespace ClassAtlas.Bytes

/-- Big-endian value of a byte sequence. -/
def bigEndian (bytes : List UInt8) : Nat :=
  bytes.foldl (fun value byte => value * 256 + byte.toNat) 0

/-- Little-endian value of a byte sequence. -/
def littleEndian : List UInt8 → Nat
  | [] => 0
  | byte :: rest => byte.toNat + 256 * littleEndian rest

/-- Big-endian encoding in `width` bytes, reduced modulo `256 ^ width`. -/
def ofNat : (width : Nat) → Nat → List UInt8
  | 0, _ => []
  | width + 1, value => ofNat width (value / 256) ++ [UInt8.ofNat value]

/-- Exclusive bound of the two-byte integers. -/
def wordLimit : Nat := 0x10000

/-- Exclusive bound of the four-byte integers. -/
def doubleWordLimit : Nat := 0x100000000

/-- Big-endian encoding of a 16-bit word. -/
def word (value : UInt16) : List UInt8 := ofNat 2 value.toNat

/-- Fixed-width encoding has exactly the requested length. -/
theorem length_ofNat (width value : Nat) : (ofNat width value).length = width := by
  induction width generalizing value with
  | zero => rfl
  | succ width ih => simp [ofNat, ih]

/-- Appending a byte appends a least significant base 256 digit. -/
theorem bigEndian_concat (bytes : List UInt8) (byte : UInt8) :
    bigEndian (bytes ++ [byte]) = bigEndian bytes * 256 + byte.toNat := by
  simp [bigEndian]

/-- Decoding a fixed-width encoding reduces the value modulo the width. -/
theorem bigEndian_ofNat (width value : Nat) :
    bigEndian (ofNat width value) = value % Nat.pow 256 width := by
  induction width generalizing value with
  | zero => simp [ofNat, bigEndian, Nat.mod_one]
  | succ width ih =>
    have power : Nat.pow 256 (width + 1) = 256 * Nat.pow 256 width := Nat.mul_comm ..
    have digit : (UInt8.ofNat value).toNat = value % 256 := UInt8.toNat_ofNat'
    rw [ofNat, bigEndian_concat, ih, digit, power, Nat.mod_mul]
    omega

end ClassAtlas.Bytes
