/-!
# CRC-32

Cyclic redundancy check of archive entries: reversed polynomial `EDB88320`, initial register all
ones, inverted result. Specification: `SPEC_FULL.md` §10.6, lines 171–174.
-/

namespace ClassAtlas.Crc32

/-- Reversed generator polynomial. -/
def polynomial : UInt32 := 0xEDB88320

/-- Shift one bit out of the register. -/
def shiftBit (state : UInt32) : UInt32 :=
  if state % 2 = 1 then (state >>> 1) ^^^ polynomial else state >>> 1

/-- Shift a number of bits out of the register. -/
def shiftBits (state : UInt32) : (count : Nat) → UInt32
  | 0 => state
  | count + 1 => shiftBits (shiftBit state) count

/-- Register transition for each of the 256 byte values. -/
def table : Array UInt32 := Array.ofFn fun byte : Fin 256 => shiftBits (UInt32.ofNat byte) 8

/-- Register after one more byte. -/
def step (state : UInt32) (byte : UInt8) : UInt32 :=
  (state >>> 8) ^^^ table[((state ^^^ byte.toUInt32) % 256).toNat]?.getD 0

/-- Checksum of a byte sequence. -/
def ofBytes (bytes : ByteArray) : UInt32 :=
  (bytes.foldl step 0xFFFFFFFF) ^^^ 0xFFFFFFFF

end ClassAtlas.Crc32
