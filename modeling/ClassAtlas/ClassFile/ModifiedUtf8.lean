import ClassAtlas.Text.Utf16
import ClassAtlas.Text.Utf8

/-!
# Modified UTF-8

Encoding of texts in class files: each UTF-16 code unit is a group of one to three bytes, the unit
zero a group of two. Well-formed UTF-8 is decoded as such, which differs only for four-byte
sequences. Any other input is decoded group by group; continuation bytes are not checked, and a byte
that starts no complete group decodes to a replacement character. Specification: `SPEC_FULL.md`
§4.2, lines 40–46.
-/

namespace ClassAtlas.ModifiedUtf8

/-- Code unit of a two-byte group. -/
def two (a b : UInt8) : UInt16 := UInt16.ofNat (a.toNat % 0x20 * 0x40 + b.toNat % 0x40)

/-- Code unit of a three-byte group. -/
def three (a b c : UInt8) : UInt16 :=
  UInt16.ofNat (a.toNat % 0x10 * 0x1000 + b.toNat % 0x40 * 0x40 + c.toNat % 0x40)

/-- Replacement code unit for a byte that starts no complete group. -/
def stray : UInt16 := 0xFFFD

/-- Code units of a byte sequence, decoded group by group. -/
def units : List UInt8 → List UInt16
  | [] => []
  | a :: b :: c :: rest =>
    if a < 0x80 then a.toUInt16 :: units (b :: c :: rest)
    else if 0xC0 ≤ a ∧ a < 0xE0 then two a b :: units (c :: rest)
    else if 0xE0 ≤ a ∧ a < 0xF0 then three a b c :: units rest
    else stray :: units (b :: c :: rest)
  | [a, b] =>
    if a < 0x80 then a.toUInt16 :: units [b]
    else if 0xC0 ≤ a ∧ a < 0xE0 then [two a b]
    else stray :: units [b]
  | [a] => if a < 0x80 then [a.toUInt16] else [stray]

/-- Text of a byte sequence. -/
def decode (bytes : List UInt8) : String :=
  match Text.Utf8.decode? bytes with
  | some text => text
  | none => String.ofList (Text.Utf16.decode (units bytes))

/-- Group of a code unit. -/
def encodeUnit (unit : UInt16) : List UInt8 :=
  let n := unit.toNat
  if 0 < n ∧ n < 0x80 then [UInt8.ofNat n]
  else if n < 0x800 then [UInt8.ofNat (0xC0 + n / 0x40), UInt8.ofNat (0x80 + n % 0x40)]
  else
    [UInt8.ofNat (0xE0 + n / 0x1000), UInt8.ofNat (0x80 + n / 0x40 % 0x40),
      UInt8.ofNat (0x80 + n % 0x40)]

/-- Encoding of a sequence of code units. -/
def encode (units : List UInt16) : List UInt8 := units.flatMap encodeUnit

end ClassAtlas.ModifiedUtf8
