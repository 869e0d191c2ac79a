/-!
# UTF-16 code units

Texts as sequences of 16-bit code units. A supplementary character is a surrogate pair; a lone
surrogate decodes to the replacement character. Specification: `SPEC_FULL.md` §4.2, lines 40–46.
-/

namespace ClassAtlas.Text.Utf16

/-- Replacement character. -/
def replacement : Char := '\uFFFD'

/-- High surrogates. -/
def IsHigh (unit : UInt16) : Prop := 0xD800 ≤ unit ∧ unit ≤ 0xDBFF

/-- Low surrogates. -/
def IsLow (unit : UInt16) : Prop := 0xDC00 ≤ unit ∧ unit ≤ 0xDFFF

/-- The high surrogate test is decidable. -/
instance (unit : UInt16) : Decidable (IsHigh unit) := inferInstanceAs (Decidable (_ ∧ _))

/-- The low surrogate test is decidable. -/
instance (unit : UInt16) : Decidable (IsLow unit) := inferInstanceAs (Decidable (_ ∧ _))

/-- Supplementary character of a surrogate pair. -/
def pair (high low : UInt16) : Char :=
  Char.ofNat (0x10000 + (high.toNat - 0xD800) * 0x400 + (low.toNat - 0xDC00))

/-- Decode code units, replacing lone surrogates. -/
def decode : List UInt16 → List Char
  | [] => []
  | unit :: rest =>
    if IsHigh unit then
      match rest with
      | next :: later =>
        if IsLow next then pair unit next :: decode later
        else replacement :: decode (next :: later)
      | [] => [replacement]
    else if IsLow unit then replacement :: decode rest
    else Char.ofNat unit.toNat :: decode rest

/-- Code units of a character. -/
def encodeChar (c : Char) : List UInt16 :=
  if c.toNat < 0x10000 then [UInt16.ofNat c.toNat]
  else
    [UInt16.ofNat (0xD800 + (c.toNat - 0x10000) / 0x400),
      UInt16.ofNat (0xDC00 + (c.toNat - 0x10000) % 0x400)]

/-- Code units of a text. -/
def encode (text : List Char) : List UInt16 := text.flatMap encodeChar

end ClassAtlas.Text.Utf16
