/-!
# Hexadecimal numerals

Lower-case hexadecimal numerals, canonical or padded to a fixed width. They occur in error texts and
escapes; specification: `SPEC_FULL.md` §10.2, lines 128–129.
-/

namespace ClassAtlas.Number

/-- Hexadecimal numeral of a number, without leading zeros. -/
def hex (value : Nat) : String := String.ofList (Nat.toDigits 16 value)

/-- Hexadecimal numeral of a number, padded with zeros to a width. -/
def hexPadded (width value : Nat) : String :=
  let digits := Nat.toDigits 16 value
  String.ofList (List.replicate (width - digits.length) '0' ++ digits)

end ClassAtlas.Number
