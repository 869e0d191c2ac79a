import ClassAtlas.Number.Decimal
import ClassAtlas.Number.Rounding
import ClassAtlas.Number.Shortest

/-!
# Texts of single-precision numbers

Three renderings: fixed number of decimal places, shortest positional decimal, and shortest decimal
with an exponent outside of a range of magnitudes. Specification: `SPEC_FULL.md` §10.5, lines
159–163.
-/

namespace ClassAtlas.Number

/-- Run of zeros. -/
def zeros (count : Nat) : List Char := List.replicate count '0'

/-- Positional digits of a decimal number, in front of the point and behind it. -/
def DecimalNumber.positional (number : DecimalNumber) : List Char × List Char :=
  let written := digits number.coefficient
  if 0 ≤ number.exponent then (written ++ zeros number.exponent.toNat, [])
  else
    let places := (-number.exponent).toNat
    let padded := zeros (places + 1 - written.length) ++ written
    (padded.take (padded.length - places), padded.drop (padded.length - places))

/-- Exponent of the leading digit. -/
def DecimalNumber.magnitude (number : DecimalNumber) : Int :=
  (digits number.coefficient).length - 1 + number.exponent

/-- Prefix the minus sign of a negative number. -/
def signed (negative : Bool) (text : List Char) : String :=
  String.ofList (if negative then '-' :: text else text)

/-- Magnitudes rendered positionally in documents. -/
def plainMagnitude (magnitude : Int) : Bool := -6 ≤ magnitude && magnitude ≤ 12

/-- Document rendering of a shortest decimal: positional with at least one place, or scientific with
a signed exponent. -/
def DecimalNumber.document (number : DecimalNumber) : List Char :=
  if plainMagnitude number.magnitude then
    let (whole, places) := number.positional
    whole ++ '.' :: (if places.isEmpty then ['0'] else places)
  else
    let written := digits number.coefficient
    let rest := written.drop 1
    written.take 1 ++ (if rest.isEmpty then [] else '.' :: rest) ++
      'e' :: (if 0 ≤ number.magnitude then '+' else '-') :: digits number.magnitude.natAbs

/-- Document rendering of a number; absent unless it is finite. -/
def Single.document? : Single → Option String
  | .nan | .infinite _ => none
  | .finite negative 0 _ => some (signed negative ['0', '.', '0'])
  | .finite negative mantissa exponent =>
    some (signed negative (shortest mantissa exponent).document)

/-- Text of an undefined value. -/
def nanText : String := "NaN"

/-- Text of an infinity. -/
def infinityText (negative : Bool) : String := signed negative ['i', 'n', 'f']

/-- Shortest positional rendering. -/
def Single.plain : Single → String
  | .nan => nanText
  | .infinite negative => infinityText negative
  | .finite negative mantissa exponent =>
    let (whole, places) := (shortest mantissa exponent).positional
    signed negative (whole ++ if places.isEmpty then [] else '.' :: places)

/-- Positional rendering of a multiple of `10 ^ -places`. -/
def fixedDigits (places units : Nat) : List Char :=
  let written := digits units
  let padded := zeros (places + 1 - written.length) ++ written
  padded.take (padded.length - places) ++
    if places = 0 then [] else '.' :: padded.drop (padded.length - places)

/-- Number rounded to a multiple of `10 ^ -places`, ties to even. -/
def roundedUnits (places mantissa : Nat) (exponent : Int) : Nat :=
  let value := Fraction.scaled mantissa 2 exponent
  divRound (value.num * Nat.pow 10 places) value.den

/-- Rendering with a fixed number of places; a negative zero keeps its sign. -/
def Single.fixed (places : Nat) : Single → String
  | .nan => nanText
  | .infinite negative => infinityText negative
  | .finite negative mantissa exponent =>
    signed negative (fixedDigits places (roundedUnits places mantissa exponent))

/-- Rendering with a fixed number of places; a zero has no sign. -/
def Single.fixedUnsignedZero (places : Nat) : Single → String
  | .nan => nanText
  | .infinite negative => infinityText negative
  | .finite negative mantissa exponent =>
    let units := roundedUnits places mantissa exponent
    signed (negative && units != 0) (fixedDigits places units)

end ClassAtlas.Number
