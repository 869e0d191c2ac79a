import ClassAtlas.Number.Single

/-!
# Shortest round-trip decimals

The shortest decimal that a single-precision parser rounds to a given number, and the nearest one of
that length. Decimals with a common exponent form a grid; the search visits grids from coarse to
fine and inspects the two neighbours of the number on each. Specification: `SPEC_FULL.md` §4.4, line
61 (single precision), and §10.5, lines 159–163 (serialization).
-/

namespace ClassAtlas.Number

/-- Decimal number `coefficient * 10 ^ exponent`. -/
structure DecimalNumber where
  coefficient : Nat
  exponent : Int
  deriving DecidableEq, Repr

/-- Rounding interval of a single-precision number in units of a quarter of its last binary place.
It is closed if the mantissa is even. -/
structure RoundingRange where
  low : Nat
  middle : Nat
  high : Nat
  closed : Bool

/-- Rounding interval of `mantissa * 2 ^ exponent`. Its lower half is halved at a power of two. -/
def RoundingRange.of (mantissa : Nat) (exponent : Int) : RoundingRange where
  low :=
    if mantissa = Single.hiddenBit ∧ Single.minExponent < exponent then 4 * mantissa - 1
    else 4 * mantissa - 2
  middle := 4 * mantissa
  high := 4 * mantissa + 2
  closed := mantissa % 2 = 0

/-- Membership of a fraction of quarter places in a rounding interval. -/
def RoundingRange.contains (range : RoundingRange) (value : Fraction) : Bool :=
  if range.closed then
    range.low * value.den ≤ value.num && value.num ≤ range.high * value.den
  else range.low * value.den < value.num && value.num < range.high * value.den

/-- Grid point of `10 ^ power` nearest to `mantissa * 2 ^ exponent` among its two neighbours within
the rounding interval, ties to even. -/
def gridPoint? (mantissa : Nat) (exponent power : Int) : Option Nat :=
  let range := RoundingRange.of mantissa exponent
  -- One grid step, in quarter places.
  let tens := Fraction.scaled 1 10 power
  let twos := Fraction.scaled 1 2 (2 - exponent)
  let step : Fraction := ⟨tens.num * twos.num, tens.den * twos.den⟩
  let below := range.middle * step.den / step.num
  let within (point : Nat) : Bool := range.contains ⟨point * step.num, step.den⟩
  match within below, within (below + 1) with
  | false, false => none
  | true, false => some below
  | false, true => some (below + 1)
  | true, true =>
    let twice := 2 * (range.middle * step.den - below * step.num)
    if twice < step.num then some below
    else if step.num < twice then some (below + 1)
    else some (below + below % 2)

/-- Remove trailing zeros of the coefficient, at most `fuel` of them. -/
def DecimalNumber.trim (number : DecimalNumber) : (fuel : Nat) → DecimalNumber
  | 0 => number
  | fuel + 1 =>
    if number.coefficient ≠ 0 ∧ number.coefficient % 10 = 0 then
      DecimalNumber.trim ⟨number.coefficient / 10, number.exponent + 1⟩ fuel
    else number

/-- Exponents of the visited grids, coarsest first. The coarsest exceeds every single-precision
number, the finest is below half of the least positive one. -/
def gridPowers : List Int := (List.range 100).map fun (step : Nat) => 40 - (step : Int)

/-- Shortest decimal that rounds to `mantissa * 2 ^ exponent`. -/
def shortest (mantissa : Nat) (exponent : Int) : DecimalNumber :=
  let found := gridPowers.findSome? fun power =>
    (gridPoint? mantissa exponent power).map fun point => (⟨point, power⟩ : DecimalNumber)
  (found.getD ⟨0, 0⟩).trim 40

end ClassAtlas.Number
