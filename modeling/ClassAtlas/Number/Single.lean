/-!
# Single-precision numbers

Exact interpretation of the 32-bit format with a sign, eight exponent bits and 23 fraction bits.
Specification: `SPEC_FULL.md` §4.4, line 61.
-/

namespace ClassAtlas.Number

/-- Value of a bit pattern; a finite value is `mantissa * 2 ^ exponent` up to its sign. -/
inductive Single where
  | nan
  | infinite (negative : Bool)
  | finite (negative : Bool) (mantissa : Nat) (exponent : Int)
  deriving DecidableEq, Repr

namespace Single

/-- Exponent of the subnormal numbers. -/
def minExponent : Int := -149

/-- Least mantissa of a normal number. -/
def hiddenBit : Nat := 0x800000

/-- Biased exponent of infinities and undefined values. -/
def maxBiased : Nat := 0xFF

/-- Value of a bit pattern. -/
def ofBits (bits : UInt32) : Single :=
  let negative := decide (0x80000000 ≤ bits.toNat)
  let biased := bits.toNat / hiddenBit % (maxBiased + 1)
  let fraction := bits.toNat % hiddenBit
  if biased = maxBiased then if fraction = 0 then infinite negative else nan
  else if biased = 0 then finite negative fraction minExponent
  else finite negative (hiddenBit + fraction) (minExponent + (biased - 1 : Nat))

/-- Value of a machine number. -/
def ofFloat (value : Float32) : Single := ofBits value.toBits

end Single

/-- Fraction with a positive denominator. -/
structure Fraction where
  num : Nat
  den : Nat
  deriving DecidableEq, Repr

/-- Fraction `mantissa * base ^ exponent`. -/
def Fraction.scaled (mantissa base : Nat) (exponent : Int) : Fraction :=
  ⟨mantissa * Nat.pow base exponent.toNat, Nat.pow base (-exponent).toNat⟩

end ClassAtlas.Number
