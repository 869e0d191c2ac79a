import ClassAtlas.Number.Rounding

/-!
# Accumulated weights

Accumulated weight of a pair as a natural number in single precision: sums are exact up to 24 binary
digits and rounded to nearest, ties to even, beyond. Specification: `SPEC_FULL.md` §3, lines 23–30.
-/

namespace ClassAtlas

/-- Accumulated weight in units of the weakest kind. -/
structure Weight where
  units : Nat
  deriving DecidableEq, Repr

namespace Weight

/-- Significand precision in binary digits. -/
def precision : Nat := 24

/-- Number of binary digits of a sum beyond the precision. -/
def excess (total : Nat) : Nat := total.log2 + 1 - precision

/-- Value of the last retained binary digit. -/
def unit (total : Nat) : Nat := Nat.pow 2 (excess total)

/-- Sum rounded to the precision. -/
def rounded (total : Nat) : Nat := Number.divRound total (unit total) * unit total

/-- The weight of unrelated classes is zero. -/
instance : Zero Weight where
  zero := ⟨0⟩

/-- Addition rounds the exact sum. -/
instance : Add Weight where
  add a b := ⟨rounded (a.units + b.units)⟩

/-- Addition of weights on their units. -/
theorem units_add (a b : Weight) : (a + b).units = rounded (a.units + b.units) := rfl

/-- Zero weight on its units. -/
theorem units_zero : (0 : Weight).units = 0 := rfl

/-- Single-precision value of a weight. -/
def toFloat (weight : Weight) : Float32 := Float32.ofNat weight.units

end Weight

end ClassAtlas
