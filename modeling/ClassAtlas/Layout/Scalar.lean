/-!
# Scalars of the layout

The layout is polymorphic in its arithmetic. It runs in single precision (`Float32`); the real
numbers are a second instance, over which exact laws are stated. Specification: `SPEC_FULL.md` §4.4,
line 61.
-/

namespace ClassAtlas

/-- Arithmetic used by the layout: `ofDecimal` embeds `digits / 10 ^ places`, `least` is the
minimum, `less` and `same` are the comparisons. -/
class Scalar (α : Type) extends Zero α, Add α, Sub α, Mul α, Div α, Neg α where
  ofDecimal : (digits places : Nat) → α
  sqrt : α → α
  least : α → α → α
  less : α → α → Bool
  same : α → α → Bool

/-- Single precision. The minimum with an undefined value is the other argument. -/
instance : Scalar Float32 where
  ofDecimal digits places := OfScientific.ofScientific digits true places
  sqrt := Float32.sqrt
  least a b := if a.isNaN then b else if b.isNaN then a else if b < a then b else a
  less a b := decide (a < b)
  same a b := a == b

end ClassAtlas
