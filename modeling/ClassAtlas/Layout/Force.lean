import ClassAtlas.Layout.Scalar
import ClassAtlas.Vec3

/-!
# Pairwise forces

Repulsion and attraction steps of a pair at a given distance. All thresholds are multiples of the
node radius. Specification: `SPEC_FULL.md` §4.4, lines 55–61.
-/

namespace ClassAtlas.Layout

variable {α : Type} [Scalar α]

/-- Embedding of the natural numbers into the scalars. -/
def whole (value : Nat) : α := Scalar.ofDecimal value 0

/-- Node radius. -/
def nodeRadius : α := Scalar.ofDecimal 6378 3

/-- Distance below which a related pair is pushed apart by a constant step. -/
def shortThreshold : α := whole 3 * nodeRadius

/-- Distance from which on no pair is pushed apart. -/
def longThreshold : α := whole 8 * nodeRadius

/-- Distance beyond which a related pair attracts. -/
def attractionThreshold : α := whole 4 * nodeRadius

/-- Repulsion per tick as a fraction of a distance. -/
def repulsionFraction : α := whole 1 / whole 3

/-- Attraction per tick and unit of weight. -/
def attractionRate : α := nodeRadius / whole 8

/-- Repulsion step of a pair at a distance. -/
def repulsionStep (related : Bool) (distance : α) : α :=
  if related && Scalar.less distance shortThreshold then shortThreshold * repulsionFraction
  else if Scalar.less distance longThreshold then
    Scalar.sqrt (longThreshold * longThreshold - distance * distance) * repulsionFraction
  else 0

/-- Attraction step of a related pair at a distance, capped at the distance to the threshold. -/
def attractionStep (weight distance : α) : α :=
  if Scalar.less attractionThreshold distance then
    Scalar.least (weight * attractionRate) (distance - attractionThreshold)
  else 0

/-- Length of a vector. -/
def length (v : Vec3 α) : α := Scalar.sqrt (v.x * v.x + v.y * v.y + v.z * v.z)

/-- Separation of one point from another: unit direction and distance. -/
structure Separation (α : Type) where
  direction : Vec3 α
  distance : α

/-- Separation of `a` from `b`; a coincident pair takes the substituted direction. -/
def separation (fallback a b : Vec3 α) : Separation α :=
  let d := a - b
  let distance := length d
  if Scalar.less 0 distance then ⟨d.map (· / distance), distance⟩ else ⟨fallback, 0⟩

end ClassAtlas.Layout
