/-!
# Three-dimensional vectors

Node positions and displacements over an arbitrary scalar type. Specification: `SPEC_FULL.md` §3,
line 24.
-/

namespace ClassAtlas

/-- Vector of three coordinates. -/
structure Vec3 (α : Type) where
  x : α
  y : α
  z : α
  deriving DecidableEq, Repr

namespace Vec3

variable {α β : Type}

/-- Coordinates in order, as serialized. -/
def toList (v : Vec3 α) : List α := [v.x, v.y, v.z]

/-- Vector with three equal coordinates. -/
def uniform (a : α) : Vec3 α := ⟨a, a, a⟩

/-- Coordinatewise application of a unary function. -/
def map (f : α → β) (v : Vec3 α) : Vec3 β := ⟨f v.x, f v.y, f v.z⟩

/-- Coordinatewise application of a binary function. -/
def zipWith (f : α → α → β) (v w : Vec3 α) : Vec3 β := ⟨f v.x w.x, f v.y w.y, f v.z w.z⟩

/-- Vector addition is coordinatewise. -/
instance [Add α] : Add (Vec3 α) where
  add := zipWith (· + ·)

/-- Vector subtraction is coordinatewise. -/
instance [Sub α] : Sub (Vec3 α) where
  sub := zipWith (· - ·)

/-- The zero vector is the origin. -/
instance [Zero α] : Zero (Vec3 α) where
  zero := uniform 0

/-- Scalar multiplication. -/
def scale [Mul α] (v : Vec3 α) (factor : α) : Vec3 α := v.map (· * factor)

end Vec3

end ClassAtlas
