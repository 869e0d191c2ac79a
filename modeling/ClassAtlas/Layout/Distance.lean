import ClassAtlas.Vec3

/-!
# Euclidean distance

Distance of two points, computed in double precision and rounded to single precision. Specification:
`SPEC_FULL.md` §4.4, lines 56–61.
-/

namespace ClassAtlas.Layout

/-- Distance of two points in single precision. -/
def distance (a b : Vec3 Float32) : Float32 :=
  let square (p q : Float32) : Float := (p.toFloat - q.toFloat) * (p.toFloat - q.toFloat)
  (square a.x b.x + square a.y b.y + square a.z b.z).sqrt.toFloat32

end ClassAtlas.Layout
