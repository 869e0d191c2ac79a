import ClassAtlas.Layout.Force
import ClassAtlas.Proofs.Number.Magnitude
import Mathlib

/-!
# Laws of the scalars

`LawfulScalar` holds in single precision: distances are symmetric, bit for bit. `ExactScalar` adds
exact addition, so that displacements can be summed in any order and opposite pushes cancel; the
real numbers are an instance. Specification: `SPEC_FULL.md` §4.4, line 61, and §5, line 66.
-/

namespace ClassAtlas

/-- Laws that survive rounding. -/
class LawfulScalar (α : Type) [Scalar α] : Prop where
  less_zero : Scalar.less (0 : α) 0 = false
  same_zero : Scalar.same (0 : α) 0 = true
  sub_mul_self_comm (a b : α) : (a - b) * (a - b) = (b - a) * (b - a)

/-- Single precision is lawful. -/
instance : LawfulScalar Float32 where
  less_zero := by decide +kernel
  same_zero := by decide +kernel
  sub_mul_self_comm := Number.sub_mul_self_comm

/-- Scalars with exact addition. Products and quotients may be rounded, symmetrically in the
sign. -/
class ExactScalar (α : Type) [Scalar α] : Prop extends LawfulScalar α where
  add_assoc (a b c : α) : a + b + c = a + (b + c)
  add_comm (a b : α) : a + b = b + a
  zero_add (a : α) : 0 + a = a
  neg_add_cancel (a : α) : -a + a = 0
  sub_eq_add_neg (a b : α) : a - b = a + -b
  neg_mul (a b : α) : -a * b = -(a * b)
  neg_div (a b : α) : -a / b = -(a / b)
  eq_of_same {a b : α} : Scalar.same a b = true → a = b

/-! ### Vectors -/

attribute [ext] Vec3

namespace Vec3

variable {α : Type}

/-- Vector negation is coordinatewise. -/
instance [Neg α] : Neg (Vec3 α) where
  neg := map fun a => -a

/-- Vectors over exact scalars form a commutative group. -/
instance [Scalar α] [ExactScalar α] : AddCommGroup (Vec3 α) where
  add_assoc _ _ _ :=
    Vec3.ext (ExactScalar.add_assoc ..) (ExactScalar.add_assoc ..) (ExactScalar.add_assoc ..)
  add_comm _ _ :=
    Vec3.ext (ExactScalar.add_comm ..) (ExactScalar.add_comm ..) (ExactScalar.add_comm ..)
  zero_add _ := Vec3.ext (ExactScalar.zero_add _) (ExactScalar.zero_add _) (ExactScalar.zero_add _)
  add_zero _ := Vec3.ext ((ExactScalar.add_comm ..).trans (ExactScalar.zero_add _))
    ((ExactScalar.add_comm ..).trans (ExactScalar.zero_add _))
    ((ExactScalar.add_comm ..).trans (ExactScalar.zero_add _))
  neg_add_cancel _ := Vec3.ext (ExactScalar.neg_add_cancel _) (ExactScalar.neg_add_cancel _)
    (ExactScalar.neg_add_cancel _)
  sub_eq_add_neg _ _ := Vec3.ext (ExactScalar.sub_eq_add_neg ..) (ExactScalar.sub_eq_add_neg ..)
    (ExactScalar.sub_eq_add_neg ..)
  nsmul := nsmulRec
  zsmul := zsmulRec

/-- Scaling by an opposite factor. -/
theorem scale_neg [Scalar α] [ExactScalar α] (v : Vec3 α) (factor : α) :
    (-v).scale factor = -v.scale factor :=
  Vec3.ext (ExactScalar.neg_mul ..) (ExactScalar.neg_mul ..) (ExactScalar.neg_mul ..)

end Vec3

/-! ### Real numbers -/

/-- Real numbers as scalars. -/
noncomputable instance : Scalar ℝ where
  ofDecimal digits places := digits / 10 ^ places
  sqrt := Real.sqrt
  least := min
  less a b := decide (a < b)
  same a b := decide (a = b)

/-- The real numbers are exact. -/
instance : ExactScalar ℝ where
  less_zero := decide_eq_false (lt_irrefl 0)
  same_zero := decide_eq_true rfl
  sub_mul_self_comm a b := mul_self_eq_mul_self_iff.mpr (Or.inr (neg_sub b a).symm)
  add_assoc := add_assoc
  add_comm := add_comm
  zero_add := zero_add
  neg_add_cancel := neg_add_cancel
  sub_eq_add_neg := sub_eq_add_neg
  neg_mul := neg_mul
  neg_div a b := neg_div b a
  eq_of_same h := of_decide_eq_true h

namespace Layout

variable {α : Type} [Scalar α]

/-! ### Separations -/

/-- The length of a difference is symmetric. -/
theorem length_sub_comm [LawfulScalar α] (a b : Vec3 α) : length (a - b) = length (b - a) := by
  show Scalar.sqrt ((a.x - b.x) * (a.x - b.x) + (a.y - b.y) * (a.y - b.y) +
    (a.z - b.z) * (a.z - b.z)) = _
  rw [LawfulScalar.sub_mul_self_comm a.x, LawfulScalar.sub_mul_self_comm a.y,
    LawfulScalar.sub_mul_self_comm a.z]
  rfl

/-- The substituted direction affects coincident points only. -/
theorem separation_eq (fallback a b : Vec3 α) :
    separation fallback a b =
      if Scalar.less 0 (length (a - b)) then ⟨(a - b).map (· / length (a - b)), length (a - b)⟩
      else ⟨fallback, 0⟩ := rfl

/-- The distance of a separation is symmetric and independent of the substituted direction. -/
theorem distance_separation_comm [LawfulScalar α] (fallback other a b : Vec3 α) :
    (separation fallback a b).distance = (separation other b a).distance := by
  rw [separation_eq, separation_eq, length_sub_comm]
  split <;> rfl

/-- The direction of distinct points is independent of the substituted one. -/
theorem separation_of_apart [LawfulScalar α] {fallback a b : Vec3 α}
    (h : Scalar.less 0 (separation fallback a b).distance = true) (other : Vec3 α) :
    separation other a b = ⟨(a - b).map (· / length (a - b)), length (a - b)⟩ := by
  rw [separation_eq] at h ⊢
  split at h
  · next hlength => exact if_pos hlength
  · rw [LawfulScalar.less_zero] at h
    cases h

/-- The directions of distinct points are opposite. -/
theorem direction_separation_comm [ExactScalar α] {fallback a b : Vec3 α}
    (h : Scalar.less 0 (separation fallback a b).distance = true) (other another : Vec3 α) :
    (separation other b a).direction = -(separation another a b).direction := by
  have hback : Scalar.less 0 (separation other b a).distance = true := by
    rwa [distance_separation_comm other fallback]
  rw [separation_of_apart h, separation_of_apart hback, length_sub_comm b a, ← neg_sub a b]
  exact Vec3.ext (ExactScalar.neg_div ..) (ExactScalar.neg_div ..) (ExactScalar.neg_div ..)

/-! ### Real vectors -/

/-- A real vector has positive length if and only if it is not zero. -/
theorem length_pos_iff {v : Vec3 ℝ} : 0 < length v ↔ v ≠ 0 := by
  show 0 < Real.sqrt (v.x * v.x + v.y * v.y + v.z * v.z) ↔ v ≠ 0
  have hx := mul_self_nonneg v.x
  have hy := mul_self_nonneg v.y
  have hz := mul_self_nonneg v.z
  rw [Real.sqrt_pos]
  constructor
  · rintro hpos rfl
    exact absurd hpos (by show ¬0 < (0 : ℝ) * 0 + 0 * 0 + 0 * 0; norm_num)
  · intro hne
    by_contra hzero
    refine hne (Vec3.ext ?_ ?_ ?_)
    · exact mul_self_eq_zero.mp (by linarith)
    · exact mul_self_eq_zero.mp (by linarith)
    · exact mul_self_eq_zero.mp (by linarith)

/-- The distance of real points is the length of their difference. -/
theorem distance_separation (fallback a b : Vec3 ℝ) :
    (separation fallback a b).distance = length (a - b) := by
  rw [separation_eq]
  split
  · rfl
  · next hless =>
    have hzero : length (a - b) ≤ 0 := not_lt.mp fun hpos => hless (decide_eq_true hpos)
    exact le_antisymm (Real.sqrt_nonneg _) hzero

end Layout

end ClassAtlas
