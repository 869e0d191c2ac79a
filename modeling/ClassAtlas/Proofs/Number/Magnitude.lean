import Mathlib

/-!
# Signs in single precision

Rounding and packing treat sign and magnitude separately. Hence both differences of two machine
numbers have the same magnitude and the same square, bit for bit. Specification: `SPEC_FULL.md`
§4.4, line 61.
-/

namespace ClassAtlas.Number

open Float.Model (Format UnpackedFloat)

/-- Number with its sign cleared. -/
def magnitude : UnpackedFloat → UnpackedFloat
  | .infinity _ => .infinity .positive
  | .notANumber => .notANumber
  | .zero _ => .zero .positive
  | .finite _ mantissa exponent pos => .finite .positive mantissa exponent pos

variable (format : Format)

/-! ### Rounding -/

/-- Rounding commutes with clearing the sign. -/
theorem magnitude_round (sign : UnpackedFloat.Sign) (mantissa : Nat) (exponent : Int) :
    magnitude (.round format sign mantissa exponent) =
      magnitude (.round format .positive mantissa exponent) := by
  simp only [UnpackedFloat.round, UnpackedFloat.roundWithAccuracy]
  split <;> rfl

/-- Normalization of opposite integers yields the same magnitude. -/
theorem magnitude_normalize_neg (mantissa exponent : Int) (sign : UnpackedFloat.Sign) :
    magnitude (.normalize format (-mantissa) exponent sign) =
      magnitude (.normalize format mantissa exponent sign) := by
  unfold UnpackedFloat.normalize
  rcases lt_trichotomy mantissa 0 with hneg | rfl | hpos
  · rw [compare_lt_iff_lt.mpr hneg, compare_gt_iff_gt.mpr (neg_pos.mpr hneg)]
    exact (magnitude_round ..).symm
  · rfl
  · rw [compare_gt_iff_gt.mpr hpos, compare_lt_iff_lt.mpr (neg_neg_iff_pos.mpr hpos), neg_neg]
    exact magnitude_round ..

/-- Both differences of two numbers have the same magnitude. -/
theorem magnitude_sub_comm (x y : UnpackedFloat) :
    magnitude (.sub format x y) = magnitude (.sub format y x) := by
  cases x with
  | notANumber => cases y <;> rfl
  | infinity s =>
    cases y with
    | infinity t => cases s <;> cases t <;> rfl
    | _ => rfl
  | zero s =>
    cases y with
    | zero t => cases s <;> cases t <;> rfl
    | _ => rfl
  | finite s m e hm =>
    cases y with
    | finite t n k hn =>
      simp only [UnpackedFloat.sub, min_comm k e]
      rw [← magnitude_normalize_neg, neg_sub]
    | _ => rfl

/-! ### Packing -/

/-- Exponent and fraction bits depend on the magnitude only. -/
theorem components_pack_magnitude (x : UnpackedFloat) :
    UnpackedFloat.unpackExponent (UnpackedFloat.pack format (magnitude x)) =
        UnpackedFloat.unpackExponent (UnpackedFloat.pack format x) ∧
      UnpackedFloat.unpackMantissa (UnpackedFloat.pack format (magnitude x)) =
        UnpackedFloat.unpackMantissa (UnpackedFloat.pack format x) := by
  cases x with
  | notANumber => exact ⟨rfl, rfl⟩
  | infinity s => simp [magnitude, UnpackedFloat.pack, UnpackedFloat.packedInfinity]
  | zero s => simp [magnitude, UnpackedFloat.pack, UnpackedFloat.packedZero]
  | finite s m e hm =>
    simp only [magnitude, UnpackedFloat.pack, UnpackedFloat.packedInfinity]
    split_ifs <;> simp

/-- Packing preserves equality of magnitudes. -/
theorem magnitude_unpack_pack (x : UnpackedFloat) :
    magnitude (.unpack format (UnpackedFloat.pack format (magnitude x))) =
      magnitude (.unpack format (UnpackedFloat.pack format x)) := by
  obtain ⟨hexponent, hmantissa⟩ := components_pack_magnitude format x
  simp only [UnpackedFloat.unpack, hexponent, hmantissa]
  split_ifs <;> rfl

/-! ### Squares -/

/-- The square of a number is that of its magnitude. -/
theorem mul_self_magnitude (x : UnpackedFloat) :
    UnpackedFloat.mul format (magnitude x) (magnitude x) = .mul format x x := by
  cases x with
  | notANumber => rfl
  | infinity s => cases s <;> rfl
  | zero s => cases s <;> rfl
  | finite s m e hm => cases s <;> rfl

/-- Both differences of two machine numbers have the same square. -/
theorem sub_mul_self_comm (a b : Float32) : (a - b) * (a - b) = (b - a) * (b - a) := by
  have hmagnitude : magnitude (a - b).toModel.unpack = magnitude (b - a).toModel.unpack := by
    show magnitude (.unpack _ (UnpackedFloat.pack _ (.sub _ _ _))) =
      magnitude (.unpack _ (UnpackedFloat.pack _ (.sub _ _ _)))
    rw [← magnitude_unpack_pack, magnitude_sub_comm, magnitude_unpack_pack]
  show Float32.ofModel (.pack (.mul _ _ _)) = Float32.ofModel (.pack (.mul _ _ _))
  rw [← mul_self_magnitude, hmagnitude, mul_self_magnitude]

end ClassAtlas.Number
