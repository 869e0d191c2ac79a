import Mathlib
import ClassAtlas.Proofs.Layout.Balance

/-!
# Two-body law

Over the reals, a tick on two nodes moves both symmetrically along their separation. The resulting
distance is a function of the weight and the previous distance, and never falls below the attraction
threshold by attraction, however large the weight. Specification: `SPEC_FULL.md` §4.4, lines 55–59.
-/

namespace ClassAtlas

namespace Layout

/-! ### Distances -/

/-- Repulsion step at distance `d` with weight `w`. -/
noncomputable def repelled (w d : ℝ) : ℝ :=
  if 0 < w ∧ d < 3 * nodeRadius then nodeRadius
  else if d < 8 * nodeRadius then √(64 * nodeRadius ^ 2 - d ^ 2) / 3 else 0

/-- Attraction step at distance `d` with weight `w`. -/
noncomputable def attracted (w d : ℝ) : ℝ :=
  if 0 < w ∧ 4 * nodeRadius < d then min (w * nodeRadius / 8) (d - 4 * nodeRadius) else 0

/-- Distance behind a tick. -/
noncomputable def distanceAfter (w d : ℝ) : ℝ := d + repelled w d - attracted w d

/-- Node radius as a real number. -/
theorem nodeRadius_eq : (nodeRadius : ℝ) = 6.378 := by
  show ((6378 : ℕ) : ℝ) / 10 ^ 3 = 6.378
  norm_num

/-- The node radius is positive. -/
theorem nodeRadius_pos : (0 : ℝ) < nodeRadius := by
  rw [nodeRadius_eq]
  norm_num

variable {w d : ℝ}

/-- Repulsion steps are non-negative. -/
theorem repelled_nonneg (w d : ℝ) : 0 ≤ repelled w d := by
  unfold repelled
  split_ifs
  · exact nodeRadius_pos.le
  · positivity
  · exact le_rfl

/-- There is no repulsion from the long threshold on. -/
theorem repelled_of_le (h : 8 * nodeRadius ≤ d) : repelled w d = 0 := by
  have hradius := nodeRadius_pos
  rw [repelled, if_neg fun hnear => by linarith [hnear.2], if_neg h.not_gt]

/-- Repulsion depends on the presence of a weight only. -/
theorem repelled_congr {w' : ℝ} (h : 0 < w) (h' : 0 < w') : repelled w d = repelled w' d := by
  simp only [repelled, h, h', true_and]

/-- There is no attraction without weight or within the threshold. -/
theorem attracted_eq_zero (h : w = 0 ∨ d ≤ 4 * nodeRadius) : attracted w d = 0 := by
  refine if_neg fun hpulled => ?_
  rcases h with rfl | hnear
  · exact lt_irrefl 0 hpulled.1
  · exact hnear.not_gt hpulled.2

/-- Attraction beyond the threshold is positive. -/
theorem attracted_pos (hw : 0 < w) (hd : 4 * nodeRadius < d) : 0 < attracted w d := by
  have hradius := nodeRadius_pos
  rw [attracted, if_pos ⟨hw, hd⟩]
  exact lt_min (by positivity) (sub_pos.mpr hd)

/-- Attraction does not pass the threshold. -/
theorem attracted_le (hd : 4 * nodeRadius ≤ d) : attracted w d ≤ d - 4 * nodeRadius := by
  unfold attracted
  split_ifs
  · exact min_le_right _ _
  · exact sub_nonneg.mpr hd

/-- Attraction is monotone in the weight. -/
theorem attracted_mono {more : ℝ} (hw : 0 < w) (h : w ≤ more) :
    attracted w d ≤ attracted more d := by
  have hradius := nodeRadius_pos
  unfold attracted
  by_cases hfar : 4 * nodeRadius < d
  · rw [if_pos ⟨hw, hfar⟩, if_pos ⟨hw.trans_le h, hfar⟩]
    exact min_le_min_right _ (by gcongr)
  · rw [if_neg fun hpulled => hfar hpulled.2, if_neg fun hpulled => hfar hpulled.2]

/-- Laws of the resulting distance: the bound by the attraction threshold, no approach without
weight or within the threshold, approach of related nodes out of repulsion range, and antitonicity
in a positive weight. -/
structure DistanceLaws (w d : ℝ) : Prop where
  min_le : min d (4 * nodeRadius) ≤ distanceAfter w d
  le : w = 0 ∨ d ≤ 4 * nodeRadius → d ≤ distanceAfter w d
  lt : 0 < w → 8 * nodeRadius ≤ d → distanceAfter w d < d
  anti {more : ℝ} : 0 < w → w ≤ more → distanceAfter more d ≤ distanceAfter w d

/-- The laws hold for all weights and distances. -/
theorem distanceLaws (w d : ℝ) : DistanceLaws w d where
  min_le := by
    have hpush := repelled_nonneg w d
    unfold distanceAfter
    rcases le_total d (4 * nodeRadius) with hnear | hfar
    · rw [min_eq_left hnear, attracted_eq_zero (.inr hnear)]
      linarith
    · have hpull := attracted_le (w := w) hfar
      rw [min_eq_right hfar]
      linarith
  le h := by
    have hpush := repelled_nonneg w d
    rw [distanceAfter, attracted_eq_zero h]
    linarith
  lt hw hfar := by
    have hradius := nodeRadius_pos
    have hpull := attracted_pos hw (d := d) (by linarith)
    rw [distanceAfter, repelled_of_le hfar]
    linarith
  anti hw h := by
    have hpull := attracted_mono (d := d) hw h
    rw [distanceAfter, distanceAfter, repelled_congr hw (hw.trans_le h)]
    linarith

/-! ### Contributions -/

/-- Scaling is additive in the factor. -/
theorem scale_add_scale (v : Vec3 ℝ) (a b : ℝ) : v.scale a + v.scale b = v.scale (a + b) :=
  Vec3.ext (mul_add ..).symm (mul_add ..).symm (mul_add ..).symm

/-- The length of a scaled vector. -/
theorem length_scale (v : Vec3 ℝ) {factor : ℝ} (h : 0 ≤ factor) :
    length (v.scale factor) = factor * length v := by
  show √(v.x * factor * (v.x * factor) + v.y * factor * (v.y * factor) +
    v.z * factor * (v.z * factor)) = factor * √(v.x * v.x + v.y * v.y + v.z * v.z)
  rw [← Real.sqrt_mul_self h, ← Real.sqrt_mul (mul_self_nonneg factor), Real.sqrt_mul_self h]
  congr 1
  ring

variable {g : Graph ℝ} {originOf : String → Origin} {p q : Node ℝ}

/-- The distance of two nodes is the length of their separation. -/
theorem spacing_eq_length (p q : Node ℝ) : spacing p q = length (p.position - q.position) :=
  distance_separation ..

/-- The scalar embedding of naturals is the cast. -/
theorem whole_eq_cast (value : ℕ) : (whole value : ℝ) = value := by
  show (value : ℝ) / 10 ^ 0 = value
  norm_num

/-- The contribution of a push along the separation. -/
theorem impulse_eq (hapart : p.position ≠ q.position) (step : ℝ) :
    impulse p q step = (p.position - q.position).scale (step / 2 / spacing p q) := by
  have hlength := length_pos_iff.mpr (sub_ne_zero.mpr hapart)
  have hless : Scalar.less 0 (length (p.position - q.position)) = true := decide_eq_true hlength
  have hhalf : (Scalar.ofDecimal 5 1 : ℝ) = 1 / 2 := by
    show ((5 : ℕ) : ℝ) / 10 ^ 1 = 1 / 2
    norm_num
  rw [impulse, separation_eq, if_pos hless, hhalf, spacing_eq_length]
  have hcoordinate : ∀ a : ℝ, a / length (p.position - q.position) * (step * (1 / 2)) =
      a * (step / 2 / length (p.position - q.position)) := fun a => by ring
  exact Vec3.ext (hcoordinate _) (hcoordinate _) (hcoordinate _)

/-- Two classes are related if and only if their weight is positive. -/
theorem isRelated_iff_pos (hg : g.IsWellFormed originOf) (a b : String) :
    g.IsRelated a b ↔ (0 : ℝ) < (g.attraction a b).units := by
  rw [← hg.units_attraction_ne_zero_iff, Nat.cast_pos, Nat.pos_iff_ne_zero]

/-- The repulsion step in terms of weight and distance. -/
theorem repulsionOf_eq (hg : g.IsWellFormed originOf) (p q : Node ℝ) :
    repulsionOf g p q =
      repelled (g.attraction p.identity q.identity).units (spacing p q) := by
  have hshort : (shortThreshold : ℝ) = 3 * nodeRadius := by
    rw [shortThreshold, whole_eq_cast, Nat.cast_ofNat]
  have hlong : (longThreshold : ℝ) = 8 * nodeRadius := by
    rw [longThreshold, whole_eq_cast, Nat.cast_ofNat]
  have hfraction : (repulsionFraction : ℝ) = 1 / 3 := by
    rw [repulsionFraction, whole_eq_cast, whole_eq_cast, Nat.cast_one, Nat.cast_ofNat]
  rw [repulsionOf, repulsionStep, repelled, hshort, hlong, hfraction]
  refine if_congr ?_ (by ring) (if_congr decide_eq_true_iff ?_ rfl)
  · rw [Bool.and_eq_true, decide_eq_true_iff, isRelated_iff_pos hg]
    exact and_congr_right' decide_eq_true_iff
  · show √(8 * nodeRadius * (8 * nodeRadius) - spacing p q * spacing p q) * (1 / 3) = _
    rw [mul_one_div]
    congr 2
    ring

/-- A zero step contributes nothing. -/
theorem impulse_zero (hapart : p.position ≠ q.position) : impulse p q 0 = 0 := by
  rw [impulse_eq hapart, zero_div, zero_div]
  exact Vec3.ext (mul_zero _) (mul_zero _) (mul_zero _)

/-- The repulsive contribution in terms of weight and distance. -/
theorem repulsionShare_eq (hg : g.IsWellFormed originOf) (hapart : p.position ≠ q.position) :
    repulsionShare g p q = impulse p q
      (repelled (g.attraction p.identity q.identity).units (spacing p q)) := by
  rw [repulsionShare, repulsionOf_eq hg]
  split
  · rfl
  · next hless =>
    have hnone : ¬0 < repelled (g.attraction p.identity q.identity).units (spacing p q) :=
      fun hpos => hless (decide_eq_true hpos)
    rw [le_antisymm (not_lt.mp hnone) (repelled_nonneg _ _), impulse_zero hapart]

/-- The attractive contribution in terms of weight and distance. -/
theorem attractionShare_eq (hg : g.IsWellFormed originOf) (hapart : p.position ≠ q.position) :
    attractionShare g p q = impulse p q
      (-attracted (g.attraction p.identity q.identity).units (spacing p q)) := by
  have hthreshold : (attractionThreshold : ℝ) = 4 * nodeRadius := by
    rw [attractionThreshold, whole_eq_cast, Nat.cast_ofNat]
  have hfar : Scalar.less attractionThreshold (spacing p q) = true ↔
      4 * nodeRadius < spacing p q := hthreshold ▸ decide_eq_true_iff
  simp only [attractionShare, isRelated_iff_pos hg, hfar, attracted]
  split
  · next hpulled =>
    rw [attractionOf, attractionStep, if_pos (hfar.mpr hpulled.2), hthreshold, whole_eq_cast,
      attractionRate, whole_eq_cast, Nat.cast_ofNat, mul_div_assoc]
    rfl
  · rw [neg_zero, impulse_zero hapart]

/-- The influence of the other node is along the separation. -/
theorem influence_eq (hg : g.IsWellFormed originOf) (hapart : p.position ≠ q.position) :
    influence g p q = (p.position - q.position).scale
      ((repelled (g.attraction p.identity q.identity).units (spacing p q) -
        attracted (g.attraction p.identity q.identity).units (spacing p q)) / 2 / spacing p q) := by
  rw [influence, repulsionShare_eq hg hapart, attractionShare_eq hg hapart, impulse_eq hapart,
    impulse_eq hapart, scale_add_scale]
  congr 1
  ring

/-! ### Ticks -/

/-- Factor of the separation by which each node is moved. -/
noncomputable def moveFactor (w d : ℝ) : ℝ := (repelled w d - attracted w d) / 2 / d

/-- Scaling the separation to the resulting distance. -/
theorem scale_moveFactor (w : ℝ) {d : ℝ} (hd : 0 < d) :
    (1 + 2 * moveFactor w d) * d = distanceAfter w d := by
  unfold moveFactor distanceAfter
  field_simp
  ring

/-- The length of the new separation. -/
theorem length_moved {a b : Vec3 ℝ} (hapart : 0 < length (a - b)) (w : ℝ) :
    length (a + (a - b).scale (moveFactor w (length (a - b))) -
      (b + -(a - b).scale (moveFactor w (length (a - b))))) =
        distanceAfter w (length (a - b)) := by
  set factor := moveFactor w (length (a - b))
  have hscaled : (1 + 2 * factor) * length (a - b) = distanceAfter w (length (a - b)) :=
    scale_moveFactor w hapart
  have hradius := nodeRadius_pos
  -- The nodes do not pass each other, by the lower bound `DistanceLaws.min_le`.
  have hafter : 0 ≤ (1 + 2 * factor) * length (a - b) := by
    rw [hscaled]
    exact le_trans (by positivity) (distanceLaws w (length (a - b))).min_le
  have hcoordinate : ∀ x y : ℝ,
      x + (x - y) * factor - (y + -((x - y) * factor)) = (x - y) * (1 + 2 * factor) :=
    fun x y => by ring
  have hvector : a + (a - b).scale factor - (b + -(a - b).scale factor) =
      (a - b).scale (1 + 2 * factor) :=
    Vec3.ext (hcoordinate _ _) (hcoordinate _ _) (hcoordinate _ _)
  rw [hvector, length_scale _ (nonneg_of_mul_nonneg_left hafter hapart), hscaled]

/-- Both nodes are translated by opposite multiples of their separation, to the resulting
distance. -/
structure TwoBodyLaw (g : Graph ℝ) (p q : Node ℝ) (after : Graph ℝ) : Prop where
  moved : ∃ factor : ℝ,
    after.find? p.identity = some (p.moveBy ((p.position - q.position).scale factor)) ∧
      after.find? q.identity = some (q.moveBy (-(p.position - q.position).scale factor))
  spacing_eq {p' q' : Node ℝ} : after.find? p.identity = some p' →
    after.find? q.identity = some q' →
    length (p'.position - q'.position) =
      distanceAfter (g.attraction p.identity q.identity).units (length (p.position - q.position))

/-- Node lookups behind a tick on two nodes. -/
theorem IsPair.find?_tickWith (h : IsPair g p q) (hg : g.IsWellFormed originOf)
    {engine : LayoutEngine} (hgo : engine.stopped = false) {choices : Choices ℝ}
    (horder : (choices.order g.nodeList).Perm g.nodeList) :
    (engine.tickWith choices g).2.find? p.identity =
      some (p.moveBy ((p.position - q.position).scale
        (moveFactor (g.attraction p.identity q.identity).units (spacing p q)))) := by
  have hticking : ¬(g.nodeCount < 2 || engine.stopped) = true := by
    rw [h.nodeCount_eq, hgo]
    decide
  rw [LayoutEngine.tickWith, if_neg hticking, Graph.find?_relaxWith, h.find?_left,
    Option.map_some, Displacements.apply_eq_moveBy,
    at_displacements_eq hg h.apart choices.split horder h.find?_left, h.others_eq,
    List.map_singleton, List.sum_singleton, influence_eq hg h.position_ne, moveFactor]

/-- A tick of a running engine on two nodes satisfies the law. -/
theorem IsPair.twoBodyLaw (h : IsPair g p q) (hg : g.IsWellFormed originOf)
    {engine : LayoutEngine} (hgo : engine.stopped = false) {choices : Choices ℝ}
    (horder : (choices.order g.nodeList).Perm g.nodeList) :
    TwoBodyLaw g p q (engine.tickWith choices g).2 := by
  have hleft := h.find?_tickWith hg hgo horder
  have hright := h.symm.find?_tickWith hg hgo horder
  rw [g.attraction_comm, spacing_comm, ← neg_sub, Vec3.scale_neg] at hright
  refine ⟨⟨_, hleft, hright⟩, ?_⟩
  intro p' q' hp' hq'
  obtain rfl := Option.some.inj (hleft.symm.trans hp')
  obtain rfl := Option.some.inj (hright.symm.trans hq')
  have hpos := length_pos_iff.mpr (sub_ne_zero.mpr h.position_ne)
  rw [spacing_eq_length]
  exact length_moved hpos _

/-- In every reachable graph of two nodes at distinct positions, a tick of a running engine
satisfies the two-body law. -/
theorem twoBodyLaw_of_reachable {resolver : OriginResolver} {tree : FileTree}
    (h : Graph.Reachable resolver tree g) (hpair : IsPair g p q) {engine : LayoutEngine}
    (hgo : engine.stopped = false) (choices : Choices ℝ)
    (horder : (choices.order g.nodeList).Perm g.nodeList) :
    TwoBodyLaw g p q (engine.tickWith choices g).2 ∧ ∀ w d, DistanceLaws w d :=
  ⟨hpair.twoBodyLaw (Graph.isWellFormed_of_reachable h) hgo horder, distanceLaws⟩

/-- A class and its subclass out of repulsion range approach each other by half a radius. -/
theorem twoBodyLaw_of_reachable_subclass :
    let g : Graph ℝ := subclassAt ⟨100, 0, 0⟩
    ∃ p q, IsPair g p q ∧ TwoBodyLaw g p q (LayoutEngine.tickWith .byName {} g).2 ∧
      (g.attraction p.identity q.identity).units = 4 ∧ length (p.position - q.position) = 100 ∧
      distanceAfter 4 100 = 100 - nodeRadius / 2 := by
  intro g
  have hplace : (⟨100, 0, 0⟩ : Vec3 ℝ) ≠ 0 := by
    intro heq
    have hx : (100 : ℝ) = 0 := congrArg Vec3.x heq
    norm_num at hx
  have hpair := isPair_subclassAt hplace
  have hgo : LayoutEngine.stopped {} = false := rfl
  obtain ⟨hlaw, -⟩ := twoBodyLaw_of_reachable (reachable_subclassAt _) hpair hgo .byName
    (.refl g.nodeList)
  refine ⟨_, _, hpair, hlaw, congrArg Weight.units (attraction_subclassAt _), ?_, ?_⟩
  · show √((0 - (0 + 100)) * (0 - (0 + 100)) + (0 - (0 + 0)) * (0 - (0 + 0)) +
      (0 - (0 + 0)) * (0 - (0 + 0))) = (100 : ℝ)
    rw [Real.sqrt_eq_iff_mul_self_eq_of_pos] <;> norm_num
  · have hfar : 8 * (nodeRadius : ℝ) ≤ 100 := by
      rw [nodeRadius_eq]
      norm_num
    have hradius := nodeRadius_pos
    rw [distanceAfter, repelled_of_le hfar, attracted, if_pos ⟨by norm_num, by linarith⟩,
      min_eq_left (by linarith)]
    ring

end Layout

end ClassAtlas
