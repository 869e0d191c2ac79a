import ClassAtlas.Graph.Weight
import ClassAtlas.Relation
import Mathlib

/-!
# Accumulation in single precision

Sums of weights neither vanish nor decrease, and sums of at most `2 ^ 24` are exact, hence
independent of the order of accumulation. Specification: `SPEC_FULL.md` §3, lines 23 and 30.
-/

namespace ClassAtlas.Weight

/-- Rounding is the identity up to `2 ^ 24`. -/
theorem rounded_eq_self {total : Nat} (h : total ≤ 2 ^ 24) : rounded total = total := by
  rcases Nat.eq_or_lt_of_le h with rfl | hlt
  · decide
  · have hlog : excess total = 0 := by
      by_cases hz : total = 0
      · subst hz
        rfl
      · have := (Nat.log2_lt hz).mpr hlt
        unfold excess precision
        omega
    have hunit : unit total = 1 := by rw [unit, hlog]
    rw [rounded, hunit, Number.divRound_one, Nat.mul_one]

private theorem excess_le (total : Nat) : excess total ≤ total.log2 := by
  unfold excess precision
  omega

private theorem unit_le {total : Nat} (h : total ≠ 0) : unit total ≤ total :=
  calc unit total ≤ 2 ^ total.log2 := Nat.pow_le_pow_right (by decide) (excess_le total)
    _ ≤ total := Nat.log2_self_le h

private theorem div_le_divRound (num den : Nat) : num / den ≤ Number.divRound num den := by
  simp only [Number.divRound]
  split
  · exact Nat.le_refl _
  · split
    · exact Nat.le_succ _
    · exact Nat.le_add_right _ _

private theorem divRound_le (num den : Nat) : Number.divRound num den ≤ num / den + 1 := by
  simp only [Number.divRound]
  split
  · exact Nat.le_succ _
  · split
    · exact Nat.le_refl _
    · have : num / den % 2 < 2 := Nat.mod_lt _ (by decide)
      omega

/-- Rounding preserves positivity. -/
theorem rounded_pos {total : Nat} (h : 0 < total) : 0 < rounded total := by
  have hunit : 0 < unit total := Nat.pow_pos (by decide)
  have hdiv : 0 < total / unit total := Nat.div_pos (unit_le (Nat.ne_of_gt h)) hunit
  exact Nat.mul_pos (Nat.lt_of_lt_of_le hdiv (div_le_divRound _ _)) hunit

/-- The number is representable in the precision. -/
def IsKept (total : Nat) : Prop := unit total ∣ total

/-- A multiple of a power of two with few enough leading digits is representable. -/
theorem isKept_of_dvd (digits : Nat) {total : Nat} (h : total ≤ 2 ^ (precision + digits))
    (hdvd : 2 ^ digits ∣ total) : IsKept total := by
  rcases Nat.eq_or_lt_of_le h with rfl | hlt
  · rw [IsKept, unit]
    refine pow_dvd_pow 2 ((excess_le _).trans ?_)
    rw [Nat.log2_two_pow]
  · by_cases hz : total = 0
    · subst hz
      exact dvd_zero _
    · have hlog : total.log2 < precision + digits := (Nat.log2_lt hz).mpr hlt
      have hexcess : excess total ≤ digits := by
        unfold excess
        omega
      exact (pow_dvd_pow 2 hexcess).trans hdvd

/-- The weight of a kind is representable. -/
theorem isKept_weight (kind : RelationKind) : IsKept kind.weight :=
  isKept_of_dvd 0 (by cases kind <;> decide) (one_dvd _)

/-- Rounded sums are representable. -/
theorem isKept_rounded (total : Nat) : IsKept (rounded total) := by
  refine isKept_of_dvd (excess total) ?_ (Dvd.intro_left _ rfl)
  have hdigits : total < 2 ^ precision * unit total := by
    rw [unit, Nat.pow_eq, ← pow_add]
    refine Nat.lt_of_lt_of_le Nat.lt_log2_self (Nat.pow_le_pow_right (by decide) ?_)
    unfold excess
    omega
  have hdiv : total / unit total < 2 ^ precision :=
    Nat.div_lt_of_lt_mul (by rwa [Nat.mul_comm] at hdigits)
  calc rounded total ≤ (total / unit total + 1) * unit total :=
        Nat.mul_le_mul_right _ (divRound_le _ _)
    _ ≤ 2 ^ precision * unit total := Nat.mul_le_mul_right _ hdiv
    _ = 2 ^ (precision + excess total) := (pow_add 2 precision (excess total)).symm

/-- Rounding does not fall below a representable lower bound. -/
theorem le_rounded {kept total : Nat} (hkept : IsKept kept) (hle : kept ≤ total) :
    kept ≤ rounded total := by
  have hfloor : ∀ number, unit total ∣ number → number ≤ total → number ≤ rounded total := by
    intro number hdvd hnumber
    calc number = number / unit total * unit total := (Nat.div_mul_cancel hdvd).symm
      _ ≤ total / unit total * unit total :=
        Nat.mul_le_mul_right _ (Nat.div_le_div_right hnumber)
      _ ≤ rounded total := Nat.mul_le_mul_right _ (div_le_divRound _ _)
  have hmono : kept.log2 ≤ total.log2 := by
    rw [Nat.log2_eq_log_two, Nat.log2_eq_log_two]
    exact Nat.log_mono_right hle
  rcases Nat.eq_or_lt_of_le hmono with hlog | hlog
  · have hunit : unit kept = unit total := by rw [unit, unit, excess, excess, hlog]
    exact hfloor kept (hunit ▸ hkept) hle
  · -- The power of two with as many digits as the total lies between the two.
    have hpos : total ≠ 0 := by
      rintro rfl
      exact absurd hlog (Nat.not_lt_zero _)
    have hpower : 2 ^ total.log2 ≤ rounded total :=
      hfloor _ (pow_dvd_pow 2 (excess_le total)) (Nat.log2_self_le hpos)
    calc kept ≤ 2 ^ (kept.log2 + 1) := Nat.le_of_lt Nat.lt_log2_self
      _ ≤ 2 ^ total.log2 := Nat.pow_le_pow_right (by decide) hlog
      _ ≤ rounded total := hpower

/-- Accumulate one more weight onto an optional sum. -/
def addTo (weight : Weight) : Option Weight → Weight
  | none => weight
  | some known => known + weight

/-- Accumulated sum of a list of weights, absent for the empty list. -/
def accumulate (units : List Nat) : Option Weight :=
  units.foldl (fun known share => some (addTo ⟨share⟩ known)) none

/-- Accumulation of nothing. -/
theorem accumulate_nil : accumulate [] = none := rfl

/-- Accumulation of an appended weight. -/
theorem accumulate_concat (units : List Nat) (share : Nat) :
    accumulate (units ++ [share]) = some (addTo ⟨share⟩ (accumulate units)) := by
  rw [accumulate, List.foldl_append]
  rfl

/-- Accumulation of a non-empty list is present. -/
theorem accumulate_isSome {units : List Nat} : (accumulate units).isSome ↔ units ≠ [] := by
  induction units using List.reverseRecOn with
  | nil => simp [accumulate_nil]
  | append_singleton units share _ => simp [accumulate_concat]

/-- Accumulation of positive weights is positive. -/
theorem accumulate_pos {units : List Nat} (hpos : ∀ share ∈ units, 0 < share) {total : Weight}
    (h : accumulate units = some total) : 0 < total.units := by
  induction units using List.reverseRecOn with
  | nil => cases h
  | append_singleton units share _ =>
    have hshare : 0 < share := hpos share (by simp)
    rw [accumulate_concat] at h
    cases h
    cases accumulate units with
    | none => exact hshare
    | some known => exact rounded_pos (Nat.add_pos_right _ hshare)

/-- Accumulation is the exact sum up to `2 ^ 24`. -/
theorem accumulate_of_sum_le {units : List Nat} (hne : units ≠ []) (h : units.sum ≤ 2 ^ 24) :
    accumulate units = some ⟨units.sum⟩ := by
  induction units using List.reverseRecOn with
  | nil => exact absurd rfl hne
  | append_singleton units share ih =>
    rw [List.sum_append, List.sum_singleton] at h ⊢
    rw [accumulate_concat]
    by_cases hz : units = []
    · subst hz
      simp [accumulate_nil, addTo]
    · rw [ih hz (by omega)]
      exact congrArg (fun total => some (⟨total⟩ : Weight)) (rounded_eq_self h)

end ClassAtlas.Weight
