/-!
# Rounding of quotients

Rounding to nearest, ties to even, in exact integer arithmetic: the rounding mode of the single
precision of `SPEC_FULL.md` §4.4, line 61.
-/

namespace ClassAtlas.Number

/-- Integer nearest to `num / den`, ties to even. -/
def divRound (num den : Nat) : Nat :=
  let below := num / den
  let twice := 2 * (num % den)
  if twice < den then below
  else if den < twice then below + 1
  else below + below % 2

/-- Exact quotients are fixed points of rounding. -/
theorem divRound_mul_self (quotient : Nat) {den : Nat} (h : 0 < den) :
    divRound (quotient * den) den = quotient := by
  simp [divRound, Nat.mul_div_cancel quotient h, h]

/-- Rounding with denominator one is the identity. -/
theorem divRound_one (num : Nat) : divRound num 1 = num := by
  simpa using divRound_mul_self num Nat.one_pos

end ClassAtlas.Number
