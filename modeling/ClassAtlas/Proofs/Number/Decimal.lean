import ClassAtlas.Number.Decimal
import Mathlib

/-!
# Laws of decimal numerals

Canonical numerals are non-empty, consist of digits, have no leading zero, and evaluate to their
number. Specification: `SPEC_FULL.md` §10.5, lines 155–163.
-/

namespace ClassAtlas.Number

/-- `digitValue?` accepts exactly the decimal digits. -/
theorem digitValue?_eq_some_iff {c : Char} {value : Nat} :
    digitValue? c = some value ↔ c.isDigit = true ∧ value = c.toNat - '0'.toNat := by
  rw [digitValue?, Option.ite_none_right_eq_some, Option.some.injEq, eq_comm (a := value)]
  simp [Char.isDigit, Char.le_def]

private theorem digitChar_eq {value : Nat} (h : value < 10) :
    digitChar value = Nat.digitChar value := by
  interval_cases value <;> rfl

/-- `digits` is the standard base ten expansion. -/
theorem digits_eq_toDigits (value : Nat) : digits value = Nat.toDigits 10 value := by
  induction value using digits.induct with
  | case1 value h => rw [digits, if_pos h, Nat.toDigits_of_lt_base h, digitChar_eq h]
  | case2 value h ih =>
    rw [digits, if_neg h, Nat.toDigits_eq_if (by decide), if_neg h, ih,
      digitChar_eq (Nat.mod_lt value (by decide))]

/-- A numeral is not empty. -/
theorem digits_ne_nil (value : Nat) : digits value ≠ [] := by
  rw [digits_eq_toDigits]
  exact Nat.toDigits_ne_nil

/-- A numeral consists of digits. -/
theorem isDigit_of_mem_digits {value : Nat} {c : Char} (h : c ∈ digits value) :
    c.isDigit = true := by
  rw [digits_eq_toDigits] at h
  exact Nat.isDigit_of_mem_toDigits (by decide) (by decide) h

/-- The numeral of a positive number has no leading zero. -/
theorem head?_digits_ne {value : Nat} (h : value ≠ 0) : (digits value).head? ≠ some '0' := by
  induction value using digits.induct with
  | case1 value hlt =>
    rw [digits, if_pos hlt]
    interval_cases value <;> simp_all [digitChar]
  | case2 value hlt ih =>
    rw [digits, if_neg hlt, List.head?_append_of_ne_nil _ (digits_ne_nil _)]
    exact ih (by omega)

/-- A numeral evaluates to its number. -/
theorem ofDigitChars_digits (value : Nat) : Nat.ofDigitChars 10 (digits value) 0 = value := by
  rw [digits_eq_toDigits]
  exact Nat.ofDigitChars_toDigits (by decide) (by decide)

end ClassAtlas.Number
