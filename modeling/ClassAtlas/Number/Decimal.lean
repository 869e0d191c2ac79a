/-!
# Decimal numerals

Canonical decimal numerals of natural numbers. They occur in error texts and reports; specification:
`SPEC_FULL.md` §10.5, lines 155–163.
-/

namespace ClassAtlas.Number

/-- Digit character of a value below ten. -/
def digitChar (value : Nat) : Char := Char.ofNat ('0'.toNat + value)

/-- Value of a decimal digit character. -/
def digitValue? (c : Char) : Option Nat :=
  if '0' ≤ c ∧ c ≤ '9' then some (c.toNat - '0'.toNat) else none

/-- Decimal digits of a number, without leading zeros. -/
def digits (value : Nat) : List Char :=
  if value < 10 then [digitChar value]
  else digits (value / 10) ++ [digitChar (value % 10)]

/-- Decimal numeral of a number. -/
def decimal (value : Nat) : String := String.ofList (digits value)

end ClassAtlas.Number
