import ClassAtlas.Number.Decimal

/-!
# Counts

Unsigned 64-bit decimal integers with an optional plus sign, as accepted by options and environment
variables. Specification: `SPEC_FULL.md` §10.4, lines 150–152.
-/

namespace ClassAtlas.Settings

/-- Rejection of a count. -/
inductive CountError where
  | empty
  | invalidDigit
  | tooLarge
  deriving DecidableEq, Repr

/-- Text of a count error. -/
def CountError.message : CountError → String
  | .empty => "cannot parse integer from empty string"
  | .invalidDigit => "invalid digit found in string"
  | .tooLarge => "number too large to fit in target type"

/-- Exclusive bound of a count. -/
def countLimit : Nat := 0x10000000000000000

/-- Append a decimal digit within the bound. -/
def appendDigit (value : Nat) (c : Char) : Except CountError Nat :=
  match Number.digitValue? c with
  | none => .error .invalidDigit
  | some digit =>
    if 10 * value + digit < countLimit then .ok (10 * value + digit) else .error .tooLarge

/-- Value of a digit list. The first offending character determines the error. -/
def digitsToCount (text : List Char) : Except CountError Nat := text.foldlM appendDigit 0

/-- Parse a count. -/
def parseCount : List Char → Except CountError Nat
  | [] => .error .empty
  | ['+'] => .error .invalidDigit
  | '+' :: rest => digitsToCount rest
  | text => digitsToCount text

end ClassAtlas.Settings
