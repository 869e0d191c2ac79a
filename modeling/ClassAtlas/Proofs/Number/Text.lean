import ClassAtlas.Number.Text
import ClassAtlas.Proofs.Number.Decimal
import Mathlib

/-!
# Characters of rendered numbers

Renderings of numbers consist of digits, a sign and a point, or are the names of values that are not
finite. Specification: `SPEC_FULL.md` §10.5, lines 159–163.
-/

namespace ClassAtlas.Number

/-- Characters of positional renderings. -/
def isNumberChar (c : Char) : Bool := c.isDigit || ['-', '.', 'N', 'a', 'i', 'n', 'f'].contains c

/-- Digits are number characters. -/
theorem isNumberChar_of_isDigit {c : Char} (h : c.isDigit = true) : isNumberChar c = true := by
  rw [isNumberChar, h, Bool.true_or]

private theorem isNumberChar_nanText : ∀ c ∈ nanText.toList, isNumberChar c = true := by
  simp [nanText, isNumberChar]

private theorem isNumberChar_infinityText (negative : Bool) :
    ∀ c ∈ (infinityText negative).toList, isNumberChar c = true := by
  cases negative <;> simp [infinityText, signed, isNumberChar]

/-- Padding consists of digits. -/
theorem isDigit_of_mem_zeros {count : Nat} {c : Char} (h : c ∈ zeros count) : c.isDigit = true := by
  rw [List.eq_of_mem_replicate h]
  rfl

private theorem mem_signed {negative : Bool} {text : List Char} {c : Char}
    (h : c ∈ (signed negative text).toList) : c = '-' ∨ c ∈ text := by
  rw [signed, String.toList_ofList] at h
  split_ifs at h
  · exact List.mem_cons.mp h
  · exact .inr h

/-- A padded numeral consists of digits. -/
theorem isDigit_of_mem_padded {count value : Nat} {c : Char}
    (h : c ∈ zeros count ++ digits value) : c.isDigit = true := by
  obtain h | h := List.mem_append.mp h
  · exact isDigit_of_mem_zeros h
  · exact isDigit_of_mem_digits h

/-- Positional digits are digits on both sides of the point. -/
theorem isDigit_of_mem_positional {number : DecimalNumber} {c : Char}
    (h : c ∈ number.positional.1 ∨ c ∈ number.positional.2) : c.isDigit = true := by
  unfold DecimalNumber.positional at h
  split at h
  · obtain h | h := h
    · obtain h | h := List.mem_append.mp h
      · exact isDigit_of_mem_digits h
      · exact isDigit_of_mem_zeros h
    · cases h
  · obtain h | h := h
    · exact isDigit_of_mem_padded (List.mem_of_mem_take h)
    · exact isDigit_of_mem_padded (List.mem_of_mem_drop h)

private theorem isNumberChar_of_mem_fixedDigits {places units : Nat} {c : Char}
    (h : c ∈ fixedDigits places units) : isNumberChar c = true := by
  unfold fixedDigits at h
  obtain h | h := List.mem_append.mp h
  · exact isNumberChar_of_isDigit (isDigit_of_mem_padded (List.mem_of_mem_take h))
  · split_ifs at h
    · cases h
    · obtain rfl | h := List.mem_cons.mp h
      · rfl
      · exact isNumberChar_of_isDigit (isDigit_of_mem_padded (List.mem_of_mem_drop h))

/-- Renderings with fixed places consist of number characters. -/
theorem isNumberChar_of_mem_fixed {places : Nat} {value : Single} {c : Char}
    (h : c ∈ (value.fixed places).toList) : isNumberChar c = true := by
  cases value with
  | nan => exact isNumberChar_nanText c h
  | infinite negative => exact isNumberChar_infinityText negative c h
  | finite negative mantissa exponent =>
    obtain rfl | h := mem_signed h
    · rfl
    · exact isNumberChar_of_mem_fixedDigits h

/-- Positional renderings consist of number characters. -/
theorem isNumberChar_of_mem_plain {value : Single} {c : Char} (h : c ∈ value.plain.toList) :
    isNumberChar c = true := by
  cases value with
  | nan => exact isNumberChar_nanText c h
  | infinite negative => exact isNumberChar_infinityText negative c h
  | finite negative mantissa exponent =>
    obtain rfl | h := mem_signed h
    · rfl
    · obtain h | h := List.mem_append.mp h
      · exact isNumberChar_of_isDigit (isDigit_of_mem_positional (.inl h))
      · split_ifs at h
        · cases h
        · obtain rfl | h := List.mem_cons.mp h
          · rfl
          · exact isNumberChar_of_isDigit (isDigit_of_mem_positional (.inr h))

end ClassAtlas.Number
