import ClassAtlas.Proofs.Number.Text
import Mathlib

/-!
# Round trip of document numerals

Grammar of JSON numbers, with a parser to exact rationals. The renderings of natural numbers and of
shortest decimals are numerals of this grammar and parse to their number. Specification:
`SPEC_FULL.md` §10.5, lines 159–163.
-/

namespace ClassAtlas.Number

/-! ### Parser -/

/-- Split off the leading digits. -/
def splitDigits (text : List Char) : List Char × List Char :=
  (text.takeWhile Char.isDigit, text.dropWhile Char.isDigit)

/-- Integer part: non-empty, without a leading zero unless it is zero. -/
def IsWhole (digits : List Char) : Prop :=
  digits ≠ [] ∧ (digits.head? = some '0' → digits = ['0'])

/-- The condition on the integer part is decidable. -/
instance (digits : List Char) : Decidable (IsWhole digits) := inferInstanceAs (Decidable (_ ∧ _))

/-- Split off the fraction part, which has a digit if it is present. -/
def splitPlaces? : List Char → Option (List Char × List Char)
  | '.' :: text => if (splitDigits text).1 = [] then none else some (splitDigits text)
  | text => some ([], text)

/-- Value of a non-empty digit list. -/
def natural? (text : List Char) : Option Nat :=
  if text ≠ [] ∧ text.all Char.isDigit = true then some (Nat.ofDigitChars 10 text 0) else none

/-- Value of an exponent. -/
def exponent? : List Char → Option ℤ
  | '+' :: text => (natural? text).map Int.ofNat
  | '-' :: text => (natural? text).map fun value => -Int.ofNat value
  | text => (natural? text).map Int.ofNat

/-- Exponent of the part behind the digits, zero if it is empty. -/
def power? : List Char → Option ℤ
  | [] => some 0
  | c :: text => if c = 'e' ∨ c = 'E' then exponent? text else none

/-- Value of digits with an exponent for the last one. -/
def scaled (digits : List Char) (power : ℤ) : ℚ := (Nat.ofDigitChars 10 digits 0 : ℚ) * 10 ^ power

/-- Value of an unsigned numeral. -/
def unsigned? (text : List Char) : Option ℚ :=
  if IsWhole (splitDigits text).1 then
    (splitPlaces? (splitDigits text).2).bind fun places =>
      (power? places.2).map fun power =>
        scaled ((splitDigits text).1 ++ places.1) (power - places.1.length)
  else none

/-- Value of a numeral. -/
def number? : List Char → Option ℚ
  | '-' :: text => (unsigned? text).map fun value => -value
  | text => unsigned? text

/-- Leading digits extend to the first other character. -/
theorem splitDigits_append {digits rest : List Char} (h : ∀ c ∈ digits, c.isDigit = true)
    (hrest : ∀ c ∈ rest.head?, c.isDigit = false) :
    splitDigits (digits ++ rest) = (digits, rest) := by
  have hnone : rest.takeWhile Char.isDigit = [] ∧ rest.dropWhile Char.isDigit = rest := by
    cases rest with
    | nil => exact ⟨rfl, rfl⟩
    | cons c rest => simp [hrest c rfl]
  rw [splitDigits, List.takeWhile_append_of_pos h, List.dropWhile_append_of_pos h, hnone.1, hnone.2,
    List.append_nil]

/-- Fraction part of the given digits. -/
def pointed (places : List Char) : List Char := if places = [] then [] else '.' :: places

/-- An exponent part begins with neither a digit nor a point. -/
theorem notMem_head?_of_power? {text : List Char} {power : ℤ} (h : power? text = some power) :
    ∀ c ∈ text.head?, c.isDigit = false ∧ c ≠ '.' := by
  cases text with
  | nil => simp
  | cons c text =>
    rw [power?, Option.ite_none_right_eq_some] at h
    obtain ⟨rfl | rfl, -⟩ := h <;> simp

private theorem splitPlaces?_append {places rest : List Char} (h : ∀ c ∈ places, c.isDigit = true)
    (hrest : ∀ c ∈ rest.head?, c.isDigit = false ∧ c ≠ '.') :
    splitPlaces? (pointed places ++ rest) = some (places, rest) := by
  rw [pointed]
  split_ifs with hempty
  · subst hempty
    cases rest with
    | nil => rfl
    | cons c rest => simp [splitPlaces?, (hrest c rfl).2]
  · rw [List.cons_append, splitPlaces?, splitDigits_append h fun c hc => (hrest c hc).1,
      if_neg hempty]

/-- An unsigned numeral parses component by component. -/
theorem unsigned?_append {whole places rest : List Char} {power : ℤ}
    (hdigits : ∀ c ∈ whole, c.isDigit = true) (hwhole : IsWhole whole)
    (hplaces : ∀ c ∈ places, c.isDigit = true) (hpower : power? rest = some power) :
    unsigned? (whole ++ (pointed places ++ rest)) =
      some (scaled (whole ++ places) (power - places.length)) := by
  have hrest := notMem_head?_of_power? hpower
  have hhead : ∀ c ∈ (pointed places ++ rest).head?, c.isDigit = false := by
    rw [pointed]
    split_ifs
    · exact fun c hc => (hrest c hc).1
    · simp
  rw [unsigned?, splitDigits_append hdigits hhead, if_pos hwhole, splitPlaces?_append hplaces hrest,
    Option.bind_some, hpower, Option.map_some]

/-! ### Characters -/

/-- Characters of numerals. -/
def isNumeralChar (c : Char) : Bool := c.isDigit || ['-', '+', '.', 'e', 'E'].contains c

private theorem isNumeralChar_of_isDigit {c : Char} (h : c.isDigit = true) :
    isNumeralChar c = true := by
  rw [isNumeralChar, h, Bool.true_or]

private theorem isNumeralChar_of_natural? {text : List Char} {value : Nat}
    (h : natural? text = some value) : ∀ c ∈ text, isNumeralChar c = true := by
  rw [natural?, Option.ite_none_right_eq_some] at h
  exact fun c hc => isNumeralChar_of_isDigit (List.all_eq_true.mp h.1.2 c hc)

private theorem isNumeralChar_of_power? {text : List Char} {power : ℤ}
    (h : power? text = some power) :
    ∀ c ∈ text, isNumeralChar c = true := by
  cases text with
  | nil => simp
  | cons c text =>
    rw [power?, Option.ite_none_right_eq_some] at h
    obtain ⟨hc, hexponent⟩ := h
    refine List.forall_mem_cons.mpr ⟨by obtain rfl | rfl := hc <;> rfl, ?_⟩
    unfold exponent? at hexponent
    split at hexponent
    all_goals
      obtain ⟨value, hvalue, -⟩ := Option.map_eq_some_iff.mp hexponent
      simpa [isNumeralChar] using isNumeralChar_of_natural? hvalue

private theorem isNumeralChar_of_unsigned? {text : List Char} {value : ℚ}
    (h : unsigned? text = some value) : ∀ c ∈ text, isNumeralChar c = true := by
  rw [unsigned?, Option.ite_none_right_eq_some] at h
  obtain ⟨⟨places, rest⟩, hplaces, hpower⟩ := Option.bind_eq_some_iff.mp h.2
  obtain ⟨power, hpower, -⟩ := Option.map_eq_some_iff.mp hpower
  have hdigits (text : List Char) : ∀ c ∈ (splitDigits text).1, isNumeralChar c = true :=
    fun c hc => isNumeralChar_of_isDigit (List.mem_takeWhile_imp hc)
  have hsplit (text : List Char) : (splitDigits text).1 ++ (splitDigits text).2 = text :=
    List.takeWhile_append_dropWhile
  rw [← hsplit text, List.forall_mem_append]
  refine ⟨hdigits text, ?_⟩
  unfold splitPlaces? at hplaces
  split at hplaces
  · next behind hbehind =>
    rw [hbehind]
    rw [Option.ite_none_left_eq_some] at hplaces
    obtain ⟨rfl, rfl⟩ := Prod.mk.inj (Option.some.inj hplaces.2)
    rw [← hsplit behind, List.forall_mem_cons, List.forall_mem_append]
    exact ⟨rfl, hdigits behind, isNumeralChar_of_power? hpower⟩
  · obtain ⟨rfl, rfl⟩ := Prod.mk.inj (Option.some.inj hplaces)
    exact isNumeralChar_of_power? hpower

/-- A numeral consists of numeral characters. -/
theorem isNumeralChar_of_number? {text : List Char} {value : ℚ} (h : number? text = some value) :
    ∀ c ∈ text, isNumeralChar c = true := by
  unfold number? at h
  split at h
  · obtain ⟨magnitude, hmagnitude, -⟩ := Option.map_eq_some_iff.mp h
    exact List.forall_mem_cons.mpr ⟨rfl, isNumeralChar_of_unsigned? hmagnitude⟩
  · exact isNumeralChar_of_unsigned? h

/-- A numeral is not empty. -/
theorem ne_nil_of_number? {text : List Char} {value : ℚ} (h : number? text = some value) :
    text ≠ [] := by
  rintro rfl
  cases h

/-- A sign negates the value. -/
theorem number?_signed {text : List Char} {value : ℚ} (h : unsigned? text = some value)
    (negative : Bool) :
    number? (signed negative text).toList = some (if negative then -value else value) := by
  rw [signed, String.toList_ofList]
  cases negative with
  | true =>
    show (unsigned? text).map _ = _
    rw [h]
    rfl
  | false =>
    have hsign : ∀ rest, text ≠ '-' :: rest := by
      rintro rest rfl
      cases h
    show number? text = some value
    unfold number?
    split
    · next rest => exact absurd rfl (hsign rest)
    · exact h

/-! ### Natural numbers -/

/-- A single digit is an integer part. -/
theorem isWhole_of_length_eq_one {text : List Char} (h : text.length = 1) : IsWhole text := by
  obtain ⟨c, rfl⟩ := List.length_eq_one_iff.mp h
  simp [IsWhole]

/-- A canonical numeral is an integer part. -/
theorem isWhole_digits (value : Nat) : IsWhole (digits value) := by
  refine ⟨digits_ne_nil value, fun hhead => ?_⟩
  obtain rfl : value = 0 := by
    by_contra hne
    exact head?_digits_ne hne hhead
  rw [digits, if_pos (by decide)]
  rfl

/-- A natural number parses from its numeral. -/
theorem number?_digits (value : Nat) : number? (digits value) = some (value : ℚ) := by
  have hplaces : ∀ c ∈ ([] : List Char), c.isDigit = true := List.forall_mem_nil _
  have hpower : power? [] = some 0 := rfl
  have hread := unsigned?_append (fun c => isDigit_of_mem_digits) (isWhole_digits value) hplaces
    hpower
  rw [pointed, if_pos rfl, List.append_nil, List.append_nil] at hread
  have hnumber := number?_signed hread false
  simpa [signed, scaled, ofDigitChars_digits] using hnumber

/-- Exponent part as rendered. -/
def powered (power : ℤ) : List Char :=
  'e' :: (if 0 ≤ power then '+' else '-') :: digits power.natAbs

private theorem power?_powered (power : ℤ) : power? (powered power) = some power := by
  have hnatural : natural? (digits power.natAbs) = some power.natAbs := by
    rw [natural?, if_pos ⟨digits_ne_nil _, List.all_eq_true.mpr fun c => isDigit_of_mem_digits⟩,
      ofDigitChars_digits]
  rw [powered, power?, if_pos (.inl rfl)]
  split_ifs with hsign
  · rw [exponent?, hnatural, Option.map_some, Int.ofNat_eq_natCast, Int.natAbs_of_nonneg hsign]
  · rw [exponent?, hnatural, Option.map_some, Int.ofNat_eq_natCast,
      Int.ofNat_natAbs_of_nonpos (by omega), neg_neg]

/-! ### Shortest decimals -/

/-- Leading zeros do not change the value. -/
theorem ofDigitChars_zeros_append (count : Nat) (text : List Char) :
    Nat.ofDigitChars 10 (zeros count ++ text) 0 = Nat.ofDigitChars 10 text 0 := by
  rw [Nat.ofDigitChars_append, zeros, Nat.ofDigitChars_replicate_zero, Nat.mul_zero]

/-- Digits of a number, padded to exceed a number of places. -/
def padded (places value : Nat) : List Char :=
  zeros (places + 1 - (digits value).length) ++ digits value

private theorem lt_length_padded (places value : Nat) : places < (padded places value).length := by
  simp only [padded, zeros, List.length_append, List.length_replicate]
  omega

/-- The leading part of padded digits is an integer part. -/
theorem isWhole_take_padded {places value : Nat} (h : value ≠ 0) :
    IsWhole ((padded places value).take ((padded places value).length - places)) := by
  obtain hshort | hlong := le_or_gt (digits value).length places
  · refine isWhole_of_length_eq_one ?_
    simp only [padded, zeros, List.length_take, List.length_append, List.length_replicate]
    omega
  · have hnone : padded places value = digits value := by
      rw [padded, Nat.sub_eq_zero_of_le hlong, zeros, List.replicate_zero, List.nil_append]
    rw [hnone]
    refine ⟨List.ne_nil_of_length_pos ?_, fun hzero => ?_⟩
    · rw [List.length_take]
      omega
    · rw [List.head?_take, if_neg (by omega)] at hzero
      exact absurd hzero (head?_digits_ne h)

namespace DecimalNumber

/-- Value of a decimal. -/
def toRat (number : DecimalNumber) : ℚ := number.coefficient * 10 ^ number.exponent

/-- Decimal without a leading zero in its coefficient, unless it is rendered positionally. -/
def IsProper (number : DecimalNumber) : Prop := number.coefficient ≠ 0 ∨ number.exponent = 0

/-- Rendering with a non-negative exponent parses to the value. -/
theorem unsigned?_positional_of_nonneg {number : DecimalNumber} (h : number.IsProper)
    (hexponent : 0 ≤ number.exponent) :
    number.positional.2 = [] ∧
      unsigned? (number.positional.1 ++ (pointed ['0'] ++ [])) = some number.toRat := by
  obtain ⟨count, hcount⟩ := Int.eq_ofNat_of_zero_le hexponent
  have hpositional : number.positional = (digits number.coefficient ++ zeros count, []) := by
    rw [positional, if_pos hexponent, hcount, Int.toNat_natCast]
  have hwhole : IsWhole (digits number.coefficient ++ zeros count) := by
    obtain hne | hzero := h
    · refine ⟨by simp [digits_ne_nil], fun hhead => ?_⟩
      rw [List.head?_append_of_ne_nil _ (digits_ne_nil _)] at hhead
      exact absurd hhead (head?_digits_ne hne)
    · obtain rfl : count = 0 := by omega
      rw [zeros, List.replicate_zero, List.append_nil]
      exact isWhole_digits number.coefficient
  have hdigits : ∀ c ∈ digits number.coefficient ++ zeros count, c.isDigit = true :=
    List.forall_mem_append.mpr ⟨fun c => isDigit_of_mem_digits, fun c => isDigit_of_mem_zeros⟩
  refine ⟨congrArg Prod.snd hpositional, ?_⟩
  rw [hpositional, unsigned?_append hdigits hwhole (by simp) rfl, toRat, hcount, scaled,
    Nat.ofDigitChars_append, Nat.ofDigitChars_append, ofDigitChars_digits, zeros,
    Nat.ofDigitChars_replicate_zero]
  simp [Nat.ofDigitChars_cons]
  ring

/-- Rendering with a negative exponent parses to the value. -/
theorem unsigned?_positional_of_neg {number : DecimalNumber} (h : number.IsProper)
    (hexponent : number.exponent < 0) :
    number.positional.2 ≠ [] ∧
      unsigned? (number.positional.1 ++ (pointed number.positional.2 ++ [])) =
        some number.toRat := by
  obtain ⟨places, hplaces⟩ := Int.eq_ofNat_of_zero_le (Int.neg_nonneg_of_nonpos hexponent.le)
  set written := padded places number.coefficient with hwritten
  have hpositional : number.positional =
      (written.take (written.length - places), written.drop (written.length - places)) := by
    rw [positional, if_neg (by omega), hplaces, Int.toNat_natCast]
    rfl
  have hdigits : ∀ c ∈ written, c.isDigit = true := fun c => isDigit_of_mem_padded
  have hwhole : IsWhole (written.take (written.length - places)) :=
    isWhole_take_padded (h.resolve_right hexponent.ne)
  have hdrop : (written.drop (written.length - places)).length = places := by
    have hlength : places < written.length := lt_length_padded places number.coefficient
    rw [List.length_drop]
    omega
  have hplace : ∀ c ∈ written.drop (written.length - places), c.isDigit = true :=
    fun c hc => hdigits c (List.mem_of_mem_drop hc)
  rw [hpositional]
  refine ⟨List.ne_nil_of_length_pos (by rw [hdrop]; omega), ?_⟩
  rw [unsigned?_append (fun c hc => hdigits c (List.mem_of_mem_take hc)) hwhole hplace rfl,
    List.take_append_drop, hdrop, scaled, hwritten, padded, ofDigitChars_zeros_append,
    ofDigitChars_digits, toRat, ← hplaces, zero_sub, neg_neg]

/-- Scientific rendering parses to the value. -/
theorem unsigned?_scientific (number : DecimalNumber) :
    unsigned? ((digits number.coefficient).take 1 ++
      (pointed ((digits number.coefficient).drop 1) ++ powered number.magnitude)) =
        some number.toRat := by
  set written := digits number.coefficient with hwritten
  have hlength : 0 < written.length := List.length_pos_iff.mpr (digits_ne_nil _)
  have hdigits : ∀ c ∈ written, c.isDigit = true := fun c => isDigit_of_mem_digits
  have hwhole : IsWhole (written.take 1) := by
    refine isWhole_of_length_eq_one ?_
    rw [List.length_take]
    omega
  rw [unsigned?_append (fun c hc => hdigits c (List.mem_of_mem_take hc)) hwhole
    (fun c hc => hdigits c (List.mem_of_mem_drop hc)) (power?_powered number.magnitude),
    List.take_append_drop, scaled, hwritten, ofDigitChars_digits, ← hwritten, toRat,
    List.length_drop, magnitude, ← hwritten]
  congr
  omega

/-- Document rendering of a decimal parses to its value. -/
theorem unsigned?_document {number : DecimalNumber} (h : number.IsProper) :
    unsigned? number.document = some number.toRat := by
  by_cases hplain : plainMagnitude number.magnitude = true
  · rw [document, if_pos hplain]
    obtain hexponent | hexponent := le_or_gt 0 number.exponent
    · obtain ⟨hplaces, hread⟩ := unsigned?_positional_of_nonneg h hexponent
      simpa [hplaces, pointed] using hread
    · obtain ⟨hplaces, hread⟩ := unsigned?_positional_of_neg h hexponent
      simpa [hplaces, pointed] using hread
  · rw [document, if_neg hplain]
    simpa [pointed, powered] using unsigned?_scientific number

/-- Trimming preserves properness. -/
theorem IsProper.trim {number : DecimalNumber} (h : number.IsProper) (fuel : Nat) :
    (number.trim fuel).IsProper := by
  induction fuel generalizing number with
  | zero => exact h
  | succ fuel ih =>
    rw [DecimalNumber.trim]
    split_ifs with htrim
    · exact ih (.inl (by show number.coefficient / 10 ≠ 0; omega))
    · exact h

end DecimalNumber

/-- Rounding intervals of non-zero numbers exclude zero. -/
theorem RoundingRange.not_contains_zero {mantissa : Nat} (h : mantissa ≠ 0) (exponent : Int)
    {den : Nat} (hden : 0 < den) :
    (RoundingRange.of mantissa exponent).contains ⟨0, den⟩ = false := by
  have hlow : 0 < (RoundingRange.of mantissa exponent).low := by
    show 0 < if mantissa = Single.hiddenBit ∧ Single.minExponent < exponent then 4 * mantissa - 1
      else 4 * mantissa - 2
    split_ifs <;> omega
  unfold contains
  split_ifs
  · simp [hlow.ne', hden.ne']
  · simp

/-- A selected grid point is within the rounding interval. -/
theorem contains_of_gridPoint? {mantissa : Nat} {exponent power : Int} {point : Nat}
    (h : gridPoint? mantissa exponent power = some point) :
    ∃ num den, 0 < den ∧
      (RoundingRange.of mantissa exponent).contains ⟨point * num, den⟩ = true := by
  refine ⟨(Fraction.scaled 1 10 power).num * (Fraction.scaled 1 2 (2 - exponent)).num,
    (Fraction.scaled 1 10 power).den * (Fraction.scaled 1 2 (2 - exponent)).den,
    Nat.mul_pos (Nat.pow_pos (by decide)) (Nat.pow_pos (by decide)), ?_⟩
  unfold gridPoint? at h
  simp only at h
  generalize (RoundingRange.of mantissa exponent).middle * _ / _ = below at h
  split at h
  · cases h
  · next hbelow _ =>
    obtain rfl := Option.some.inj h
    exact hbelow
  · next _ habove =>
    obtain rfl := Option.some.inj h
    exact habove
  · next hbelow habove =>
    have hpoint : point = below ∨ point = below + 1 := by
      split_ifs at h <;> obtain rfl := Option.some.inj h <;> omega
    obtain rfl | rfl := hpoint
    · exact hbelow
    · exact habove

/-- The shortest decimal of a non-zero number is not zero. -/
theorem ne_zero_of_gridPoint? {mantissa : Nat} (h : mantissa ≠ 0) {exponent power : Int}
    {point : Nat} (hpoint : gridPoint? mantissa exponent power = some point) : point ≠ 0 := by
  rintro rfl
  obtain ⟨num, den, hden, hcontains⟩ := contains_of_gridPoint? hpoint
  rw [Nat.zero_mul, RoundingRange.not_contains_zero h exponent hden] at hcontains
  cases hcontains

/-- Shortest decimals are proper. -/
theorem shortest_isProper {mantissa : Nat} (h : mantissa ≠ 0) (exponent : Int) :
    (shortest mantissa exponent).IsProper := by
  rw [shortest]
  refine DecimalNumber.IsProper.trim ?_ 40
  cases hfound : gridPowers.findSome? fun power =>
    (gridPoint? mantissa exponent power).map fun point => (⟨point, power⟩ : DecimalNumber) with
  | none => exact .inr rfl
  | some number =>
    obtain ⟨power, -, hpower⟩ := List.exists_of_findSome?_eq_some hfound
    obtain ⟨point, hpoint, rfl⟩ := Option.map_eq_some_iff.mp hpower
    exact .inl (ne_zero_of_gridPoint? h hpoint)

/-- Value shown for a single-precision number: its shortest decimal, if it is finite. -/
def Single.shown? : Single → Option ℚ
  | .nan | .infinite _ => none
  | .finite _ 0 _ => some 0
  | .finite negative mantissa exponent =>
    let magnitude := (shortest mantissa exponent).toRat
    some (if negative then -magnitude else magnitude)

/-- The document rendering of a number parses to the value shown for it. -/
theorem number?_document? (value : Single) :
    value.document? = none ∧ value.shown? = none ∨
      ∃ text shown, value.document? = some text ∧ value.shown? = some shown ∧
        number? text.toList = some shown := by
  cases value with
  | nan => exact .inl ⟨rfl, rfl⟩
  | infinite negative => exact .inl ⟨rfl, rfl⟩
  | finite negative mantissa exponent =>
    refine .inr ?_
    cases mantissa with
    | zero =>
      have hzero : ∀ c ∈ ['0'], c.isDigit = true := by simp
      have hread : unsigned? ['0', '.', '0'] = some (scaled ['0', '0'] (0 - 1)) :=
        unsigned?_append hzero (isWhole_of_length_eq_one rfl) hzero rfl
      rw [scaled, show Nat.ofDigitChars 10 ['0', '0'] 0 = 0 by rfl, Nat.cast_zero,
        zero_mul] at hread
      refine ⟨_, _, rfl, rfl, ?_⟩
      rw [number?_signed hread, neg_zero, ite_self]
    | succ mantissa =>
      exact ⟨_, _, rfl, rfl, number?_signed
        (DecimalNumber.unsigned?_document (shortest_isProper (Nat.succ_ne_zero mantissa) exponent))
        negative⟩

end ClassAtlas.Number
