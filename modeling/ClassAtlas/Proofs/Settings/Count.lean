import ClassAtlas.Proofs.Failure
import ClassAtlas.Proofs.Number.Decimal
import ClassAtlas.Settings.Count
import ClassAtlas.Text.Blank
import Mathlib

/-!
# Accepted counts

A text is accepted as a count if and only if it is, up to surrounding white space and an optional
plus sign, a non-empty decimal numeral whose value fits into 64 bits; leading zeros are permitted.
Specification: `SPEC_FULL.md` §10.4, lines 150–152.
-/

namespace ClassAtlas

/-! ### Trimming -/

namespace Text

/-- Digits are not white space. -/
theorem isBlank_of_isDigit {c : Char} (h : c.isDigit = true) : isBlank c = false := by
  have hrange : 48 ≤ c.toNat ∧ c.toNat ≤ 57 := by
    simpa [Char.isDigit, UInt32.le_iff_toNat_le] using h
  simp [isBlank, inRanges, blankRanges]
  omega

/-- Leading white space is removed. -/
theorem trimLeft_append {before rest : List Char} (hbefore : ∀ c ∈ before, isBlank c = true)
    (hrest : ∀ c ∈ rest.head?, isBlank c = false) : trimLeft (before ++ rest) = rest := by
  rw [trimLeft, List.dropWhile_append_of_pos hbefore]
  cases rest with
  | nil => rfl
  | cons c rest => rw [List.dropWhile_cons_of_neg (by simp [hrest c rfl])]

/-- Surrounding white space is removed. -/
theorem trim_append {before middle after : List Char} (hbefore : ∀ c ∈ before, isBlank c = true)
    (hne : middle ≠ []) (hmiddle : ∀ c ∈ middle, isBlank c = false)
    (hafter : ∀ c ∈ after, isBlank c = true) : trim (before ++ middle ++ after) = middle := by
  have hhead : ∀ c ∈ (middle ++ after).head?, isBlank c = false := by
    rw [List.head?_append_of_ne_nil _ hne]
    exact fun c hc => hmiddle c (List.mem_of_mem_head? hc)
  have hlast : ∀ c ∈ middle.reverse.head?, isBlank c = false :=
    fun c hc => hmiddle c (List.mem_reverse.mp (List.mem_of_mem_head? hc))
  have hblank : ∀ c ∈ after.reverse, isBlank c = true :=
    fun c hc => hafter c (List.mem_reverse.mp hc)
  rw [trim, List.append_assoc, trimLeft_append hbefore hhead, List.reverse_append,
    trimLeft_append hblank hlast, List.reverse_reverse]

/-- Only white space is removed. -/
theorem exists_append_trim (text : List Char) :
    ∃ before after, text = before ++ trim text ++ after ∧ (∀ c ∈ before, isBlank c = true) ∧
      ∀ c ∈ after, isBlank c = true := by
  have hleft := List.takeWhile_append_dropWhile (p := isBlank) (l := text)
  have hright := List.takeWhile_append_dropWhile (p := isBlank) (l := (trimLeft text).reverse)
  refine ⟨text.takeWhile isBlank, ((trimLeft text).reverse.takeWhile isBlank).reverse, ?_,
    fun c hc => List.mem_takeWhile_imp hc,
    fun c hc => List.mem_takeWhile_imp (List.mem_reverse.mp hc)⟩
  calc text = text.takeWhile isBlank ++ (trimLeft text).reverse.reverse := by
        rw [List.reverse_reverse, trimLeft, hleft]
    _ = text.takeWhile isBlank ++ trim text ++
          ((trimLeft text).reverse.takeWhile isBlank).reverse := by
        conv_lhs => rw [← hright]
        rw [List.reverse_append, List.append_assoc, trim]
        rfl

end Text

namespace Settings

/-! ### Digits -/

/-- A digit is appended if and only if the result is within the bound. -/
theorem appendDigit_eq_ok_iff {value count : Nat} {c : Char} :
    appendDigit value c = .ok count ↔
      c.isDigit = true ∧ 10 * value + (c.toNat - '0'.toNat) = count ∧ count < countLimit := by
  rw [appendDigit]
  cases hdigit : Number.digitValue? c with
  | none =>
    have hnot : c.isDigit ≠ true := by
      intro h
      rw [Number.digitValue?_eq_some_iff.mpr ⟨h, rfl⟩] at hdigit
      cases hdigit
    simp [hnot]
  | some digit =>
    obtain ⟨hc, rfl⟩ := Number.digitValue?_eq_some_iff.mp hdigit
    simp only [hc, true_and]
    constructor
    · intro h
      split_ifs at h with hlt
      obtain rfl := Except.ok.inj h
      exact ⟨rfl, hlt⟩
    · rintro ⟨rfl, hlt⟩
      rw [if_pos hlt]

/-- Appending digits does not decrease the value. -/
theorem le_ofDigitChars (text : List Char) (value : Nat) :
    value ≤ Nat.ofDigitChars 10 text value := by
  induction text generalizing value with
  | nil => exact le_rfl
  | cons c text ih =>
    rw [Nat.ofDigitChars_cons]
    exact le_trans (by omega) (ih _)

/-- Digits are accepted if and only if their value is within the bound. -/
theorem foldlM_appendDigit_eq_ok_iff {text : List Char} {value count : Nat}
    (h : value < countLimit) :
    text.foldlM appendDigit value = .ok count ↔
      (∀ c ∈ text, c.isDigit = true) ∧ Nat.ofDigitChars 10 text value = count ∧
        count < countLimit := by
  induction text generalizing value with
  | nil =>
    simp only [List.foldlM_nil, pure, Except.pure, Except.ok.injEq, List.not_mem_nil,
      IsEmpty.forall_iff, implies_true, true_and, Nat.ofDigitChars_nil]
    exact ⟨fun heq => ⟨heq, heq ▸ h⟩, And.left⟩
  | cons c text ih =>
    rw [List.foldlM_cons, bind_eq_ok_iff, List.forall_mem_cons, Nat.ofDigitChars_cons]
    constructor
    · rintro ⟨more, hmore, hrest⟩
      obtain ⟨hc, rfl, hlt⟩ := appendDigit_eq_ok_iff.mp hmore
      obtain ⟨htext, hvalue⟩ := (ih hlt).mp hrest
      exact ⟨⟨hc, htext⟩, hvalue⟩
    · rintro ⟨⟨hc, htext⟩, hvalue, hcount⟩
      have hlt : 10 * value + (c.toNat - '0'.toNat) < countLimit :=
        lt_of_le_of_lt (hvalue ▸ le_ofDigitChars text _) hcount
      exact ⟨_, appendDigit_eq_ok_iff.mpr ⟨hc, rfl, hlt⟩, (ih hlt).mpr ⟨htext, hvalue, hcount⟩⟩

/-! ### Counts -/

/-- Numeral of a count: a non-empty list of digits with this value, within 64 bits. -/
structure IsNumeral (text : List Char) (count : Nat) : Prop where
  ne_nil : text ≠ []
  isDigit : ∀ c ∈ text, c.isDigit = true
  value : Nat.ofDigitChars 10 text 0 = count
  lt : count < 2 ^ 64

private theorem digitsToCount_eq_ok_iff {text : List Char} {count : Nat} (h : text ≠ []) :
    digitsToCount text = .ok count ↔ IsNumeral text count := by
  rw [digitsToCount, foldlM_appendDigit_eq_ok_iff (by decide)]
  exact ⟨fun ⟨hdigit, hvalue, hlt⟩ => ⟨h, hdigit, hvalue, hlt⟩,
    fun hnumeral => ⟨hnumeral.isDigit, hnumeral.value, hnumeral.lt⟩⟩

/-- A count is a numeral with an optional plus sign. -/
theorem parseCount_eq_ok_iff {text : List Char} {count : Nat} :
    parseCount text = .ok count ↔
      ∃ sign digits, text = sign ++ digits ∧ (sign = [] ∨ sign = ['+']) ∧
        IsNumeral digits count := by
  constructor
  · intro h
    unfold parseCount at h
    split at h
    · cases h
    · cases h
    · next rest hne => exact ⟨['+'], rest, rfl, .inr rfl, (digitsToCount_eq_ok_iff hne).mp h⟩
    · next hne _ _ => exact ⟨[], text, rfl, .inl rfl, (digitsToCount_eq_ok_iff hne).mp h⟩
  · rintro ⟨sign, digits, rfl, rfl | rfl, hdigits⟩
    · obtain ⟨c, rest, rfl⟩ := List.exists_cons_of_ne_nil hdigits.ne_nil
      have hplus : c ≠ '+' := by
        rintro rfl
        exact absurd (hdigits.isDigit '+' List.mem_cons_self) (by decide)
      rw [List.nil_append, parseCount, digitsToCount_eq_ok_iff hdigits.ne_nil]
      · exact hdigits
      all_goals simp [hplus]
    · obtain ⟨c, rest, rfl⟩ := List.exists_cons_of_ne_nil hdigits.ne_nil
      rw [List.singleton_append, parseCount, digitsToCount_eq_ok_iff hdigits.ne_nil]
      · exact hdigits
      · simp

/-- A text states a count: a numeral with an optional plus sign, within white space. -/
def States (text : String) (count : Nat) : Prop :=
  ∃ before sign digits after, text.toList = before ++ (sign ++ digits) ++ after ∧
    (∀ c ∈ before, Text.isBlank c = true) ∧ (∀ c ∈ after, Text.isBlank c = true) ∧
    (sign = [] ∨ sign = ['+']) ∧ IsNumeral digits count

/-- Trimmed parsing accepts exactly the texts that state a count. -/
theorem parseCount_trim_eq_ok_iff {text : String} {count : Nat} :
    parseCount (Text.trim text.toList) = .ok count ↔ States text count := by
  rw [parseCount_eq_ok_iff]
  constructor
  · rintro ⟨sign, digits, htrim, hsign, hdigits⟩
    obtain ⟨before, after, htext, hbefore, hafter⟩ := Text.exists_append_trim text.toList
    rw [htrim] at htext
    exact ⟨before, sign, digits, after, htext, hbefore, hafter, hsign, hdigits⟩
  · rintro ⟨before, sign, digits, after, htext, hbefore, hafter, hsign, hdigits⟩
    refine ⟨sign, digits, ?_, hsign, hdigits⟩
    rw [htext]
    refine Text.trim_append hbefore ?_ ?_ hafter
    · simp [hdigits.ne_nil]
    · intro c hc
      obtain hc | hc := List.mem_append.mp hc
      · obtain rfl | rfl := hsign
        · cases hc
        · obtain rfl := List.mem_singleton.mp hc
          decide
      · exact Text.isBlank_of_isDigit (hdigits.isDigit c hc)

end Settings

end ClassAtlas
