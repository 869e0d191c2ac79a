import ClassAtlas.Proofs.ClassFile.ModifiedUtf8
import ClassAtlas.Proofs.Json.Basic
import ClassAtlas.Proofs.Number.Numeral
import Mathlib

/-!
# JSON lexer

Lexer from characters to tokens. Blanks between tokens are skipped; texts are quoted, without
control characters, and a backslash escapes one UTF-16 code unit; numerals and words extend to the
next blank, structural character or end of input. Specification: `SPEC_FULL.md` §10.8, lines
199–201.
-/

namespace ClassAtlas.Json

/-! ### Lexer -/

/-- Blank characters. -/
def isBlank (c : Char) : Bool := [' ', '\t', '\n', '\r'].contains c

/-- Structural characters. -/
def isMark (c : Char) : Bool := ['[', ']', '\x7b', '\x7d', ':', ','].contains c

/-- Text of code units without lone surrogates. -/
def ofUnits? (units : List UInt16) : Option String :=
  let text := Text.Utf16.decode units
  if Text.Utf16.encode text = units then some (String.ofList text) else none

/-- Character of a one-letter escape. -/
def unescaped? (c : Char) : Option Char :=
  if c = '"' ∨ c = '\\' ∨ c = '/' then some c
  else if c = 'n' then some '\n'
  else if c = 'r' then some '\r'
  else if c = 't' then some '\t'
  else if c = 'b' then some '\x08'
  else if c = 'f' then some '\x0c'
  else none

/-- Value of a hexadecimal digit. -/
def hexValue? (c : Char) : Option Nat :=
  if c.isDigit then some (c.toNat - '0'.toNat)
  else if 'a' ≤ c ∧ c ≤ 'f' then some (c.toNat - 'a'.toNat + 10)
  else if 'A' ≤ c ∧ c ≤ 'F' then some (c.toNat - 'A'.toNat + 10)
  else none

/-- Code unit of four hexadecimal digits. -/
def hexUnit? (digits : List Char) : Option UInt16 :=
  (digits.foldlM (fun value c => (hexValue? c).map (16 * value + ·)) 0).map UInt16.ofNat

/-- Value of a word. -/
def literal? (word : List Char) : Option Scalar :=
  if word = ['n', 'u', 'l', 'l'] then some .null
  else if word = ['t', 'r', 'u', 'e'] then some (.boolean true)
  else if word = ['f', 'a', 'l', 's', 'e'] then some (.boolean false)
  else none

/-- Value of an unquoted run of characters. -/
def word? (word : List Char) : Option Scalar :=
  ((Number.number? word).map Scalar.number).or (literal? word)

mutual

/-- Tokens of the input between two tokens. -/
def lex : List Char → Option (List Token)
  | [] => some []
  | c :: rest =>
    if isBlank c then lex rest
    else if isMark c then (lex rest).map (.mark c :: ·)
    else if c = '"' then lexText [] rest
    else lexWord [c] rest

/-- Tokens of the input within a quoted text, behind the given code units. -/
def lexText (units : List UInt16) : List Char → Option (List Token)
  | [] => none
  | c :: rest =>
    if c = '"' then (ofUnits? units).bind fun text => (lex rest).map (.atom (.text text) :: ·)
    else if c = '\\' then lexEscape units rest
    else if c.toNat < 0x20 then none
    else lexText (units ++ Text.Utf16.encodeChar c) rest

/-- Tokens of the input behind a backslash. -/
def lexEscape (units : List UInt16) : List Char → Option (List Token)
  | [] => none
  | c :: rest =>
    if c = 'u' then lexUnit units [] rest
    else (unescaped? c).bind fun c => lexText (units ++ Text.Utf16.encodeChar c) rest

/-- Tokens of the input within a four-digit escape, behind the given digits. -/
def lexUnit (units : List UInt16) (digits : List Char) : List Char → Option (List Token)
  | [] => none
  | c :: rest =>
    if digits.length < 3 then lexUnit units (digits ++ [c]) rest
    else (hexUnit? (digits ++ [c])).bind fun unit => lexText (units ++ [unit]) rest

/-- Tokens of the input within an unquoted run, behind the given characters. -/
def lexWord (word : List Char) : List Char → Option (List Token)
  | [] => (word? word).map ([.atom ·])
  | c :: rest =>
    if isBlank c then (word? word).bind fun value => (lex rest).map (.atom value :: ·)
    else if isMark c then
      (word? word).bind fun value => (lex rest).map fun tokens => .atom value :: .mark c :: tokens
    else if c = '"' then none
    else lexWord (word ++ [c]) rest

end

/-! ### Lexemes -/

private theorem isBlank_of_isMark {c : Char} (h : isMark c = true) : isBlank c = false := by
  simp only [isMark, List.contains_eq_mem, List.mem_cons, List.not_mem_nil, or_false,
    decide_eq_true_eq] at h
  obtain rfl | rfl | rfl | rfl | rfl | rfl := h <;> rfl

/-- The input begins with a delimiter of unquoted runs, or is empty. -/
def Delimited (text : List Char) : Prop := ∀ c ∈ text.head?, isBlank c = true ∨ isMark c = true

/-- A text lexes to the given tokens in front of every delimited input. -/
def Spells (text : List Char) (tokens : List Token) : Prop :=
  ∀ rest, Delimited rest → lex (text ++ rest) = (lex rest).map (tokens ++ ·)

/-- Blanks are skipped. -/
theorem lex_blank {c : Char} (h : isBlank c = true) (rest : List Char) :
    lex (c :: rest) = lex rest := by
  rw [lex, if_pos h]

/-- Runs of blanks are skipped. -/
theorem lex_blanks {blanks : List Char} (h : ∀ c ∈ blanks, isBlank c = true) (rest : List Char) :
    lex (blanks ++ rest) = lex rest := by
  induction blanks with
  | nil => rfl
  | cons c blanks ih =>
    obtain ⟨hc, hblanks⟩ := List.forall_mem_cons.mp h
    rw [List.cons_append, lex_blank hc, ih hblanks]

/-- Structural characters are tokens. -/
theorem lex_mark {c : Char} (h : isMark c = true) (rest : List Char) :
    lex (c :: rest) = (lex rest).map (.mark c :: ·) := by
  rw [lex, if_neg (by simp [isBlank_of_isMark h]), if_pos h]

/-- Characters of unquoted runs. -/
def IsWordChar (c : Char) : Prop := isBlank c = false ∧ isMark c = false ∧ c ≠ '"'

private theorem isWordChar_of_isNumeralChar {c : Char} (h : Number.isNumeralChar c = true) :
    IsWordChar c := by
  have hother : isBlank c = true ∨ isMark c = true ∨ c = '"' → Number.isNumeralChar c = false := by
    simp only [isBlank, isMark, List.contains_eq_mem, List.mem_cons, List.not_mem_nil, or_false,
      decide_eq_true_eq]
    rintro ((rfl | rfl | rfl | rfl) | (rfl | rfl | rfl | rfl | rfl | rfl) | rfl) <;> rfl
  rw [h] at hother
  simpa [IsWordChar] using hother

/-- Unquoted runs extend to the delimiter. -/
theorem lexWord_append {before word rest : List Char} {value : Scalar}
    (h : word? (before ++ word) = some value) (hword : ∀ c ∈ word, IsWordChar c)
    (hrest : Delimited rest) :
    lexWord before (word ++ rest) = (lex rest).map (.atom value :: ·) := by
  induction word generalizing before with
  | nil =>
    rw [List.append_nil] at h
    cases rest with
    | nil => simp [lexWord, lex, h]
    | cons c rest =>
      obtain hblank | hmark := hrest c rfl
      · simp [lexWord, lex, h, hblank]
      · simp [lexWord, lex, h, hmark, isBlank_of_isMark hmark, Function.comp_def]
  | cons c word ih =>
    obtain ⟨⟨hblank, hmark, hquote⟩, hword⟩ := List.forall_mem_cons.mp hword
    rw [List.append_cons] at h
    rw [List.cons_append, lexWord, if_neg (by simp [hblank]), if_neg (by simp [hmark]),
      if_neg hquote, ih h hword]

private theorem spells_word {word : List Char} {value : Scalar} (h : word? word = some value)
    (hne : word ≠ []) (hword : ∀ c ∈ word, IsWordChar c) : Spells word [.atom value] := by
  intro rest hrest
  obtain ⟨c, word, rfl⟩ := List.exists_cons_of_ne_nil hne
  obtain ⟨⟨hblank, hmark, hquote⟩, hword⟩ := List.forall_mem_cons.mp hword
  have hlex : lexWord [c] (word ++ rest) = (lex rest).map (.atom value :: ·) :=
    lexWord_append h hword hrest
  rw [List.cons_append, lex, if_neg (by simp [hblank]), if_neg (by simp [hmark]), if_neg hquote,
    hlex]
  rfl

/-- A numeral lexes to its number. -/
theorem spells_numeral {word : List Char} {value : ℚ} (h : Number.number? word = some value) :
    Spells word (number value).tokens := by
  have hword : word? word = some (.number value) := by
    rw [word?, h]
    rfl
  exact spells_word hword (Number.ne_nil_of_number? h)
    fun c hc => isWordChar_of_isNumeralChar (Number.isNumeralChar_of_number? h c hc)

/-- The word `null` lexes to its value. -/
theorem spells_null : Spells "null".toList null.tokens := by
  have hword : ∀ c ∈ ['n', 'u', 'l', 'l'], IsWordChar c := by simp [IsWordChar, isBlank, isMark]
  exact spells_word (by rfl) (by simp) hword

/-- A four-digit escape lexes to its code unit. -/
theorem lexUnit_append {units : List UInt16} {digits rest : List Char} {unit : UInt16}
    (hlength : digits.length = 4) (h : hexUnit? digits = some unit) :
    lexUnit units [] (digits ++ rest) = lexText (units ++ [unit]) rest := by
  obtain ⟨a, b, c, d, rfl⟩ := List.length_eq_four.mp hlength
  simp [lexUnit, h]

/-- Text decoding inverts UTF-16 encoding. -/
theorem ofUnits?_encode (text : String) : ofUnits? (Text.Utf16.encode text.toList) = some text := by
  rw [ofUnits?, Text.Utf16.decode_encode_eq, if_pos rfl, String.ofList_toList]

end ClassAtlas.Json
