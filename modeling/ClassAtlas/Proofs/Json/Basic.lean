import Mathlib

/-!
# JSON values

Abstract syntax of JSON and its token sequences, independent of the printer of reports. Numbers are
exact rationals. Specification: `SPEC_FULL.md` §10.5, lines 159–163, and §10.8, lines 199–201.
-/

namespace ClassAtlas

/-- JSON value without components. -/
inductive Json.Scalar where
  | null
  | boolean (value : Bool)
  | number (value : ℚ)
  | text (value : String)

/-- JSON value; an object keeps the order of its fields. -/
inductive Json where
  | scalar (value : Json.Scalar)
  | array (items : List Json)
  | object (fields : List (String × Json))

namespace Json

/-- The value `null`. -/
def null : Json := scalar .null

/-- Number value. -/
def number (value : ℚ) : Json := scalar (.number value)

/-- Text value. -/
def text (value : String) : Json := scalar (.text value)

/-- Number values are injective. -/
theorem number_inj {value other : ℚ} : number value = number other ↔ value = other := by
  simp [number]

/-- Text values are injective. -/
theorem text_inj {value other : String} : text value = text other ↔ value = other := by
  simp [text]

/-- Token: a structural character, or a value without components, which field names are as well. -/
inductive Token where
  | mark (c : Char)
  | atom (value : Scalar)

/-- Comma-separated parts between brackets. -/
def enclosed (first last : Char) (parts : List (List Token)) : List Token :=
  .mark first :: (List.intercalate [.mark ','] parts ++ [.mark last])

mutual

/-- Tokens of a value. -/
def tokens : Json → List Token
  | scalar value => [.atom value]
  | array items => enclosed '[' ']' (tokensOfItems items)
  | object fields => enclosed '\x7b' '\x7d' (tokensOfFields fields)

/-- Tokens of array items. -/
def tokensOfItems : List Json → List (List Token)
  | [] => []
  | item :: rest => item.tokens :: tokensOfItems rest

/-- Tokens of object fields. -/
def tokensOfFields : List (String × Json) → List (List Token)
  | [] => []
  | (name, value) :: rest =>
    (.atom (.text name) :: .mark ':' :: value.tokens) :: tokensOfFields rest

end

/-- `tokensOfItems` is a map. -/
theorem tokensOfItems_eq_map (items : List Json) : tokensOfItems items = items.map tokens := by
  induction items with
  | nil => rfl
  | cons item items ih => rw [tokensOfItems, ih, List.map_cons]

/-- Tokens of a field. -/
def tokensOfField (field : String × Json) : List Token :=
  .atom (.text field.1) :: .mark ':' :: field.2.tokens

/-- `tokensOfFields` is a map. -/
theorem tokensOfFields_eq_map (fields : List (String × Json)) :
    tokensOfFields fields = fields.map tokensOfField := by
  induction fields with
  | nil => rfl
  | cons field fields ih => rw [tokensOfFields, ih, List.map_cons, tokensOfField]

/-- Parts followed by a comma each. -/
def separated (parts : List (List Token)) : List Token := parts.flatMap (· ++ [.mark ','])

/-- Comma separation of an appended part. -/
theorem intercalate_concat (parts : List (List Token)) (part : List Token) :
    List.intercalate [.mark ','] (parts ++ [part]) = separated parts ++ part := by
  induction parts with
  | nil => simp [separated]
  | cons other parts ih =>
    have hne : parts ++ [part] ≠ [] := by simp
    obtain ⟨next, later, hnext⟩ := List.exists_cons_of_ne_nil hne
    rw [List.cons_append, hnext, List.intercalate_cons_cons, ← hnext, ih]
    simp [separated]

/-- `separated` on an appended part. -/
theorem separated_concat (parts : List (List Token)) (part : List Token) :
    separated (parts ++ [part]) = separated parts ++ part ++ [.mark ','] := by
  simp [separated]

/-- Tokens of an array with an appended item. -/
theorem tokens_array_concat (before : List Json) (value : Json) :
    (array (before ++ [value])).tokens =
      .mark '[' :: (separated (before.map tokens) ++ value.tokens ++ [.mark ']']) := by
  rw [tokens, tokensOfItems_eq_map, List.map_append, List.map_singleton, enclosed,
    intercalate_concat]

/-- Tokens of an object with an appended field. -/
theorem tokens_object_concat (before : List (String × Json)) (field : String × Json) :
    (object (before ++ [field])).tokens =
      .mark '\x7b' ::
        (separated (before.map tokensOfField) ++ tokensOfField field ++ [.mark '\x7d']) := by
  rw [tokens, tokensOfFields_eq_map, List.map_append, List.map_singleton, enclosed,
    intercalate_concat]

end Json

end ClassAtlas
