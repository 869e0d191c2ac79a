/-!
# Prefixes and suffixes of texts

Suffix removal and prefix and suffix tests, as used by the class-entry filter and the origin
classification. Specification: `SPEC_FULL.md` §4.1, line 38, and §10.6, lines 175–176.
-/

namespace ClassAtlas.Text

/-- Remove a suffix, if it is present. -/
def dropEnding? (ending text : List Char) : Option (List Char) :=
  if ending.isSuffixOf text then some (text.take (text.length - ending.length)) else none

/-- Suffix removal inverts appending the suffix. -/
theorem dropEnding?_eq_some_iff {ending text stem : List Char} :
    dropEnding? ending text = some stem ↔ text = stem ++ ending := by
  unfold dropEnding?
  constructor
  · intro h
    split at h
    · next hs =>
      obtain ⟨t, rfl⟩ := List.isSuffixOf_iff_suffix.mp hs
      simp at h
      rw [← h]
    · simp at h
  · rintro rfl
    simp

/-- Prefix test. -/
def startsWith (start text : String) : Bool := start.toList.isPrefixOf text.toList

/-- Suffix test. -/
def endsWith (ending text : String) : Bool := ending.toList.isSuffixOf text.toList

end ClassAtlas.Text
