/-!
# White space

Characters with the Unicode property White_Space, and trimming. Specification: `SPEC_FULL.md` §10.4,
lines 150–152.
-/

namespace ClassAtlas.Text

/-- Ranges of white space characters, bounds included. -/
def blankRanges : List (Nat × Nat) :=
  [(0x9, 0xd), (0x20, 0x20), (0x85, 0x85), (0xa0, 0xa0), (0x1680, 0x1680), (0x2000, 0x200a),
    (0x2028, 0x2029), (0x202f, 0x202f), (0x205f, 0x205f), (0x3000, 0x3000)]

/-- Membership in a list of ranges, bounds included. -/
def inRanges (ranges : List (Nat × Nat)) (value : Nat) : Bool :=
  ranges.any fun (first, last) => first ≤ value && value ≤ last

/-- White space test. -/
def isBlank (c : Char) : Bool := inRanges blankRanges c.toNat

/-- Remove leading white space. -/
def trimLeft (text : List Char) : List Char := text.dropWhile isBlank

/-- Remove leading and trailing white space. -/
def trim (text : List Char) : List Char := (trimLeft (trimLeft text).reverse).reverse

end ClassAtlas.Text
