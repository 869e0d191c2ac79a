import ClassAtlas.Number.Hex
import ClassAtlas.Text.Blank
import ClassAtlas.Text.GraphemeExtend
import ClassAtlas.Text.Unprintable

/-!
# Quoted texts

Foreign texts are quoted in diagnostics: quotes, backslashes, unprintable characters and combining
characters without a base are escaped. Specification: `SPEC_FULL.md` §10.4, lines 150–152.
-/

namespace ClassAtlas.Text

/-- A character that is rendered literally. -/
def standsAlone (c : Char) : Bool :=
  !inRanges unprintableRanges c.toNat && !inRanges fillerRanges c.toNat &&
    !inRanges graphemeExtendRanges c.toNat

/-- Rendering of a character between quotes. -/
def showChar (c : Char) : String :=
  if c = '"' then "\\\""
  else if c = '\\' then "\\\\"
  else if c = '\n' then "\\n"
  else if c = '\r' then "\\r"
  else if c = '\t' then "\\t"
  else if c = '\x00' then "\\0"
  else if standsAlone c then c.toString
  else "\\u\x7b" ++ Number.hex c.toNat ++ "\x7d"

/-- Quoted text. -/
def quoted (text : String) : String := "\"" ++ String.join (text.toList.map showChar) ++ "\""

end ClassAtlas.Text
