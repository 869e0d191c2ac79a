import ClassAtlas.Number.Hex
import ClassAtlas.Number.Text

/-!
# JSON documents

JSON values with compact and indented printers. Quotes, backslashes and control characters of texts
are escaped. A number that is not finite prints as `null`. Specification: `SPEC_FULL.md` §10.5,
lines 159–163.
-/

namespace ClassAtlas

/-- JSON value; an object keeps the order of its fields. -/
inductive Document where
  | text (value : String)
  | natural (value : Nat)
  | single (value : Number.Single)
  | array (items : List Document)
  | object (fields : List (String × Document))

namespace Document

/-- JSON value of a machine number. -/
def ofFloat (value : Float32) : Document := single (Number.Single.ofFloat value)

/-- Escape of a character within quotes. -/
def escape (c : Char) : List Char :=
  if c = '"' then ['\\', '"']
  else if c = '\\' then ['\\', '\\']
  else if c = '\n' then ['\\', 'n']
  else if c = '\r' then ['\\', 'r']
  else if c = '\t' then ['\\', 't']
  else if c = '\x08' then ['\\', 'b']
  else if c = '\x0c' then ['\\', 'f']
  else if c.toNat < 0x20 then ['\\', 'u'] ++ (Number.hexPadded 4 c.toNat).toList
  else [c]

/-- Quoted text. -/
def quote (value : String) : List Char := '"' :: value.toList.flatMap escape ++ ['"']

/-- Text of a number, `null` unless it is finite. -/
def numeral (value : Number.Single) : List Char := (value.document?.getD "null").toList

/-- Comma-separated parts between brackets. -/
def enclose (first last : Char) (parts : List (List Char)) : List Char :=
  first :: List.intercalate [','] parts ++ [last]

mutual

/-- Characters of the compact form. -/
def compactChars : Document → List Char
  | text value => quote value
  | natural value => Number.digits value
  | single value => numeral value
  | array items => enclose '[' ']' (compactItems items)
  | object fields => enclose '\x7b' '\x7d' (compactFields fields)

/-- Compact forms of array items. -/
def compactItems : List Document → List (List Char)
  | [] => []
  | item :: rest => item.compactChars :: compactItems rest

/-- Compact forms of object fields. -/
def compactFields : List (String × Document) → List (List Char)
  | [] => []
  | (name, value) :: rest => (quote name ++ ':' :: value.compactChars) :: compactFields rest

end

/-- Compact form. -/
def compact (document : Document) : String := String.ofList document.compactChars

/-- Line break with the indentation of a depth. -/
def newline (depth : Nat) : List Char := '\n' :: List.replicate (2 * depth) ' '

/-- Comma-separated parts between brackets, each on its own line one level deeper; empty brackets
stay on one line. -/
def encloseLines (depth : Nat) (first last : Char) (parts : List (List Char)) : List Char :=
  if parts.isEmpty then [first, last]
  else
    first :: newline (depth + 1) ++ List.intercalate (',' :: newline (depth + 1)) parts ++
      newline depth ++ [last]

mutual

/-- Characters of the indented form at a depth. -/
def prettyChars (depth : Nat) : Document → List Char
  | text value => quote value
  | natural value => Number.digits value
  | single value => numeral value
  | array items => encloseLines depth '[' ']' (prettyItems (depth + 1) items)
  | object fields => encloseLines depth '\x7b' '\x7d' (prettyFields (depth + 1) fields)

/-- Indented forms of array items. -/
def prettyItems (depth : Nat) : List Document → List (List Char)
  | [] => []
  | item :: rest => item.prettyChars depth :: prettyItems depth rest

/-- Indented forms of object fields. -/
def prettyFields (depth : Nat) : List (String × Document) → List (List Char)
  | [] => []
  | (name, value) :: rest =>
    (quote name ++ ':' :: ' ' :: value.prettyChars depth) :: prettyFields depth rest

end

/-- Indented form. -/
def pretty (document : Document) : String := String.ofList (document.prettyChars 0)

end Document

end ClassAtlas
