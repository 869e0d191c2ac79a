/-!
# Paths

Paths are texts of slash-separated parts, absolute if they start with a slash. No operation
normalizes a path, since diagnostics quote paths as given. Specification: `SPEC_FULL.md` §6, line
71, and §10.2, lines 124–127.
-/

namespace ClassAtlas.Path

/-- Slash-separated parts of a character list, empty parts included. -/
def splitSlashes : List Char → List (List Char)
  | [] => [[]]
  | c :: rest =>
    if c = '/' then [] :: splitSlashes rest
    else
      match splitSlashes rest with
      | [] => [[c]]
      | first :: others => (c :: first) :: others

/-- Slash-separated parts of a path, empty parts included. -/
def segments (path : String) : List String := (splitSlashes path.toList).map String.ofList

/-- A path is absolute if it starts with a slash. -/
def isAbsolute (path : String) : Bool := path.toList.head? == some '/'

/-- Append a path to a base; an absolute path replaces the base. -/
def join (base path : String) : String :=
  if isAbsolute path || base.isEmpty then path
  else if base.toList.getLast? == some '/' then base ++ path
  else base ++ "/" ++ path

/-- Last part of a path. It is the file name of paths that end in a name, such as those to regular
files and those of class entries; behind a trailing slash or dot it is empty or a dot. -/
def fileName (path : String) : String := (segments path).getLastD ""

/-- Extension of the last part of a path: the text behind its last dot, unless that dot comes first.
To be used on paths that end in a name, as `fileName` is. -/
def extension? (path : String) : Option String :=
  let backwards := (fileName path).toList.reverse
  let tail := backwards.takeWhile (· ≠ '.')
  if tail.length + 1 < backwards.length then some (String.ofList tail.reverse) else none

/-- Significant parts of a path: empty parts and single dots are dropped, except for a leading
dot. -/
def components (path : String) : List String :=
  match segments path with
  | [] => []
  | first :: rest =>
    (if first = "" then [] else [first]) ++ rest.filter fun name => name ≠ "" && name ≠ "."

/-- Path with the given significant parts. -/
def ofComponents (absolute : Bool) (names : List String) : String :=
  (if absolute then "/" else "") ++ String.intercalate "/" names

/-- Ancestors of a path, outermost first, with the path itself last. -/
def stages (path : String) : List String :=
  let names := components path
  (List.range names.length).map fun index =>
    ofComponents (isAbsolute path) (names.take (index + 1))

end ClassAtlas.Path
