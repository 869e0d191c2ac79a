import ClassAtlas.ClassName
import ClassAtlas.FileTree.Basic

/-!
# Classfile enumeration in directories

Recursive walk of a directory root in a fixed order of places. Hidden files are included, links
below the root are not followed; the root itself may be a link or a single file. A path without a
target is one obstacle, and so is each directory below the root whose path exceeds the length limit,
together with everything below it. The walker reads a lone dash, with any slashes and dots behind
it, as standard input and finds nothing there. Specification: `SPEC_FULL.md` §4.3, line 49, and
§10.6, lines 171–176.
-/

namespace ClassAtlas.Classpath

/-- Enumerated class file: its path, its path relative to the root, and its content unless the path
is too long to be opened. -/
structure FoundFile where
  path : String
  relative : String
  content? : Option ByteArray

/-- Item of a walk: a class file, or an obstacle that is reported as a failed entry. -/
inductive Encounter where
  | classFile (file : FoundFile)
  | obstacle

/-- A root path that the walker takes for standard input. -/
def isDash (path : String) : Bool := !Path.isAbsolute path && Path.components path == ["-"]

/-- Class file at a path whose name passes the class-entry filter. -/
def classFileAt? (path relative : String) (content : ByteArray) : Option Encounter :=
  if ClassName.isClassEntry path then
    some (.classFile
      { path, relative, content? := if FileTree.isPathUsable path then some content else none })
  else none

/-- Item for the content of one place below the root. Items below an unusable directory are
absent. -/
def encounterBelow? (path : String) (names : List String) (item : FileItem) : Option Encounter :=
  let own := names.foldl Path.join path
  if !FileTree.isPathUsable (names.dropLast.foldl Path.join path) then none
  else
    match item with
    | .file content => classFileAt? own (String.intercalate "/" names) content
    | .directory => if FileTree.isPathUsable own then none else some .obstacle
    | .link _ => none

/-- Walk from a root path. -/
def search (tree : FileTree) (path : String) : List Encounter :=
  if isDash path then []
  else
    match tree.find? path with
    | none => [.obstacle]
    | some (place, .directory) =>
      (tree.itemsBelow place).filterMap fun (names, item) => encounterBelow? path names item
    | some (_, .file content) => (classFileAt? path "" content).toList
    | some (_, .link _) => []

end ClassAtlas.Classpath
