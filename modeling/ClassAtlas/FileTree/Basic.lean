import ClassAtlas.FileTree.Path
import Std.Data.ExtTreeMap

/-!
# File trees

The part of the file system that a scan observes: regular readable files, directories and symbolic
links, addressed by places. Path resolution proceeds part by part from the root or the working
directory and follows links. Names are texts; special files, unreadable items and names that are not
well-formed text are outside of the model. Specification: `SPEC_FULL.md` §4.3, lines 49–51, and §6,
line 71.
-/

namespace ClassAtlas

/-- Item of a tree: a readable regular file, a directory, or a symbolic link. There are no special
files (pipes, sockets, devices) and no items without read permission. -/
inductive FileItem where
  | file (content : ByteArray)
  | directory
  | link (target : String)

/-- Names from the root to an item. -/
abbrev Place := List String

/-- Failure of a path operation. -/
inductive FileError where
  | notFound
  | notADirectory
  | isADirectory
  | alreadyExists
  | tooManyLinks
  | nameTooLong
  | zeroCharacter
  deriving DecidableEq, Repr

/-- Text of a file error, as the operating system words it. -/
def FileError.message : FileError → String
  | .notFound => "No such file or directory (os error 2)"
  | .notADirectory => "Not a directory (os error 20)"
  | .isADirectory => "Is a directory (os error 21)"
  | .alreadyExists => "File exists (os error 17)"
  | .tooManyLinks => "Too many levels of symbolic links (os error 40)"
  | .nameTooLong => "File name too long (os error 36)"
  | .zeroCharacter => "file name contained an unexpected NUL byte"

/-- File tree: the items at all places but the root, which is a directory, and the working directory
of relative paths. -/
structure FileTree where
  items : Std.ExtTreeMap (List String) FileItem
  workingDirectory : Place

/-- Result of path resolution: an item, a name that is absent from a directory (with the unresolved
parts behind it), or a failure. -/
inductive Lookup where
  | found (place : Place) (item : FileItem)
  | absent (directory : Place) (name : String) (behind : List String)
  | refused (error : FileError)

namespace FileTree

/-- Maximal number of links in the resolution of a path. -/
def maxLinks : Nat := 40

/-- Maximal size of a name in bytes. -/
def maxNameBytes : Nat := 255

/-- Exclusive bound of the size of a path in bytes. -/
def pathByteLimit : Nat := 4096

/-- Tree that consists of the working directory and its ancestors. -/
def fresh (workingDirectory : Place) : FileTree where
  items := (List.range workingDirectory.length).foldl
    (fun items index => items.insert (workingDirectory.take (index + 1)) .directory) ∅
  workingDirectory

/-- Item at a place. -/
def itemAt? (tree : FileTree) (place : Place) : Option FileItem :=
  if place.isEmpty then some .directory else tree.items[place]?

/-- Store an item at a place. -/
def put (tree : FileTree) (place : Place) (item : FileItem) : FileTree :=
  { tree with items := tree.items.insert place item }

/-- Resolve the parts of a path from a place through at most `links` links. A link in the last part
is resolved if `follow` is set. -/
def walk (tree : FileTree) (follow : Bool) (links : Nat) (here : Place) (parts : List String) :
    Lookup :=
  match parts with
  | [] =>
    match tree.itemAt? here with
    | some item => .found here item
    | none => .refused .notFound
  | name :: rest =>
    match tree.itemAt? here with
    | some .directory =>
      if name = "" ∨ name = "." then tree.walk follow links here rest
      else if name = ".." then tree.walk follow links here.dropLast rest
      else if maxNameBytes < name.utf8ByteSize then .refused .nameTooLong
      else
        match tree.itemAt? (here ++ [name]) with
        | none => .absent here name rest
        | some (.link target) =>
          if rest.isEmpty && !follow then .found (here ++ [name]) (.link target)
          else
            match links with
            | 0 => .refused .tooManyLinks
            | links + 1 =>
              tree.walk follow links (if Path.isAbsolute target then [] else here)
                (Path.segments target ++ rest)
        | some _ => tree.walk follow links (here ++ [name]) rest
    | some _ => .refused .notADirectory
    | none => .refused .notFound
termination_by (links, parts.length)

/-- The size of a path is within the bound. -/
def isPathUsable (path : String) : Bool := path.utf8ByteSize < pathByteLimit

/-- Resolve a path. -/
def lookup (tree : FileTree) (path : String) (follow : Bool) : Lookup :=
  if path.isEmpty then .refused .notFound
  else if path.toList.contains '\x00' then .refused .zeroCharacter
  else if !isPathUsable path then .refused .nameTooLong
  else
    tree.walk follow maxLinks (if Path.isAbsolute path then [] else tree.workingDirectory)
      (Path.segments path)

/-- Target of a path with all links followed. -/
def find? (tree : FileTree) (path : String) : Option (Place × FileItem) :=
  match tree.lookup path true with
  | .found place item => some (place, item)
  | _ => none

/-- A path has a target. -/
def pathExists (tree : FileTree) (path : String) : Bool := (tree.find? path).isSome

/-- The target of a path is a directory. -/
def isDirectory (tree : FileTree) (path : String) : Bool :=
  match tree.find? path with
  | some (_, .directory) => true
  | _ => false

/-- The target of a path is a regular file. -/
def isFile (tree : FileTree) (path : String) : Bool :=
  match tree.find? path with
  | some (_, .file _) => true
  | _ => false

/-- Content of the regular file at a path. -/
def read? (tree : FileTree) (path : String) : Option ByteArray :=
  match tree.find? path with
  | some (_, .file content) => some content
  | _ => none

/-- Items below a place that are reached without following links, each with its relative names. -/
def itemsBelow (tree : FileTree) (place : Place) : List (List String × FileItem) :=
  tree.items.toList.filterMap fun (own, item) =>
    if place.isPrefixOf own && place.length < own.length then some (own.drop place.length, item)
    else none

/-- Create a directory. -/
def makeDirectory (tree : FileTree) (path : String) : Except FileError FileTree :=
  match tree.lookup path false with
  | .found .. => .error .alreadyExists
  | .absent directory name behind =>
    if behind.all (·.isEmpty) then .ok (tree.put (directory ++ [name]) .directory)
    else .error .notFound
  | .refused error => .error error

/-- Create a directory and its missing ancestors, given the paths of all of them, innermost first.
The innermost is tried first and determines the error. -/
def makeDirectoryWithin (tree : FileTree) : (paths : List String) → Except FileError FileTree
  | [] => .ok tree
  | path :: outer =>
    let made (tree : FileTree) : Except FileError FileTree :=
      if tree.isDirectory path then .ok tree else tree.makeDirectory path
    match tree.makeDirectory path with
    | .error .notFound => tree.makeDirectoryWithin outer >>= made
    | .ok tree => .ok tree
    | .error error => if tree.isDirectory path then .ok tree else .error error

/-- Create a directory and all of its ancestors. -/
def makeDirectories (tree : FileTree) (path : String) : Except FileError FileTree :=
  tree.makeDirectoryWithin (Path.stages path).reverse

/-- Create the ancestors of a path. -/
def makeParents (tree : FileTree) (path : String) : Except FileError FileTree :=
  tree.makeDirectoryWithin (Path.stages path).dropLast.reverse

/-- Write the regular file at a path, creating it in an existing directory. -/
def write (tree : FileTree) (path : String) (content : ByteArray) : Except FileError FileTree :=
  match tree.lookup path true with
  | .found _ .directory => .error .isADirectory
  | .found place _ => .ok (tree.put place (.file content))
  | .absent directory name [] => .ok (tree.put (directory ++ [name]) (.file content))
  | .absent _ _ behind => .error (if behind.all (·.isEmpty) then .isADirectory else .notFound)
  | .refused error => .error error

/-- Write the regular file at a path, creating missing ancestors. -/
def save (tree : FileTree) (path : String) (content : ByteArray) : Except FileError FileTree := do
  let tree ← tree.makeParents path
  tree.write path content

/-- Create a symbolic link. -/
def makeLink (tree : FileTree) (path target : String) : Except FileError FileTree :=
  match tree.lookup path false with
  | .found .. => .error .alreadyExists
  | .absent directory name [] => .ok (tree.put (directory ++ [name]) (.link target))
  | .absent .. => .error .notFound
  | .refused error => .error error

end FileTree

end ClassAtlas
