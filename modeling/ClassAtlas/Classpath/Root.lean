import ClassAtlas.Archive.Basic
import ClassAtlas.FileTree.Basic
import ClassAtlas.Text.Affix

/-!
# Classpath validation

A classpath is a list of roots, each an archive or a directory. All given paths are validated in
order before any worker starts, and the first invalid one rejects the classpath. Specification:
`SPEC_FULL.md` §6, line 71, §7, line 77, and §10.2, lines 124–127.
-/

namespace ClassAtlas

/-- Classpath root. -/
inductive Root where
  | archive (path : String)
  | directory (path : String)
  deriving DecidableEq, Repr

/-- Path of a root as given. -/
def Root.path : Root → String
  | .archive path | .directory path => path

/-- Rejection of a classpath: a path that does not exist, or one that is neither an archive nor a
directory. -/
inductive ClasspathError where
  | notFound (path : String)
  | unsupported (path : String)
  deriving DecidableEq, Repr

/-- Text of a classpath error. -/
def ClasspathError.message : ClasspathError → String
  | .notFound path => "classpath entry does not exist: " ++ path
  | .unsupported path =>
    "classpath entry is neither a jar archive nor a directory: " ++ path

namespace Classpath

/-- The extension of an archive is `jar` in either case. Decisive for paths to regular files only,
which end in a name (`FileTree.fileName_ne_of_isFile`). -/
def isArchiveName (path : String) : Bool :=
  match Path.extension? path with
  | some extension => extension.toList.map Char.toLower == "jar".toList
  | none => false

/-- Root at a path. A tree holds regular files, directories and links only, so the file test merely
repeats what the two tests before it leave; it is kept as the check of special files. -/
def rootAt (tree : FileTree) (path : String) : Except ClasspathError Root :=
  if !tree.pathExists path then .error (.notFound path)
  else if tree.isDirectory path then .ok (.directory path)
  else if tree.isFile path && isArchiveName path then .ok (.archive path)
  else .error (.unsupported path)

/-- Validate all paths in order. -/
def validate (tree : FileTree) (paths : List String) : Except ClasspathError (List Root) :=
  paths.mapM (rootAt tree)

end Classpath

/-- Failure to open an archive: no file at the path, a file that cannot be mapped, or an unreadable
central directory. -/
inductive ArchiveFailure where
  | cannotOpen (path : String)
  | cannotMap (path : String)
  | badStructure (path : String)
  deriving DecidableEq, Repr

/-- Text of an archive failure, up to the cause. What the operating system or the archive library
appends to it (`: ` and its own text) is theirs and not part of the model. -/
def ArchiveFailure.message : ArchiveFailure → String
  | .cannotOpen path => "cannot open jar: " ++ path
  | .cannotMap path => "cannot mmap jar: " ++ path
  | .badStructure path => "cannot read zip structure: " ++ path

/-- Archive at a path. -/
def Archive.openAt (tree : FileTree) (path : String) : Except ArchiveFailure Archive :=
  match tree.find? path with
  | some (_, .file content) =>
    match Archive.ofBytes? content with
    | some archive => .ok archive
    | none => .error (.badStructure path)
  | some _ => .error (.cannotMap path)
  | none => .error (.cannotOpen path)

end ClassAtlas
