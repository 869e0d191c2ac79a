import ClassAtlas.ClassFile.Facts
import ClassAtlas.Classpath.Walk
import ClassAtlas.Scan.Warning

/-!
# Scan tasks

Enumeration of a classpath into tasks. Archive entries are split into chunks of consecutive indices,
one task each; a directory yields one task per class file and per obstacle. A task processes its
entries in order, each with one finding. Specification: `SPEC_FULL.md` §4.3, lines 49–51, §10.4,
lines 146–149, and §10.6, lines 171–176.
-/

namespace ClassAtlas.Scan

/-- Half-open range of entry indices. -/
structure Chunk where
  start : Nat
  stop : Nat
  deriving DecidableEq, Repr

/-- Indices of a chunk. -/
def Chunk.indices (chunk : Chunk) : List Nat := List.range' chunk.start (chunk.stop - chunk.start)

/-- Chunks of `size` indices, at least one each, that cover the range from `start` to `length`. -/
def chunksFrom (length size start : Nat) : List Chunk :=
  if start < length then
    let stop := min (start + max size 1) length
    ⟨start, stop⟩ :: chunksFrom length size stop
  else []
termination_by length - start

/-- Chunks of `size` indices, at least one each, that cover the range below `length`. -/
def chunks (length size : Nat) : List Chunk := chunksFrom length size 0

/-- Result of one entry: not a class entry, a decoded class, a failed entry, or a failed root. -/
inductive Finding where
  | ignored
  | decoded (file : ClassFile)
  | entryFailed (error : EntryError)
  | rootFailed (root : String) (cause : ArchiveFailure)
  deriving DecidableEq, Repr

/-- Decode the content of a class entry. -/
def decode (root entry : String) (content : ByteArray) : Finding :=
  match ClassFile.parse content.data.toList with
  | .ok file => .decoded file
  | .error cause => .entryFailed (.undecodable root entry cause)

/-- Process an opened entry. -/
def readOpened (root : String) (entry : Archive.OpenEntry) : Finding :=
  if entry.isDirectory || !ClassName.isClassEntry entry.name then .ignored
  else
    match entry.content? with
    | none => .entryFailed (.unreadable root entry.name)
    | some content => decode root entry.name content

/-- Process the archive entry at an index. The entry is opened before its name is tested. -/
def readEntry (root : String) (archive : Archive) (index : Nat) : Finding :=
  match archive.entries[index]? with
  | none => .entryFailed (.unopenable root index)
  | some entry =>
    match archive.openEntry entry with
    | .error .refused => .entryFailed (.unopenable root index)
    | .error .locked => .entryFailed (.locked root index)
    | .ok opened => readOpened root opened

/-- Task: the findings of its entries in order. -/
abbrev Task := List Finding

/-- Task of a chunk. -/
def chunkTask (root : String) (archive : Archive) (chunk : Chunk) : Task :=
  chunk.indices.map (readEntry root archive)

/-- Tasks of an archive, or the one that reports the failure to open it. -/
def archiveTasks (tree : FileTree) (chunkSize : Nat) (root : String) : List Task :=
  match Archive.openAt tree root with
  | .error cause => [[.rootFailed root cause]]
  | .ok archive => (chunks archive.entries.length chunkSize).map (chunkTask root archive)

/-- Process a class file of a directory. -/
def readFound (root : String) (file : Classpath.FoundFile) : Finding :=
  match file.content? with
  | none => .entryFailed (.unreadable root file.relative)
  | some content => decode root file.relative content

/-- Finding of an obstacle. -/
def obstacleFinding (root : String) : Finding := .entryFailed (.unreadable root "")

/-- Task of an item of a directory walk. -/
def encounterTask (root : String) : Classpath.Encounter → Task
  | .classFile file => [readFound root file]
  | .obstacle => [obstacleFinding root]

/-- Tasks of a directory. -/
def directoryTasks (tree : FileTree) (root : String) : List Task :=
  (Classpath.search tree root).map (encounterTask root)

/-- Tasks of a root. -/
def rootTasks (tree : FileTree) (chunkSize : Nat) : Root → List Task
  | .archive path => archiveTasks tree chunkSize path
  | .directory path => directoryTasks tree path

/-- Tasks of a classpath. -/
def tasks (tree : FileTree) (chunkSize : Nat) (roots : List Root) : List Task :=
  roots.flatMap (rootTasks tree chunkSize)

end ClassAtlas.Scan
