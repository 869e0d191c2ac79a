import ClassAtlas.Program

/-!
# Executable

Runs `Program.run` on the machine's file system. The observable part of the file system is read
beforehand: the items on the paths of the command line, and everything below the classpath roots.
Special files and unreadable items are outside of `FileTree` and left out. Specification:
`SPEC_FULL.md` §10.5, lines 155–163.
-/

namespace ClassAtlas.Command

/-- Absolute path of a place. -/
def pathOf (place : Place) : String := "/" ++ String.intercalate "/" place

/-- Item on disk. A link is replaced by one to its final target. -/
def itemOnDisk? (directory : Place) (name : String) : IO (Option FileItem) := do
  let file := IO.FS.DirEntry.path ⟨pathOf directory, name⟩
  try
    match (← file.symlinkMetadata).type with
    | .dir => return some .directory
    | .file => return some (.file (← IO.FS.readBinFile file))
    | .symlink => return some (.link (← IO.FS.realPath file).toString)
    | .other => return none
  catch _ => return none

/-- Read the items that the resolution of a path passes. -/
partial def readPath (tree : FileTree) (path : String) : IO FileTree := do
  match tree.lookup path true with
  | .absent directory name _ =>
    match ← itemOnDisk? directory name with
    | some item => readPath (tree.put (directory ++ [name]) item) path
    | none => return tree
  | _ => return tree

/-- Read everything below a directory, with the targets of links. -/
partial def readBelow (tree : FileTree) (directory : Place) : IO FileTree := do
  let file := IO.FS.DirEntry.path ⟨pathOf directory, "."⟩
  (← file.readDir).foldlM (fun tree entry => do
    let place := directory ++ [entry.fileName]
    match ← itemOnDisk? directory entry.fileName with
    | none => return tree
    | some .directory => readBelow (tree.put place .directory) place
    | some (.link target) => readPath (tree.put place (.link target)) target
    | some item => return tree.put place item) tree

/-- Read a classpath root. -/
def readRoot (tree : FileTree) (path : String) : IO FileTree := do
  let tree ← readPath tree path
  match tree.find? path with
  | some (place, .directory) => readBelow tree place
  | _ => return tree

/-- Read the observable part of the file system. -/
def readFiles (arguments : Settings.Arguments) : IO FileTree := do
  let here := Path.segments (← IO.currentDir).toString
  let tree ← arguments.classpath.foldlM readRoot (.fresh (here.filter (!·.isEmpty)))
  arguments.output.toList.foldlM readPath tree

/-- Read the consulted environment variables. -/
def readEnvironment : IO Settings.Environment := do
  let value (source : Settings.Variable) : IO (Option (List UInt8)) := do
    return (← IO.getEnv source.name).map Text.Utf8.encode
  return { workers := ← value .workers, tickMs := ← value .tickMs }

/-- Write the report file of a run, with its missing ancestors. -/
def keepFile (result : RunResult) : IO Unit := do
  match result.written with
  | none => return
  | some path =>
    (Path.stages path).dropLast.forM fun parent => IO.FS.createDirAll parent
    IO.FS.writeBinFile path ((result.tree.read? path).getD ByteArray.empty)

/-- Synopsis of the command (§10.5, lines 156–157). -/
def synopsis : String :=
  "Usage: class-graph [--workers N] [--tick-ms MS] <PATH>... [--settle-ms MS] " ++
  "[-f json|text] [-o FILE]\n"

/-- Run the command. The number of cores is not available here, so the default worker count is that
of a host that does not report it; no result depends on it. -/
def run (arguments : List String) : IO UInt32 := do
  let begun ← IO.monoMsNow
  let tree ← readFiles ((Settings.Arguments.parse arguments).toOption.getD {})
  let environment ← readEnvironment
  let durationMs := (← IO.monoMsNow) - begun
  let surroundings : Surroundings :=
    { tree, environment, defaultWorkers := ScanConfig.defaultWorkers none, durationMs,
      usage := fun _ => synopsis }
  let result := Program.run surroundings arguments
  keepFile result
  IO.print result.stdout
  IO.eprint result.stderr
  return UInt32.ofNat result.exitCode

end ClassAtlas.Command

/-- Entry point. -/
def main (arguments : List String) : IO UInt32 := ClassAtlas.Command.run arguments
