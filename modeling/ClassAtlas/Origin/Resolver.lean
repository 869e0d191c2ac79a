import ClassAtlas.ClassName
import ClassAtlas.Classpath.Root
import ClassAtlas.Origin.Basic
import ClassAtlas.Scan.Warning
import Std.Data.ExtTreeSet

/-!
# Origin resolution

Classification of a class name in priority order: universal root type, reserved platform prefix,
class file among the classpath roots, unknown. Archives are catalogued once, when the resolver is
constructed; directories are probed on each query. Specification: `SPEC_FULL.md` §4.1, lines 37–38.
-/

namespace ClassAtlas

/-- Resolver with the directory roots in order and the class paths of all catalogued archives. -/
structure OriginResolver where
  directories : List String
  archived : Std.ExtTreeSet String

namespace OriginResolver

/-- Name of the universal root type. -/
def rootObject : String := "java.lang.Object"

/-- Reserved platform prefixes. -/
def platformPrefixes : List String := ["java.", "javax.", "jdk.", "sun.", "com.sun."]

/-- Platform prefix test. -/
def isPlatform (name : String) : Bool := platformPrefixes.any (Text.startsWith · name)

/-- Resolver of the empty classpath. -/
def empty : OriginResolver := ⟨[], ∅⟩

/-- Class paths of the entries of an archive. -/
def classPaths (archive : Archive) : List String :=
  (archive.entries.map (·.name)).filter (Text.endsWith ".class")

/-- Add a root; an archive that cannot be catalogued is reported. -/
def addRoot (tree : FileTree) (resolver : OriginResolver) :
    Root → OriginResolver × List Warning
  | .directory path => ({ resolver with directories := resolver.directories ++ [path] }, [])
  | .archive path =>
    match Archive.openAt tree path with
    | .ok archive =>
      ({ resolver with archived := resolver.archived.insertMany (classPaths archive) }, [])
    | .error cause => (resolver, [.uncataloged path cause])

/-- Resolver of a classpath, with the reports of its archives. -/
def ofRoots (tree : FileTree) (roots : List Root) : OriginResolver × List Warning :=
  roots.foldl
    (fun (resolver, warnings) root =>
      let (resolver, more) := resolver.addRoot tree root
      (resolver, warnings ++ more))
    (empty, [])

/-- A class path is catalogued or found in a directory root. -/
def hasClassPath (resolver : OriginResolver) (tree : FileTree) (classPath : String) : Bool :=
  resolver.archived.contains classPath ||
    resolver.directories.any fun directory => tree.isFile (Path.join directory classPath)

/-- Origin of a class name (§4.1 (1)–(4)). -/
def resolve (resolver : OriginResolver) (tree : FileTree) (name : String) : Origin :=
  if name = rootObject then .rootObject
  else if isPlatform name then .platform
  else if resolver.hasClassPath tree (ClassName.classPath name) then .application
  else .unknown

end OriginResolver

end ClassAtlas
