import ClassAtlas.Text.Affix

/-!
# Class names

Internal (slash-separated) and external (dot-separated) class names, the classfile resource path of
a class below a classpath root, and the class-entry filter. Specification: `SPEC_FULL.md` §4.2, line
46, and §10.6, lines 168 and 175–176.
-/

namespace ClassAtlas.ClassName

/-- External form of an internal binary name. -/
def ofInternal (name : String) : String := name.map fun c => if c = '/' then '.' else c

/-- Resource path of the class with an external name, relative to a classpath root. -/
def classPath (name : String) : String :=
  name.map (fun c => if c = '.' then '/' else c) ++ ".class"

/-- Class-entry filter: the `.class` suffix, but not the descriptors `package-info` and
`module-info`. Both suffix tests apply to the whole path (§10.6). -/
def isClassEntry (path : String) : Bool :=
  match Text.dropEnding? ".class".toList path.toList with
  | none => false
  | some stem =>
    !("package-info".toList.isSuffixOf stem || "module-info".toList.isSuffixOf stem)

/-- Simple class name: the text behind the last dot, or the whole name (§10.6). -/
def simple (name : String) : String :=
  String.ofList (name.toList.reverse.takeWhile (· ≠ '.')).reverse

/-- Package name: the text in front of the last dot, or the empty text (§10.6). -/
def package (name : String) : String :=
  String.ofList ((name.toList.reverse.dropWhile (· ≠ '.')).drop 1).reverse

end ClassAtlas.ClassName
