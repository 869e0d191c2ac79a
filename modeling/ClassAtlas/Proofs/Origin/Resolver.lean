import ClassAtlas.Origin.Resolver
import Mathlib

/-!
# Contents of a resolver

The resolver of a classpath finds a class path if and only if one of the roots provides it: an
archive by an entry name, a directory by a file. Specification: `SPEC_FULL.md` §4.1, line 38.
-/

namespace ClassAtlas

/-- A root provides a class path. -/
def Root.HasClassPath (tree : FileTree) (classPath : String) : Root → Prop
  | .archive path =>
    ∃ archive, Archive.openAt tree path = .ok archive ∧
      classPath ∈ OriginResolver.classPaths archive
  | .directory path => tree.isFile (Path.join path classPath) = true

namespace OriginResolver

variable (tree : FileTree) (classPath : String)

/-- The empty resolver finds nothing. -/
theorem hasClassPath_empty : empty.hasClassPath tree classPath = false := by
  simp [hasClassPath, empty]

/-- Adding a root adds the class paths it provides. -/
theorem hasClassPath_addRoot (resolver : OriginResolver) (root : Root) :
    (resolver.addRoot tree root).1.hasClassPath tree classPath = true ↔
      resolver.hasClassPath tree classPath = true ∨ root.HasClassPath tree classPath := by
  cases root with
  | directory path =>
    simp [hasClassPath, addRoot, Root.HasClassPath, or_assoc]
  | archive path =>
    cases hopen : Archive.openAt tree path with
    | error cause => simp [addRoot, Root.HasClassPath, hopen]
    | ok archive =>
      simp [hasClassPath, addRoot, Root.HasClassPath, hopen, or_right_comm]

/-- A property gained root by root holds of the classpath's resolver if and only if some root
provides it. -/
theorem ofRoots_iff (Has : OriginResolver → Prop) {Adds : Root → Prop}
    (hadd : ∀ resolver root, Has (addRoot tree resolver root).1 ↔ Has resolver ∨ Adds root)
    (roots : List Root) :
    Has (ofRoots tree roots).1 ↔ Has empty ∨ ∃ root ∈ roots, Adds root := by
  -- The induction is over an arbitrary initial resolver.
  have hfold : ∀ made : OriginResolver × List Warning,
      Has (roots.foldl (fun made root =>
        let added := addRoot tree made.1 root
        (added.1, made.2 ++ added.2)) made).1 ↔ Has made.1 ∨ ∃ root ∈ roots, Adds root := by
    induction roots with
    | nil => simp
    | cons root roots ih =>
      intro made
      rw [List.foldl_cons, ih, hadd, or_assoc]
      simp
  exact hfold (empty, [])

/-- The resolver finds the class paths provided by its roots. -/
theorem hasClassPath_ofRoots (roots : List Root) :
    (ofRoots tree roots).1.hasClassPath tree classPath = true ↔
      ∃ root ∈ roots, root.HasClassPath tree classPath := by
  refine (ofRoots_iff tree (fun resolver => resolver.hasClassPath tree classPath = true)
    (hasClassPath_addRoot tree classPath) roots).trans ?_
  rw [hasClassPath_empty]
  simp

/-- The directories of a resolver. -/
theorem mem_directories_ofRoots (roots : List Root) (directory : String) :
    directory ∈ (ofRoots tree roots).1.directories ↔ Root.directory directory ∈ roots := by
  have hadd : ∀ resolver root, directory ∈ (addRoot tree resolver root).1.directories ↔
      directory ∈ resolver.directories ∨ root = .directory directory := by
    intro resolver root
    cases root with
    | directory path => simp [addRoot, eq_comm]
    | archive path => cases hopen : Archive.openAt tree path <;> simp [addRoot, hopen]
  refine (ofRoots_iff tree (fun resolver => directory ∈ resolver.directories) hadd
    roots).trans ?_
  simp [empty]

/-- The catalogue of a resolver, as read at its construction. -/
theorem contains_archived_ofRoots (roots : List Root) :
    (ofRoots tree roots).1.archived.contains classPath = true ↔
      ∃ path archive, Root.archive path ∈ roots ∧ Archive.openAt tree path = .ok archive ∧
        classPath ∈ classPaths archive := by
  have hadd : ∀ resolver root, (addRoot tree resolver root).1.archived.contains classPath = true ↔
      resolver.archived.contains classPath = true ∨ ∃ path archive, root = .archive path ∧
        Archive.openAt tree path = .ok archive ∧ classPath ∈ classPaths archive := by
    intro resolver root
    cases root with
    | directory path => simp [addRoot]
    | archive path => cases hopen : Archive.openAt tree path <;> simp [addRoot, hopen, or_comm]
  refine (ofRoots_iff tree (fun resolver => resolver.archived.contains classPath = true) hadd
    roots).trans ?_
  constructor
  · rintro (hempty | ⟨root, hroot, path, archive, rfl, hopen, hlisted⟩)
    · simp [empty] at hempty
    · exact ⟨path, archive, hroot, hopen, hlisted⟩
  · rintro ⟨path, archive, hroot, hopen, hlisted⟩
    exact .inr ⟨_, hroot, path, archive, rfl, hopen, hlisted⟩

/-- Origin by name of a class on the classpath. -/
def onClasspath (name : String) : Origin :=
  if name = rootObject then .rootObject
  else if isPlatform name then .platform
  else .application

/-- Classes on the classpath are not unknown. -/
theorem onClasspath_ne_unknown (name : String) : onClasspath name ≠ .unknown := by
  unfold onClasspath
  split
  · exact nofun
  · split <;> exact nofun

/-- Resolution of a found class path. -/
theorem resolve_of_hasClassPath {resolver : OriginResolver} {tree : FileTree} {name : String}
    (h : resolver.hasClassPath tree (ClassName.classPath name) = true) :
    resolver.resolve tree name = onClasspath name := by
  rw [resolve, if_pos h, onClasspath]

end OriginResolver

end ClassAtlas
