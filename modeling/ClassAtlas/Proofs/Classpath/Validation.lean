import ClassAtlas.Proofs.Failure
import ClassAtlas.Scan.Session
import Mathlib

/-!
# Laws of classpath validation

A classpath validates if and only if every path resolves to a directory or to a regular file with an
archive extension; its roots are then these paths in order. Otherwise the first invalid path
determines the error and no session is opened. Validation does not depend on the content of files.
Specification: `SPEC_FULL.md` §6, line 71, §7, lines 77 and 81, and §10.2, lines 124–125.
-/

namespace ClassAtlas

/-! ### Archive names -/

namespace Path

private theorem takeWhile_reverse_append {stem tail : List Char} (h : '.' ∉ tail) :
    (stem ++ '.' :: tail).reverse.takeWhile (· ≠ '.') = tail.reverse := by
  have hall : ∀ c ∈ tail.reverse, decide (c ≠ '.') = true := by
    intro c hc
    exact decide_eq_true fun heq => h (heq ▸ List.mem_reverse.mp hc)
  rw [List.reverse_append, List.reverse_cons, List.append_assoc, List.takeWhile_append_of_pos hall]
  simp

private theorem exists_last_dot {name : List Char} (h : '.' ∈ name) :
    ∃ stem tail, name = stem ++ '.' :: tail ∧ '.' ∉ tail := by
  obtain ⟨after, before, hname, hafter⟩ := List.eq_append_cons_of_mem (List.mem_reverse.mpr h)
  refine ⟨before.reverse, after.reverse, ?_, by simpa using hafter⟩
  rw [← List.reverse_reverse name, hname]
  simp

/-- The extension of a path is the text behind the last dot of its file name, unless that dot comes
first. -/
theorem extension?_eq_some_iff {path extension : String} :
    extension? path = some extension ↔
      ∃ stem, stem ≠ [] ∧ (fileName path).toList = stem ++ '.' :: extension.toList ∧
        '.' ∉ extension.toList := by
  rw [extension?]
  generalize (fileName path).toList = name
  rw [Option.ite_none_right_eq_some, Option.some.injEq]
  constructor
  · rintro ⟨hlength, rfl⟩
    by_cases hdot : '.' ∈ name
    · obtain ⟨stem, tail, rfl, htail⟩ := exists_last_dot hdot
      rw [takeWhile_reverse_append htail] at hlength ⊢
      refine ⟨stem, ?_, by simp, by simpa using htail⟩
      rintro rfl
      simp at hlength
    · have hall : name.reverse.takeWhile (· ≠ '.') = name.reverse := by
        rw [List.takeWhile_eq_self_iff]
        intro c hc
        exact decide_eq_true fun heq => hdot (heq ▸ List.mem_reverse.mp hc)
      rw [hall] at hlength
      omega
  · rintro ⟨stem, hne, rfl, hdot⟩
    have hpos := List.length_pos_iff.mpr hne
    rw [takeWhile_reverse_append hdot, List.reverse_reverse, String.ofList_toList]
    refine ⟨?_, rfl⟩
    simp only [List.length_reverse, List.length_append, List.length_cons]
    omega

/-- The file name has a non-empty stem and the extension `jar` in either case. -/
def HasArchiveName (path : String) : Prop :=
  ∃ stem extension, stem ≠ [] ∧ (fileName path).toList = stem ++ '.' :: extension ∧
    extension.map Char.toLower = ['j', 'a', 'r']

end Path

namespace Classpath

variable {tree : FileTree} {path : String}

/-- `isArchiveName` decides `HasArchiveName`. -/
theorem isArchiveName_iff : isArchiveName path = true ↔ Path.HasArchiveName path := by
  rw [isArchiveName]
  constructor
  · intro h
    split at h
    · next extension hextension =>
      obtain ⟨stem, hne, hname, -⟩ := Path.extension?_eq_some_iff.mp hextension
      exact ⟨stem, extension.toList, hne, hname, eq_of_beq h⟩
    · cases h
  · rintro ⟨stem, extension, hne, hname, hletters⟩
    have hdot : '.' ∉ extension := by
      intro hmem
      have hlower := List.mem_map_of_mem (f := Char.toLower) hmem
      rw [hletters] at hlower
      revert hlower
      decide
    have hextension : Path.extension? path = some (String.ofList extension) := by
      rw [Path.extension?_eq_some_iff, String.toList_ofList]
      exact ⟨stem, hne, hname, hdot⟩
    simp [hextension, hletters]

/-! ### Single paths -/

/-- Root at a path: a directory of any name, or a regular file with an archive name, behind all
links. -/
inductive IsRootAt (tree : FileTree) (path : String) : Root → Prop
  | directory {place : Place} : tree.find? path = some (place, .directory) →
    IsRootAt tree path (.directory path)
  | archive {place : Place} {content : ByteArray} :
    tree.find? path = some (place, .file content) → Path.HasArchiveName path →
    IsRootAt tree path (.archive path)

/-- Rejection of a path: `notFound` without a target, `unsupported` for a target that is no root. -/
inductive IsRefusedAt (tree : FileTree) (path : String) : ClasspathError → Prop
  | notFound : tree.find? path = none → IsRefusedAt tree path (.notFound path)
  | unsupported {place : Place} {item : FileItem} : tree.find? path = some (place, item) →
    (∀ root, ¬IsRootAt tree path root) → IsRefusedAt tree path (.unsupported path)

/-- `rootAt` accepts exactly the paths with a root. -/
theorem rootAt_eq_ok_iff {root : Root} : rootAt tree path = .ok root ↔ IsRootAt tree path root := by
  constructor
  · intro h
    cases hfind : tree.find? path with
    | none => simp [rootAt, FileTree.pathExists, hfind] at h
    | some found =>
      obtain ⟨place, item⟩ := found
      cases item with
      | directory =>
        have hroot : Root.directory path = root := by
          simpa [rootAt, FileTree.pathExists, FileTree.isDirectory, hfind] using h
        exact hroot ▸ .directory hfind
      | file content =>
        have hroot : isArchiveName path = true ∧ Root.archive path = root := by
          simpa [rootAt, FileTree.pathExists, FileTree.isDirectory, FileTree.isFile, hfind,
            apply_ite (· = Except.ok root)] using h
        exact hroot.2 ▸ .archive hfind (isArchiveName_iff.mp hroot.1)
      | link =>
        simp [rootAt, FileTree.pathExists, FileTree.isDirectory, FileTree.isFile, hfind] at h
  · intro h
    cases h with
    | directory hfind => simp [rootAt, FileTree.pathExists, FileTree.isDirectory, hfind]
    | archive hfind hname =>
      simp [rootAt, FileTree.pathExists, FileTree.isDirectory, FileTree.isFile, hfind,
        isArchiveName_iff.mpr hname]

/-- `rootAt` rejects exactly the paths without a root. -/
theorem rootAt_eq_error_iff {error : ClasspathError} :
    rootAt tree path = .error error ↔ IsRefusedAt tree path error := by
  constructor
  · intro h
    have hnone : ∀ root, ¬IsRootAt tree path root := by
      intro root hroot
      rw [rootAt_eq_ok_iff.mpr hroot] at h
      cases h
    cases hfind : tree.find? path with
    | none =>
      have herror : ClasspathError.notFound path = error := by
        simpa [rootAt, FileTree.pathExists, hfind] using h
      exact herror ▸ .notFound hfind
    | some found =>
      have herror : ClasspathError.unsupported path = error := by
        rw [rootAt, FileTree.pathExists, hfind] at h
        split_ifs at h <;> simp_all
      exact herror ▸ .unsupported hfind hnone
  · intro h
    cases h with
    | notFound hfind => simp [rootAt, FileTree.pathExists, hfind]
    | unsupported hfind hnone =>
      cases hroot : rootAt tree path with
      | ok root => exact absurd (rootAt_eq_ok_iff.mp hroot) (hnone root)
      | error error =>
        rw [rootAt, FileTree.pathExists, hfind] at hroot
        split_ifs at hroot <;> simp_all

/-! ### Classpaths -/

/-- An accepted classpath has the roots at its paths, in order. -/
theorem validate_eq_ok_iff {paths : List String} {roots : List Root} :
    validate tree paths = .ok roots ↔ List.Forall₂ (IsRootAt tree) paths roots := by
  simp only [validate, mapM_eq_ok_iff, rootAt_eq_ok_iff]

/-- A rejected classpath has the error of its first path without a root. -/
theorem validate_eq_error_iff {paths : List String} {error : ClasspathError} :
    validate tree paths = .error error ↔ ∃ before path after, paths = before ++ path :: after ∧
      (∀ other ∈ before, ∃ root, IsRootAt tree other root) ∧ IsRefusedAt tree path error := by
  simp only [validate, mapM_eq_error_iff, rootAt_eq_ok_iff, rootAt_eq_error_iff]

/-- A classpath is accepted if and only if there is a root at each of its paths. -/
theorem exists_validate_eq_ok_iff {paths : List String} :
    (∃ roots, validate tree paths = .ok roots) ↔
      ∀ path ∈ paths, ∃ root, IsRootAt tree path root := by
  simp only [validate_eq_ok_iff]
  induction paths with
  | nil => simp
  | cons path paths ih =>
    rw [List.forall_mem_cons, ← ih]
    constructor
    · rintro ⟨_, hroot | ⟨hroot, hroots⟩⟩
      exact ⟨⟨_, hroot⟩, _, hroots⟩
    · rintro ⟨⟨root, hroot⟩, roots, hroots⟩
      exact ⟨root :: roots, .cons hroot hroots⟩

private theorem IsRootAt.path_eq {root : Root} (h : IsRootAt tree path root) :
    root.path = path := by
  cases h <;> rfl

/-- Roots keep the paths as given. -/
theorem map_path_eq {paths : List String} {roots : List Root}
    (h : List.Forall₂ (IsRootAt tree) paths roots) : roots.map Root.path = paths := by
  induction h with
  | nil => rfl
  | cons hroot _ ih => rw [List.map_cons, hroot.path_eq, ih]

/-! ### Sessions -/

/-- Two trees agree on the kind of target of a path, irrespective of the content of files. -/
structure LooksAlikeAt (tree other : FileTree) (path : String) : Prop where
  pathExists : other.pathExists path = tree.pathExists path
  isDirectory : other.isDirectory path = tree.isDirectory path
  isFile : other.isFile path = tree.isFile path

/-- Validation of a path depends on the kind of its target only. -/
theorem LooksAlikeAt.rootAt_eq {other : FileTree} (h : LooksAlikeAt tree other path) :
    rootAt other path = rootAt tree path := by
  rw [rootAt, rootAt, h.pathExists, h.isDirectory, h.isFile]

/-- Validation of a classpath depends on the kinds of its targets only. -/
theorem validate_eq_of_looksAlikeAt {other : FileTree} {paths : List String}
    (h : ∀ path ∈ paths, LooksAlikeAt tree other path) :
    validate other paths = validate tree paths := by
  rw [validate, validate]
  induction paths with
  | nil => rfl
  | cons path paths ih =>
    obtain ⟨hpath, hpaths⟩ := List.forall_mem_cons.mp h
    rw [List.mapM_cons, List.mapM_cons, hpath.rootAt_eq, ih hpaths]

/-- A session is opened on the roots of an accepted classpath. -/
theorem openOn_eq_ok_iff {paths : List String} {config : ScanConfig} {session : Session} :
    Session.openOn tree paths config = .ok session ↔
      ∃ roots, validate tree paths = .ok roots ∧ session = .ofRoots tree roots config := by
  simp only [Session.openOn, bind_eq_ok_iff, pure, Except.pure, Except.ok.injEq, @eq_comm _ session]

/-- No session is opened on a rejected classpath, with the same error. -/
theorem openOn_eq_error_iff {paths : List String} {config : ScanConfig} {error : ClasspathError} :
    Session.openOn tree paths config = .error error ↔ validate tree paths = .error error := by
  simp [Session.openOn, bind_eq_error_iff, pure, Except.pure]

/-! ### Summary -/

/-- Laws of validation: acceptance, roots in order with unchanged paths, the error of the first
invalid path, the opening of sessions, and the independence of a rejection from the content of
files. -/
structure IsChecked (tree : FileTree) (paths : List String) (config : ScanConfig) : Prop where
  accepted : (∃ roots, validate tree paths = .ok roots) ↔
    ∀ path ∈ paths, ∃ root, IsRootAt tree path root
  roots {roots : List Root} :
    validate tree paths = .ok roots ↔ List.Forall₂ (IsRootAt tree) paths roots
  unchanged {roots : List Root} : validate tree paths = .ok roots → roots.map Root.path = paths
  refused {error : ClasspathError} : validate tree paths = .error error ↔
    ∃ before path after, paths = before ++ path :: after ∧
      (∀ other ∈ before, ∃ root, IsRootAt tree other root) ∧ IsRefusedAt tree path error
  opened {session : Session} : Session.openOn tree paths config = .ok session ↔
    ∃ roots, validate tree paths = .ok roots ∧ session = .ofRoots tree roots config
  notOpened {error : ClasspathError} :
    Session.openOn tree paths config = .error error ↔ validate tree paths = .error error
  unread {other : FileTree} {error : ClasspathError} :
    (∀ path ∈ paths, LooksAlikeAt tree other path) →
    (Session.openOn other paths config = .error error ↔
      Session.openOn tree paths config = .error error)

/-- The laws of `IsChecked` hold for every tree, classpath and configuration. -/
theorem isChecked (tree : FileTree) (paths : List String) (config : ScanConfig) :
    IsChecked tree paths config where
  accepted := exists_validate_eq_ok_iff
  roots := validate_eq_ok_iff
  unchanged h := map_path_eq (validate_eq_ok_iff.mp h)
  refused := validate_eq_error_iff
  opened := openOn_eq_ok_iff
  notOpened := openOn_eq_error_iff
  unread h := by rw [openOn_eq_error_iff, openOn_eq_error_iff, validate_eq_of_looksAlikeAt h]

end Classpath

end ClassAtlas
