import ClassAtlas.Proofs.FileTree.Walk
import Mathlib

/-!
# Footprint of path resolution

Resolving paths below a set of base paths visits a set of places: those on the way, those below the
targets, and those that links below the targets lead to. The presence of a file at such a path is a
function of the visited places; in front of the last part only directories and links matter.
Specification: `SPEC_FULL.md` §4.1, line 38 (3).
-/

namespace ClassAtlas

/-- The result of path resolution is a regular file. -/
def Lookup.isFile : Lookup → Bool
  | .found _ (.file _) => true
  | _ => false

namespace FileTree

/-! ### Visited places -/

/-- Directory or link at a place. -/
def passage? (tree : FileTree) (place : Place) : Option FileItem :=
  match tree.itemAt? place with
  | some (.file _) => none
  | item => item

/-- There is a regular file at a place. -/
def hasFile (tree : FileTree) (place : Place) : Bool :=
  match tree.itemAt? place with
  | some (.file _) => true
  | _ => false

/-- Reachable states of path resolution, consisting of a place and the remaining parts, when base
paths are resolved and any name except `..` is looked up below their targets. -/
inductive Visits (tree : FileTree) (paths : List String) : Place → List String → Prop
  | start {path : String} : path ∈ paths →
    Visits tree paths (if Path.isAbsolute path then [] else tree.workingDirectory)
      (Path.segments path)
  | search {place : Place} {name : String} : name ≠ ".." → Visits tree paths place [] →
    Visits tree paths place [name]
  | stay {here : Place} {name : String} {rest : List String} : name = "" ∨ name = "." →
    Visits tree paths here (name :: rest) → Visits tree paths here rest
  | up {here : Place} {rest : List String} : Visits tree paths here (".." :: rest) →
    Visits tree paths here.dropLast rest
  | down {here : Place} {name : String} {rest : List String} :
    name ≠ "" ∧ name ≠ "." ∧ name ≠ ".." →
    (∀ target, tree.itemAt? (here ++ [name]) ≠ some (.link target)) →
    Visits tree paths here (name :: rest) → Visits tree paths (here ++ [name]) rest
  | follow {here : Place} {name target : String} {rest : List String} :
    name ≠ "" ∧ name ≠ "." ∧ name ≠ ".." →
    tree.itemAt? (here ++ [name]) = some (.link target) →
    Visits tree paths here (name :: rest) →
    Visits tree paths (if Path.isAbsolute target then [] else here) (Path.segments target ++ rest)

/-- Two trees agree on the footprint of base paths: on the working directory, on visited directories
and links, and on the presence of files at and below the targets. -/
structure AgreesOn (tree other : FileTree) (paths : List String) : Prop where
  workingDirectory : tree.workingDirectory = other.workingDirectory
  passage {here : Place} {name : String} {rest : List String} :
    tree.Visits paths here (name :: rest) →
    tree.passage? here = other.passage? here ∧
      tree.passage? (here ++ [name]) = other.passage? (here ++ [name])
  file {place : Place} : tree.Visits paths place [] → tree.hasFile place = other.hasFile place

variable {tree other : FileTree} {paths : List String} {here : Place} {name : String}
  {rest : List String} {links : Nat}

private theorem passage?_eq_directory_iff {place : Place} :
    tree.passage? place = some .directory ↔ tree.itemAt? place = some .directory := by
  rw [passage?]
  split <;> simp_all

private theorem passage?_eq_link_iff {place : Place} {target : String} :
    tree.passage? place = some (.link target) ↔ tree.itemAt? place = some (.link target) := by
  rw [passage?]
  split <;> simp_all

private theorem passage?_eq_none_iff {place : Place} :
    tree.passage? place = none ↔
      tree.itemAt? place = none ∨ ∃ content, tree.itemAt? place = some (.file content) := by
  rw [passage?]
  split <;> simp_all

/-- `isFile` is the test of the resolution with all links followed. -/
theorem isFile_eq (path : String) : tree.isFile path = (tree.lookup path true).isFile := by
  rw [isFile, find?]
  cases tree.lookup path true with
  | found place item => cases item <;> rfl
  | absent => rfl
  | refused => rfl

/-! ### Resolution in two trees -/

private theorem isFile_walk_nil : (tree.walk true links here []).isFile = tree.hasFile here := by
  rw [walk, hasFile]
  cases tree.itemAt? here with
  | none => rfl
  | some item => cases item <;> rfl

private theorem isFile_walk_of_not_directory (h : tree.itemAt? here ≠ some .directory) :
    (tree.walk true links here (name :: rest)).isFile = false := by
  rw [walk]
  split
  · next hdirectory => exact absurd hdirectory h
  · rfl
  · rfl

/-- At a place without a directory or link, only the last part can resolve to a file. -/
theorem isFile_walk_of_passage_none (hhere : tree.itemAt? here = some .directory)
    (hname : name ≠ "" ∧ name ≠ "." ∧ name ≠ "..") (hshort : ¬maxNameBytes < name.utf8ByteSize)
    (hnone : tree.passage? (here ++ [name]) = none) :
    (tree.walk true links here (name :: rest)).isFile =
      (rest.isEmpty && tree.hasFile (here ++ [name])) := by
  obtain ⟨hempty, hdot, hdots⟩ := hname
  rw [walk, hhere]
  simp only [hempty, hdot, hdots, hshort, or_self, if_false]
  obtain hitem | ⟨content, hitem⟩ := passage?_eq_none_iff.mp hnone
  · simp [hitem, hasFile, Lookup.isFile]
  · simp only [hitem]
    cases rest with
    | nil => simp [isFile_walk_nil]
    | cons next rest =>
      rw [isFile_walk_of_not_directory (by simp [hitem])]
      rfl

/-- Remaining parts of a base path, followed by parts without `..`; a trailing slash of the base
path is immaterial. -/
def IsOnCourse (tree : FileTree) (paths : List String) (here : Place) (parts : List String) :
    Prop :=
  ∃ own ending more, parts = own ++ more ∧ (ending = [] ∨ ending = [""]) ∧
    tree.Visits paths here (own ++ ending) ∧ ".." ∉ more

namespace IsOnCourse

private theorem visits_nil (h : tree.IsOnCourse paths here []) : tree.Visits paths here [] := by
  obtain ⟨own, ending, more, hparts, hending, hvisits, -⟩ := h
  obtain ⟨rfl, rfl⟩ := List.append_eq_nil_iff.mp hparts.symm
  obtain rfl | rfl := hending
  · exact hvisits
  · exact hvisits.stay (.inl rfl)

private theorem visits_cons (h : tree.IsOnCourse paths here (name :: rest)) :
    ∃ own ending more, rest = own ++ more ∧ (ending = [] ∨ ending = [""]) ∧
      tree.Visits paths here (name :: (own ++ ending)) ∧ ".." ∉ more := by
  obtain ⟨own, ending, more, hparts, hending, hvisits, hmore⟩ := h
  cases own with
  | cons first own =>
    obtain ⟨rfl, rfl⟩ := List.cons_eq_cons.mp hparts
    exact ⟨own, ending, more, rfl, hending, hvisits, hmore⟩
  | nil =>
    rw [List.nil_append] at hparts
    subst hparts
    rw [List.mem_cons, not_or] at hmore
    have hend : tree.Visits paths here [] :=
      visits_nil ⟨[], ending, [], rfl, hending, hvisits, List.not_mem_nil⟩
    exact ⟨[], [], rest, rfl, .inl rfl, hend.search (Ne.symm hmore.1), hmore.2⟩

private theorem stay (hname : name = "" ∨ name = ".")
    (h : tree.IsOnCourse paths here (name :: rest)) :
    tree.IsOnCourse paths here rest := by
  obtain ⟨own, ending, more, hrest, hending, hvisits, hmore⟩ := h.visits_cons
  exact ⟨own, ending, more, hrest, hending, hvisits.stay hname, hmore⟩

private theorem up (h : tree.IsOnCourse paths here (".." :: rest)) :
    tree.IsOnCourse paths here.dropLast rest := by
  obtain ⟨own, ending, more, hrest, hending, hvisits, hmore⟩ := h.visits_cons
  exact ⟨own, ending, more, hrest, hending, hvisits.up, hmore⟩

private theorem down (hname : name ≠ "" ∧ name ≠ "." ∧ name ≠ "..")
    (hlink : ∀ target, tree.itemAt? (here ++ [name]) ≠ some (.link target))
    (h : tree.IsOnCourse paths here (name :: rest)) :
    tree.IsOnCourse paths (here ++ [name]) rest := by
  obtain ⟨own, ending, more, hrest, hending, hvisits, hmore⟩ := h.visits_cons
  exact ⟨own, ending, more, hrest, hending, hvisits.down hname hlink, hmore⟩

private theorem follow {target : String} (hname : name ≠ "" ∧ name ≠ "." ∧ name ≠ "..")
    (hlink : tree.itemAt? (here ++ [name]) = some (.link target))
    (h : tree.IsOnCourse paths here (name :: rest)) :
    tree.IsOnCourse paths (if Path.isAbsolute target then [] else here)
      (Path.segments target ++ rest) := by
  obtain ⟨own, ending, more, rfl, hending, hvisits, hmore⟩ := h.visits_cons
  have hfollow := hvisits.follow hname hlink
  rw [← List.append_assoc] at hfollow
  exact ⟨Path.segments target ++ own, ending, more, (List.append_assoc ..).symm, hending, hfollow,
    hmore⟩

end IsOnCourse

namespace AgreesOn

private theorem passage_eq (h : tree.AgreesOn other paths)
    (hcourse : tree.IsOnCourse paths here (name :: rest)) :
    tree.passage? here = other.passage? here ∧
      tree.passage? (here ++ [name]) = other.passage? (here ++ [name]) := by
  obtain ⟨own, ending, more, -, -, hvisits, -⟩ := hcourse.visits_cons
  exact h.passage hvisits

private theorem itemAt?_eq_directory_iff (h : tree.AgreesOn other paths)
    (hcourse : tree.IsOnCourse paths here (name :: rest)) :
    other.itemAt? here = some .directory ↔ tree.itemAt? here = some .directory := by
  rw [← passage?_eq_directory_iff, ← (h.passage_eq hcourse).1, passage?_eq_directory_iff]

private theorem itemAt?_child_eq_directory_iff (h : tree.AgreesOn other paths)
    (hcourse : tree.IsOnCourse paths here (name :: rest)) :
    other.itemAt? (here ++ [name]) = some .directory ↔
      tree.itemAt? (here ++ [name]) = some .directory := by
  rw [← passage?_eq_directory_iff, ← (h.passage_eq hcourse).2, passage?_eq_directory_iff]

private theorem itemAt?_child_eq_link_iff (h : tree.AgreesOn other paths)
    (hcourse : tree.IsOnCourse paths here (name :: rest)) {target : String} :
    other.itemAt? (here ++ [name]) = some (.link target) ↔
      tree.itemAt? (here ++ [name]) = some (.link target) := by
  rw [← passage?_eq_link_iff, ← (h.passage_eq hcourse).2, passage?_eq_link_iff]

private theorem isFile_walk_of_none (h : tree.AgreesOn other paths)
    (hcourse : tree.IsOnCourse paths here (name :: rest))
    (hdirectory : tree.itemAt? here = some .directory)
    (hname : name ≠ "" ∧ name ≠ "." ∧ name ≠ "..") (hshort : ¬maxNameBytes < name.utf8ByteSize)
    (hnone : tree.passage? (here ++ [name]) = none) :
    (tree.walk true links here (name :: rest)).isFile =
      (other.walk true links here (name :: rest)).isFile := by
  have hother : other.passage? (here ++ [name]) = none := by rw [← (h.passage_eq hcourse).2, hnone]
  have hdirectory' := (h.itemAt?_eq_directory_iff hcourse).mpr hdirectory
  rw [isFile_walk_of_passage_none hdirectory hname hshort hnone,
    isFile_walk_of_passage_none hdirectory' hname hshort hother]
  cases rest with
  | cons next rest => rfl
  | nil =>
    have hlink : ∀ target, tree.itemAt? (here ++ [name]) ≠ some (.link target) := by
      intro target htarget
      rw [← passage?_eq_link_iff, hnone] at htarget
      cases htarget
    rw [h.file (hcourse.down hname hlink).visits_nil]

/-- Agreeing trees have files at the ends of the same walks. -/
theorem isFile_walk (h : tree.AgreesOn other paths) (links : Nat) (here : Place)
    (parts : List String) (hcourse : tree.IsOnCourse paths here parts) :
    (tree.walk true links here parts).isFile = (other.walk true links here parts).isFile := by
  induction links, here, parts using walk.induct tree true with
  | case1 links here item hitem =>
    rw [isFile_walk_nil, isFile_walk_nil, h.file hcourse.visits_nil]
  | case2 links here hnone =>
    rw [isFile_walk_nil, isFile_walk_nil, h.file hcourse.visits_nil]
  | case3 links here name rest hdirectory hname ih =>
    have hother := (h.itemAt?_eq_directory_iff hcourse).mpr hdirectory
    rw [walk, hdirectory, walk, hother]
    simp only [hname, if_true]
    exact ih (hcourse.stay hname)
  | case4 links here rest hdirectory hname ih =>
    have hother := (h.itemAt?_eq_directory_iff hcourse).mpr hdirectory
    rw [walk, hdirectory, walk, hother]
    simp only [hname, if_false, if_true]
    exact ih hcourse.up
  | case5 links here name rest hdirectory hname hup hlong =>
    have hother := (h.itemAt?_eq_directory_iff hcourse).mpr hdirectory
    rw [walk, hdirectory, walk, hother]
    simp only [hname, hup, hlong, if_false, if_true]
  | case6 links here name rest hdirectory hname hup hlong hnone =>
    rw [not_or] at hname
    exact h.isFile_walk_of_none hcourse hdirectory ⟨hname.1, hname.2, hup⟩ hlong
      (passage?_eq_none_iff.mpr (.inl hnone))
  | case7 links here name rest hdirectory hname hup hlong target htarget hlast => simp at hlast
  | case8 here name rest hdirectory hname hup hlong target htarget hlast =>
    have hother := (h.itemAt?_eq_directory_iff hcourse).mpr hdirectory
    have hlink := (h.itemAt?_child_eq_link_iff hcourse).mpr htarget
    rw [walk, hdirectory, walk, hother]
    simp [hname, hup, hlong, htarget, hlink]
  | case9 here name rest hdirectory hname hup hlong target htarget hlast links ih =>
    have hother := (h.itemAt?_eq_directory_iff hcourse).mpr hdirectory
    have hlink := (h.itemAt?_child_eq_link_iff hcourse).mpr htarget
    rw [walk, hdirectory, walk, hother]
    simp only [hname, hup, hlong, htarget, hlink, if_false, Bool.not_true, Bool.and_false,
      Bool.false_eq_true]
    rw [not_or] at hname
    exact ih (hcourse.follow ⟨hname.1, hname.2, hup⟩ htarget)
  | case10 links here name rest hdirectory hname hup hlong item hlink hitem ih =>
    obtain ⟨hempty, hdot⟩ := not_or.mp hname
    have hproper : name ≠ "" ∧ name ≠ "." ∧ name ≠ ".." := ⟨hempty, hdot, hup⟩
    cases item with
    | link target => exact absurd rfl (hlink target)
    | file content =>
      exact h.isFile_walk_of_none hcourse hdirectory hproper hlong
        (passage?_eq_none_iff.mpr (.inr ⟨content, hitem⟩))
    | directory =>
      have hother := (h.itemAt?_eq_directory_iff hcourse).mpr hdirectory
      have hthere := (h.itemAt?_child_eq_directory_iff hcourse).mpr hitem
      rw [walk, hdirectory, walk, hother]
      simp only [hname, hup, hlong, hitem, hthere, if_false]
      exact ih (hcourse.down hproper (by simp [hitem]))
  | case11 links here name rest item hdirectory hitem =>
    have hnot : tree.itemAt? here ≠ some .directory := fun heq => hdirectory (by simp_all)
    rw [isFile_walk_of_not_directory hnot,
      isFile_walk_of_not_directory (mt (h.itemAt?_eq_directory_iff hcourse).mp hnot)]
  | case12 links here name rest hnone =>
    have hnot : tree.itemAt? here ≠ some .directory := by simp [hnone]
    rw [isFile_walk_of_not_directory hnot,
      isFile_walk_of_not_directory (mt (h.itemAt?_eq_directory_iff hcourse).mp hnot)]

/-- Agreeing trees have files at the same paths below a base path. -/
theorem isFile_join (h : tree.AgreesOn other paths) {path more : String} (hpath : path ∈ paths)
    (hmore : Path.isAbsolute more = false) (hup : ".." ∉ Path.segments more) :
    tree.isFile (Path.join path more) = other.isFile (Path.join path more) := by
  obtain ⟨parts, ending, hending, hsegments, hjoin⟩ := Path.segments_join path hmore
  have hcourse : tree.IsOnCourse paths
      (if Path.isAbsolute path then [] else tree.workingDirectory)
      (Path.segments (Path.join path more)) :=
    ⟨parts, ending, Path.segments more, hjoin, hending, hsegments ▸ .start hpath, hup⟩
  have hwalk := h.isFile_walk maxLinks _ _ hcourse
  rw [isFile_eq, isFile_eq, lookup, lookup, ← h.workingDirectory, Path.isAbsolute_join hmore]
  simp only [apply_ite Lookup.isFile, hwalk]

end AgreesOn

/-- Storing a file outside of the footprint preserves it. -/
theorem agreesOn_put {place : Place} (hplace : place ≠ []) (hnone : tree.passage? place = none)
    (houtside : ¬tree.Visits paths place []) (content : ByteArray) :
    tree.AgreesOn (tree.put place (.file content)) paths := by
  have hput : (tree.put place (.file content)).itemAt? place = some (.file content) := by
    rw [itemAt?, if_neg (by simpa using hplace), getElem?_put, if_pos rfl]
  have hpassage : ∀ there, tree.passage? there =
      (tree.put place (.file content)).passage? there := by
    intro there
    obtain rfl | hne := eq_or_ne place there
    · rw [hnone, eq_comm, passage?_eq_none_iff]
      exact .inr ⟨content, hput⟩
    · rw [passage?, passage?, itemAt?_put_of_ne tree hne]
  refine ⟨rfl, fun _ => ⟨hpassage _, hpassage _⟩, fun {there} hthere => ?_⟩
  have hne : place ≠ there := by
    rintro rfl
    exact houtside hthere
  rw [hasFile, hasFile, itemAt?_put_of_ne tree hne]

end FileTree

end ClassAtlas
