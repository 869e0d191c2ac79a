import ClassAtlas.Proofs.FileTree.Territory
import ClassAtlas.Proofs.Origin.Resolver
import Mathlib

/-!
# Confinement of origin resolution

For names that begin with neither a dot nor a slash, the resolver depends only on its catalogue and
on the tree below its directories. Other names have an absolute class path, which replaces the
directory in a join, so that an arbitrary file of the tree decides. Specification: `SPEC_FULL.md`
§4.1, line 38 (3).
-/

namespace ClassAtlas

/-! ### Class paths -/

/-- Path with the significant parts of `base` followed by those of `more`. -/
structure Path.Extends (base more path : String) : Prop where
  isAbsolute : isAbsolute path = isAbsolute base
  components : components path = components base ++ components more

namespace ClassName

/-- A class path is absolute if and only if the name begins with a dot or a slash. -/
theorem isAbsolute_classPath_iff (name : String) :
    Path.isAbsolute (classPath name) ↔
      name.toList.head? = some '.' ∨ name.toList.head? = some '/' := by
  rw [Path.isAbsolute, classPath, String.toList_append, String.toList_map]
  cases name.toList with
  | nil => simp
  | cons c rest =>
    simp only [List.map_cons, List.cons_append, List.head?_cons, beq_iff_eq, Option.some.injEq]
    split <;> simp_all

/-- Parts of a class path hold no dot, except for the suffix of the last one. -/
theorem mem_segments_classPath {name part : String} (h : part ∈ Path.segments (classPath name)) :
    '.' ∉ part.toList ∨ ∃ stem, part = stem ++ ".class" := by
  have hclean : '.' ∉ (name.map fun c => if c = '.' then '/' else c).toList := by
    rw [String.toList_map, List.mem_map]
    rintro ⟨c, -, hc⟩
    split at hc <;> simp_all
  have hending : '/' ∉ ".class".toList := by decide
  obtain ⟨parts, last, hname, hpath⟩ := Path.exists_splitSlashes_append
    (name.map fun c => if c = '.' then '/' else c).toList hending
  rw [Path.segments, classPath, String.toList_append, hpath, List.map_append, List.mem_append] at h
  obtain h | h := h
  · obtain ⟨text, htext, rfl⟩ := List.mem_map.mp h
    refine .inl fun hdot => hclean ?_
    rw [String.toList_ofList] at hdot
    exact (Path.notMem_of_mem_splitSlashes (hname ▸ List.mem_append_left _ htext)).2 _ hdot
  · obtain rfl := List.mem_singleton.mp h
    exact .inr ⟨String.ofList last, by simp⟩

/-- No part of a class path is special. -/
theorem ne_dots_of_mem_segments {name part : String} (h : part ∈ Path.segments (classPath name)) :
    part ≠ "." ∧ part ≠ ".." := by
  obtain hdot | ⟨stem, rfl⟩ := mem_segments_classPath h
  · constructor <;> rintro rfl <;> exact hdot (by decide)
  · have hlong : 6 ≤ (stem ++ ".class").toList.length := by simp
    constructor <;> intro heq <;> rw [heq] at hlong <;> exact absurd hlong (by decide)

/-- The join of a class path extends the base. -/
theorem extends_join {name : String} (h : ¬Path.isAbsolute (classPath name)) (base : String) :
    Path.Extends base (classPath name) (Path.join base (classPath name)) := by
  have hrelative : Path.isAbsolute (classPath name) = false := Bool.eq_false_iff.mpr h
  obtain ⟨first, rest, hsegments, hfirst⟩ :=
    Path.exists_segments_cons (by simp [classPath]) hrelative
  have hdot : first ≠ "." :=
    (ne_dots_of_mem_segments (hsegments ▸ List.mem_cons_self)).1
  exact ⟨Path.isAbsolute_join hrelative, Path.components_join hrelative hsegments ⟨hfirst, hdot⟩⟩

end ClassName

/-! ### Footprint -/

namespace OriginResolver

/-- A class is an application class if and only if its class path is found and its name is not
reserved. -/
theorem resolve_eq_application_iff {resolver : OriginResolver} {tree : FileTree} {name : String} :
    resolver.resolve tree name = .application ↔ name ≠ rootObject ∧ isPlatform name = false ∧
      resolver.hasClassPath tree (ClassName.classPath name) = true := by
  rw [resolve]
  split_ifs <;> simp_all

/-- The catalogue of an archive holds the class paths of its entries. -/
theorem classPath_mem_classPaths_iff {archive : Archive} {name : String} :
    ClassName.classPath name ∈ classPaths archive ↔
      ClassName.classPath name ∈ archive.entries.map fun entry => entry.name := by
  have hending : Text.endsWith ".class" (ClassName.classPath name) = true := by
    simp [Text.endsWith, ClassName.classPath]
  rw [classPaths, List.mem_filter, and_iff_left hending]

/-- A class path is found if and only if it is catalogued or a file below a directory root. -/
theorem hasClassPath_classPath_iff (made tree : FileTree) (roots : List Root) (name : String) :
    (ofRoots made roots).1.hasClassPath tree (ClassName.classPath name) = true ↔
      (∃ path archive, Root.archive path ∈ roots ∧ Archive.openAt made path = .ok archive ∧
        ClassName.classPath name ∈ archive.entries.map fun entry => entry.name) ∨
      ∃ directory, Root.directory directory ∈ roots ∧
        tree.isFile (Path.join directory (ClassName.classPath name)) = true := by
  rw [hasClassPath, Bool.or_eq_true, contains_archived_ofRoots, List.any_eq_true]
  simp only [mem_directories_ofRoots, classPath_mem_classPaths_iff]

/-- Trees that agree on the footprint of the directories yield the same classification, for names
that begin with neither a dot nor a slash. -/
theorem resolve_of_agreesOn {resolver : OriginResolver} {tree other : FileTree}
    (h : tree.AgreesOn other resolver.directories) {name : String}
    (hname : Path.isAbsolute (ClassName.classPath name) = false) :
    resolver.resolve other name = resolver.resolve tree name := by
  have hup : ".." ∉ Path.segments (ClassName.classPath name) :=
    fun hmem => (ClassName.ne_dots_of_mem_segments hmem).2 rfl
  have hany : (resolver.directories.any fun directory =>
      other.isFile (Path.join directory (ClassName.classPath name))) =
      resolver.directories.any fun directory =>
        tree.isFile (Path.join directory (ClassName.classPath name)) := by
    rw [Bool.eq_iff_iff, List.any_eq_true, List.any_eq_true]
    exact exists_congr fun directory => and_congr_right fun hmem => by
      rw [h.isFile_join hmem hname hup]
  rw [resolve, resolve, hasClassPath, hasClassPath, hany]

/-- For a name that begins with neither a dot nor a slash, the answer `application` implies a
catalogued class path or a file at the join of a directory and the class path, and the answer is
invariant under changes of the tree outside of the footprint of the directories. For any other name,
the answer is independent of the directories as long as there is one. -/
theorem resolve_confined (made tree : FileTree) (roots : List Root) (name : String) :
    (name.toList.head? ≠ some '.' → name.toList.head? ≠ some '/' →
      ((ofRoots made roots).1.resolve tree name = .application →
        (∃ path archive, Root.archive path ∈ roots ∧ Archive.openAt made path = .ok archive ∧
          ClassName.classPath name ∈ archive.entries.map fun entry => entry.name) ∨
        ∃ directory path, Root.directory directory ∈ roots ∧
          Path.Extends directory (ClassName.classPath name) path ∧ tree.isFile path) ∧
      (∀ other, tree.AgreesOn other (ofRoots made roots).1.directories →
        (ofRoots made roots).1.resolve other name = (ofRoots made roots).1.resolve tree name) ∧
      ∀ place content, place ≠ [] → tree.passage? place = none →
        ¬tree.Visits (ofRoots made roots).1.directories place [] →
        (ofRoots made roots).1.resolve (tree.put place (.file content)) name =
          (ofRoots made roots).1.resolve tree name) ∧
    (name.toList.head? = some '.' ∨ name.toList.head? = some '/' →
      ((ofRoots made roots).1.resolve tree name = .application ↔
        (∃ path archive, Root.archive path ∈ roots ∧ Archive.openAt made path = .ok archive ∧
          ClassName.classPath name ∈ archive.entries.map fun entry => entry.name) ∨
        (∃ directory, Root.directory directory ∈ roots) ∧
          tree.isFile (ClassName.classPath name))) := by
  refine ⟨fun hdot hslash => ?_, fun hbegin => ?_⟩
  · have hrelative : Path.isAbsolute (ClassName.classPath name) = false := by
      rw [← Bool.not_eq_true, ClassName.isAbsolute_classPath_iff]
      exact not_or.mpr ⟨hdot, hslash⟩
    refine ⟨fun happlication => ?_, fun other hother => resolve_of_agreesOn hother hrelative,
      fun place content hplace hnone houtside =>
        resolve_of_agreesOn (FileTree.agreesOn_put hplace hnone houtside content) hrelative⟩
    have hfile := (resolve_eq_application_iff.mp happlication).2.2
    refine ((hasClassPath_classPath_iff made tree roots name).mp hfile).imp_right ?_
    rintro ⟨directory, hdirectory, hfile⟩
    exact ⟨directory, _, hdirectory, ClassName.extends_join (by simpa using hrelative) _, hfile⟩
  · have habsolute := (ClassName.isAbsolute_classPath_iff name).mpr hbegin
    have hjoin : ∀ directory, Path.join directory (ClassName.classPath name) =
        ClassName.classPath name := fun directory => by simp [Path.join, habsolute]
    -- All platform prefixes begin with a letter.
    have hname : name ≠ rootObject ∧ isPlatform name = false := by
      refine ⟨by rintro rfl; simp [rootObject] at hbegin, ?_⟩
      obtain h | h := hbegin <;> obtain ⟨rest, hrest⟩ := List.head?_eq_some_iff.mp h <;>
        simp [isPlatform, platformPrefixes, Text.startsWith, hrest, List.isPrefixOf]
    rw [resolve_eq_application_iff, hasClassPath_classPath_iff]
    simp only [hjoin, exists_and_right, hname, ne_eq, not_false_eq_true, true_and]

/-- Tree that consists of a single directory. -/
def directoryTree : FileTree := (FileTree.fresh []).put ["d"] .directory

private theorem itemAt?_directoryTree_ne_link (place : Place) (target : String) :
    directoryTree.itemAt? place ≠ some (.link target) := by
  rw [FileTree.itemAt?]
  split
  · simp
  · rw [directoryTree, FileTree.getElem?_put]
    split
    · simp
    · have hnone : (FileTree.fresh []).items[place]? = none := Std.ExtTreeMap.getElem?_empty
      simp [hnone]

/-- Footprint of the single directory. -/
private theorem visits_directoryTree {place : Place} {parts : List String}
    (h : directoryTree.Visits ["d"] place parts) :
    place = [] ∧ parts = ["d"] ∨ place.head? = some "d" ∧ ".." ∉ parts := by
  induction h with
  | start hpath =>
    obtain rfl := List.mem_singleton.mp hpath
    exact .inl ⟨rfl, by decide⟩
  | search hname _ ih =>
    obtain ⟨-, hparts⟩ | ⟨hplace, -⟩ := ih
    · cases hparts
    · exact .inr ⟨hplace, by simpa using hname.symm⟩
  | stay hname _ ih =>
    obtain ⟨-, hparts⟩ | ⟨hplace, hup⟩ := ih
    · obtain ⟨rfl, -⟩ := List.cons_eq_cons.mp hparts
      simp at hname
    · exact .inr ⟨hplace, fun hmem => hup (List.mem_cons_of_mem _ hmem)⟩
  | up _ ih =>
    obtain ⟨-, hparts⟩ | ⟨-, hup⟩ := ih
    · simp at hparts
    · exact absurd List.mem_cons_self hup
  | down hname _ _ ih =>
    obtain ⟨rfl, hparts⟩ | ⟨hplace, hup⟩ := ih
    · obtain ⟨rfl, rfl⟩ := List.cons_eq_cons.mp hparts
      exact .inr ⟨rfl, List.not_mem_nil⟩
    · exact .inr ⟨by simp [hplace], fun hmem => hup (List.mem_cons_of_mem _ hmem)⟩
  | follow _ hlink => exact absurd hlink (itemAt?_directoryTree_ne_link _ _)

private theorem resolve_directoryTree {tree : FileTree} (h : tree.passage? ["x.class"] = none) :
    (ofRoots directoryTree [.directory "d"]).1.resolve tree ".x" =
      if tree.hasFile ["x.class"] then .application else .unknown := by
  have hpath : ClassName.classPath ".x" = "/x.class" := by cbv
  have hjoin : Path.join "d" "/x.class" = "/x.class" := by decide
  have hsegments : Path.segments "/x.class" = ["", "x.class"] := by decide
  have hplatform : isPlatform ".x" = false := by decide
  have hmade : (ofRoots directoryTree [.directory "d"]).1 = ⟨["d"], ∅⟩ := rfl
  have hroot : tree.itemAt? [] = some .directory := rfl
  have hlookup : tree.lookup "/x.class" true =
      tree.walk true FileTree.maxLinks [] ["x.class"] := by
    rw [FileTree.lookup, if_neg (by decide), if_neg (by decide), if_neg (by decide),
      if_pos (by decide), hsegments, FileTree.walk, hroot]
    rfl
  have hfile : tree.isFile "/x.class" = tree.hasFile ["x.class"] := by
    rw [FileTree.isFile_eq, hlookup,
      FileTree.isFile_walk_of_passage_none hroot (by decide) (by decide) h]
    rfl
  simp [resolve, hasClassPath, hmade, hpath, hjoin, hplatform, hfile, rootObject]

/-- A file beside the directory root, and not below it, determines the classification of a name that
begins with a dot. -/
theorem resolve_not_confined :
    ∃ other, directoryTree.AgreesOn other ["d"] ∧
      (ofRoots directoryTree [.directory "d"]).1.resolve directoryTree ".x" = .unknown ∧
      (ofRoots directoryTree [.directory "d"]).1.resolve other ".x" = .application := by
  refine ⟨directoryTree.put ["x.class"] (.file .empty),
    FileTree.agreesOn_put (by simp) rfl ?_ _, ?_, ?_⟩
  · intro h
    obtain ⟨h, -⟩ | ⟨h, -⟩ := visits_directoryTree h <;> simp at h
  · rw [resolve_directoryTree rfl]
    rfl
  · rw [resolve_directoryTree rfl]
    rfl

end OriginResolver

end ClassAtlas
