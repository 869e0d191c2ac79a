import ClassAtlas.Proofs.FileTree.Walk
import Mathlib

/-!
# Trees built by operations

Creating directories, files and links, and overwriting files, preserve the invariant of realizable
trees, so that every tree built by these operations satisfies it. Specification: `SPEC_FULL.md`
§4.3, line 49.
-/

namespace ClassAtlas

/-- The item is realizable: the target of a link holds no zero character. -/
def FileItem.IsPlain : FileItem → Prop
  | .link target => '\x00' ∉ target.toList
  | .file _ | .directory => True

namespace FileTree

/-- Realizable tree: well-formed, with realizable items. -/
structure IsFormable (tree : FileTree) : Prop extends IsWellFormed tree where
  plain {place : Place} {item : FileItem} : tree.items[place]? = some item → item.IsPlain

variable {tree made : FileTree} {place : Place} {name : String} {item : FileItem}

/-! ### Path resolution in realizable trees -/

/-- The result of path resolution is consistent with the tree. -/
def Bears (tree : FileTree) : Lookup → Prop
  | .found place item => tree.itemAt? place = some item
  | .absent directory name _ => tree.itemAt? directory = some .directory ∧
      tree.itemAt? (directory ++ [name]) = none ∧ IsFileName name
  | .refused _ => True

/-- Every walk is consistent with a realizable tree. -/
theorem IsFormable.bears_walk (h : tree.IsFormable) (follow : Bool) (links : Nat) (here : Place)
    (parts : List String)
    (hparts : ∀ part ∈ parts, '/' ∉ part.toList ∧ '\x00' ∉ part.toList) :
    tree.Bears (tree.walk follow links here parts) := by
  fun_induction walk tree follow links here parts with
  | case1 links here item hitem => exact hitem
  | case3 links here name rest hdirectory hname ih =>
    exact ih fun part hpart => hparts part (List.mem_cons_of_mem _ hpart)
  | case4 links here rest hdirectory hname ih =>
    exact ih fun part hpart => hparts part (List.mem_cons_of_mem _ hpart)
  | case6 links here name rest hdirectory hname hup hlong hnone =>
    obtain ⟨hslash, hzero⟩ := hparts name List.mem_cons_self
    obtain ⟨hempty, hdot⟩ := not_or.mp hname
    exact ⟨hdirectory, hnone, hempty, hdot, hup, hslash, hzero, Nat.not_lt.mp hlong⟩
  | case7 links here name rest hdirectory hname hup hlong target htarget hlast => exact htarget
  | case9 here name rest hdirectory hname hup hlong target htarget hlast links ih =>
    -- The walk continues with the target of the link, followed by the remaining components.
    refine ih fun part hpart => ?_
    obtain hlink | hrest := List.mem_append.mp hpart
    · obtain ⟨hslash, hmem⟩ := Path.notMem_of_mem_segments hlink
      rw [itemAt?_concat] at htarget
      exact ⟨hslash, fun hzero => h.plain htarget (hmem _ hzero)⟩
    · exact hparts part (List.mem_cons_of_mem _ hrest)
  | case10 links here name rest hdirectory hname hup hlong item hlink hitem ih =>
    exact ih fun part hpart => hparts part (List.mem_cons_of_mem _ hpart)
  | _ => trivial

/-- Path resolution is consistent with a realizable tree. -/
theorem IsFormable.bears_lookup (h : tree.IsFormable) (path : String) (follow : Bool) :
    tree.Bears (tree.lookup path follow) := by
  unfold lookup
  split
  · trivial
  · split
    · trivial
    · next hzero =>
      split
      · trivial
      · refine h.bears_walk follow _ _ _ fun part hpart => ?_
        obtain ⟨hslash, hmem⟩ := Path.notMem_of_mem_segments hpart
        exact ⟨hslash, fun hpart => hzero (List.contains_iff_mem.mpr (hmem _ hpart))⟩

/-! ### Preservation -/

private theorem IsFormable.plain_put (h : tree.IsFormable) (hitem : item.IsPlain) {other : Place}
    {there : FileItem} (hthere : (tree.put place item).items[other]? = some there) :
    there.IsPlain := by
  rw [getElem?_put] at hthere
  split at hthere
  · exact Option.some_inj.mp hthere ▸ hitem
  · exact h.plain hthere

/-- Storing an item at an absent name preserves realizability. -/
theorem IsFormable.put_absent (h : tree.IsFormable) {path : String} {follow : Bool}
    {directory : Place} {behind : List String}
    (hlookup : tree.lookup path follow = .absent directory name behind) (hitem : item.IsPlain) :
    (tree.put (directory ++ [name]) item).IsFormable := by
  have hbears := h.bears_lookup path follow
  rw [hlookup] at hbears
  obtain ⟨hdirectory, hnew, hname⟩ := hbears
  exact ⟨h.toIsWellFormed.put hdirectory hname hnew item, h.plain_put hitem⟩

/-- Replacing a regular file preserves realizability. -/
theorem IsFormable.put_found (h : tree.IsFormable) {path : String} {follow : Bool}
    {old : FileItem} (hlookup : tree.lookup path follow = .found place old)
    (hne : old ≠ .directory) (hitem : item.IsPlain) : (tree.put place item).IsFormable := by
  have hold := h.bears_lookup path follow
  rw [hlookup] at hold
  exact ⟨h.toIsWellFormed.replace hold hne item, h.plain_put hitem⟩

/-- Creating a directory preserves realizability. -/
theorem IsFormable.makeDirectory (h : tree.IsFormable) {path : String}
    (hmade : tree.makeDirectory path = .ok made) : made.IsFormable := by
  unfold FileTree.makeDirectory at hmade
  split at hmade
  · cases hmade
  · next directory name behind hlookup =>
    split at hmade
    · obtain ⟨⟩ := hmade
      exact h.put_absent hlookup trivial
    · cases hmade
  · cases hmade

/-- Creating a directory with its ancestors preserves realizability. -/
theorem IsFormable.makeDirectoryWithin (h : tree.IsFormable) {paths : List String}
    (hmade : tree.makeDirectoryWithin paths = .ok made) : made.IsFormable := by
  induction paths generalizing made with
  | nil =>
    obtain ⟨⟩ := hmade
    exact h
  | cons path outer ih =>
    rw [FileTree.makeDirectoryWithin] at hmade
    split at hmade
    · next hmissing =>
      cases hwithin : tree.makeDirectoryWithin outer with
      | error error =>
        rw [hwithin] at hmade
        cases hmade
      | ok within =>
        rw [hwithin] at hmade
        have hlast : (if within.isDirectory path then Except.ok within
          else within.makeDirectory path) = .ok made := hmade
        split at hlast
        · obtain ⟨⟩ := hlast
          exact ih hwithin
        · exact (ih hwithin).makeDirectory hlast
    · next other hother =>
      obtain ⟨⟩ := hmade
      exact h.makeDirectory hother
    · split at hmade
      · obtain ⟨⟩ := hmade
        exact h
      · cases hmade

/-- Writing a file preserves realizability. -/
theorem IsFormable.write (h : tree.IsFormable) {path : String} {content : ByteArray}
    (hmade : tree.write path content = .ok made) : made.IsFormable := by
  unfold FileTree.write at hmade
  split at hmade
  · cases hmade
  · next place old hnot hlookup =>
    obtain ⟨⟩ := hmade
    refine h.put_found hlookup ?_ trivial
    rintro rfl
    exact hnot rfl
  · next directory name hlookup =>
    obtain ⟨⟩ := hmade
    exact h.put_absent hlookup trivial
  · cases hmade
  · cases hmade

/-- Creating a link preserves realizability, provided that its target holds no zero character. -/
theorem IsFormable.makeLink (h : tree.IsFormable) {path target : String}
    (htarget : '\x00' ∉ target.toList) (hmade : tree.makeLink path target = .ok made) :
    made.IsFormable := by
  unfold FileTree.makeLink at hmade
  split at hmade
  · cases hmade
  · next directory name hlookup =>
    obtain ⟨⟩ := hmade
    exact h.put_absent hlookup htarget
  · cases hmade
  · cases hmade

/-! ### Built trees -/

/-- Items of the initial tree. -/
theorem getElem?_fresh (workingDirectory place : Place) :
    (fresh workingDirectory).items[place]? =
      if place ≠ [] ∧ place <+: workingDirectory then some .directory else none := by
  have hfold : ∀ count, ((List.range count).foldl
      (fun items index => items.insert (workingDirectory.take (index + 1)) .directory)
      (∅ : Std.ExtTreeMap Place FileItem))[place]? =
        if ∃ index < count, workingDirectory.take (index + 1) = place
        then some FileItem.directory else none := by
    intro count
    induction count with
    | zero => simp
    | succ count ih =>
      rw [List.range_succ, List.foldl_append, List.foldl_cons, List.foldl_nil,
        Std.ExtTreeMap.getElem?_insert, ih]
      simp only [Std.compare_eq_iff_eq, Nat.lt_succ_iff_lt_or_eq, or_and_right, exists_or,
        exists_eq_left]
      split <;> simp_all
  have habove : (∃ index < workingDirectory.length, workingDirectory.take (index + 1) = place) ↔
      place ≠ [] ∧ place <+: workingDirectory := by
    constructor
    · rintro ⟨index, hindex, rfl⟩
      refine ⟨fun hnil => ?_, List.take_prefix _ _⟩
      have hlength := congrArg List.length hnil
      rw [List.length_take, List.length_nil] at hlength
      omega
    · rintro ⟨hne, hprefix⟩
      have hpos := List.length_pos_iff.mpr hne
      have hle := hprefix.length_le
      refine ⟨place.length - 1, by omega, ?_⟩
      rw [Nat.sub_add_cancel hpos]
      exact (List.prefix_iff_eq_take.mp hprefix).symm
  rw [fresh, hfold]
  exact if_congr habove rfl rfl

/-- The initial tree is realizable if the names of its working directory are file names. -/
theorem isFormable_fresh {workingDirectory : Place}
    (h : ∀ name ∈ workingDirectory, IsFileName name) : (fresh workingDirectory).IsFormable where
  root := by rw [getElem?_fresh, if_neg (by simp)]
  parent {place name item} hitem := by
    rw [getElem?_fresh] at hitem
    split at hitem
    · next hthere =>
      rw [itemAt?]
      split
      · rfl
      · next hplace =>
        rw [getElem?_fresh, if_pos]
        exact ⟨by simpa using hplace, (List.prefix_append _ _).trans hthere.2⟩
    · cases hitem
  name {place name item} hitem := by
    rw [getElem?_fresh] at hitem
    split at hitem
    · next hthere => exact h name (hthere.2.subset (by simp))
    · cases hitem
  plain {place item} hitem := by
    rw [getElem?_fresh] at hitem
    split at hitem
    · obtain ⟨⟩ := hitem
      trivial
    · cases hitem

/-- Trees built from an initial one by creating directories, files and links. -/
inductive Made : FileTree → Prop
  | fresh {workingDirectory : Place} :
    (∀ name ∈ workingDirectory, IsFileName name) → Made (fresh workingDirectory)
  | makeDirectories {tree made : FileTree} {path : String} :
    Made tree → tree.makeDirectories path = .ok made → Made made
  | save {tree made : FileTree} {path : String} {content : ByteArray} :
    Made tree → tree.save path content = .ok made → Made made
  | makeLink {tree made : FileTree} {path target : String} :
    Made tree → '\x00' ∉ target.toList → tree.makeLink path target = .ok made → Made made

/-- Every built tree is realizable. -/
theorem isFormable_of_made (h : Made tree) : tree.IsFormable := by
  induction h with
  | fresh hnames => exact isFormable_fresh hnames
  | makeDirectories _ hmade ih => exact ih.makeDirectoryWithin hmade
  | @save tree made path content _ hmade ih =>
    cases hparents : tree.makeParents path with
    | error error =>
      rw [FileTree.save, hparents] at hmade
      cases hmade
    | ok parents =>
      rw [FileTree.save, hparents] at hmade
      exact (ih.makeDirectoryWithin hparents).write hmade
  | makeLink _ htarget hmade ih => exact ih.makeLink htarget hmade

end FileTree

end ClassAtlas
