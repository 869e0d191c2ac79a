import ClassAtlas.FileTree.Basic
import ClassAtlas.Proofs.FileTree.Path
import Mathlib

/-!
# Path resolution

Resolution of a concatenation continues behind the target of its first part. In a well-formed tree,
whose items are in directories under proper file names, the names below a directory resolve to the
item below it. Specification: `SPEC_FULL.md` §4.3, line 49, and §6, line 71.
-/

namespace ClassAtlas

/-! ### Well-formed trees -/

/-- Proper file name: no special part, no slash or zero character, within the length limit. -/
@[mk_iff]
structure FileTree.IsFileName (name : String) : Prop where
  ne_empty : name ≠ ""
  ne_dot : name ≠ "."
  ne_dots : name ≠ ".."
  slash_notMem : '/' ∉ name.toList
  zero_notMem : '\x00' ∉ name.toList
  size_le : name.utf8ByteSize ≤ maxNameBytes

namespace FileTree

/-- Proper file names are decidable. -/
instance (name : String) : Decidable (IsFileName name) :=
  decidable_of_iff _ (isFileName_iff name).symm

/-- Every item of the tree is in a directory, under a proper file name, and not at the root. -/
structure IsWellFormed (tree : FileTree) : Prop where
  root : tree.items[([] : Place)]? = none
  parent {place : Place} {name : String} {item : FileItem} :
    tree.items[place ++ [name]]? = some item → tree.itemAt? place = some .directory
  name {place : Place} {name : String} {item : FileItem} :
    tree.items[place ++ [name]]? = some item → IsFileName name

/-- The empty tree is well-formed. -/
theorem isWellFormed_fresh : (fresh []).IsWellFormed where
  root := Std.ExtTreeMap.getElem?_empty
  parent {place name item} h := by
    have hnone : (fresh []).items[place ++ [name]]? = none := Std.ExtTreeMap.getElem?_empty
    rw [hnone] at h
    cases h
  name {place name item} h := by
    have hnone : (fresh []).items[place ++ [name]]? = none := Std.ExtTreeMap.getElem?_empty
    rw [hnone] at h
    cases h

/-- Below the root, `itemAt?` is the lookup in the tree. -/
theorem itemAt?_concat (tree : FileTree) (place : Place) (name : String) :
    tree.itemAt? (place ++ [name]) = tree.items[place ++ [name]]? := by
  rw [itemAt?, if_neg (by simp)]

/-- `put` on lookups. -/
theorem getElem?_put (tree : FileTree) (place other : Place) (item : FileItem) :
    (tree.put place item).items[other]? =
      if place = other then some item else tree.items[other]? := by
  rw [put, Std.ExtTreeMap.getElem?_insert]
  simp only [Std.compare_eq_iff_eq]

/-- `put` leaves the items at other places unchanged. -/
theorem itemAt?_put_of_ne (tree : FileTree) {place other : Place} (hne : place ≠ other)
    (item : FileItem) : (tree.put place item).itemAt? other = tree.itemAt? other := by
  rw [itemAt?, itemAt?, getElem?_put, if_neg hne]

/-- Storing a file or a directory under a new name of a directory preserves well-formedness. -/
theorem IsWellFormed.put {tree : FileTree} (h : tree.IsWellFormed) {place : Place} {name : String}
    (hplace : tree.itemAt? place = some .directory) (hname : IsFileName name)
    (hnew : tree.itemAt? (place ++ [name]) = none) (item : FileItem) :
    (tree.put (place ++ [name]) item).IsWellFormed := by
  have hdirectory : ∀ other, tree.itemAt? other = some .directory →
      (tree.put (place ++ [name]) item).itemAt? other = some .directory := by
    intro other hother
    have hne : place ++ [name] ≠ other := by
      rintro rfl
      rw [hnew] at hother
      cases hother
    rw [itemAt?_put_of_ne tree hne, hother]
  constructor
  case root =>
    rw [getElem?_put, if_neg (by simp)]
    exact h.root
  case parent =>
    intro other own there hthere
    rw [getElem?_put] at hthere
    split at hthere
    · next heq =>
      obtain ⟨rfl, -⟩ := List.append_inj' heq rfl
      exact hdirectory place hplace
    · exact hdirectory other (h.parent hthere)
  case name =>
    intro other own there hthere
    rw [getElem?_put] at hthere
    split at hthere
    · next heq =>
      obtain ⟨-, hown⟩ := List.append_inj' heq rfl
      obtain rfl := List.singleton_injective hown
      exact hname
    · exact h.name hthere

/-- Replacing a regular file preserves well-formedness. -/
theorem IsWellFormed.replace {tree : FileTree} (h : tree.IsWellFormed) {place : Place}
    {old : FileItem} (hold : tree.itemAt? place = some old) (hne : old ≠ .directory)
    (item : FileItem) : (tree.put place item).IsWellFormed := by
  have hroot : place ≠ [] := by
    rintro rfl
    exact hne (Option.some_inj.mp hold).symm
  have hbefore : ∀ {other : Place} {there : FileItem},
      (tree.put place item).items[other]? = some there →
        ∃ before, tree.items[other]? = some before := by
    intro other there hthere
    rw [getElem?_put] at hthere
    split at hthere
    · next heq =>
      rw [itemAt?, if_neg (by simpa)] at hold
      exact ⟨old, heq ▸ hold⟩
    · exact ⟨there, hthere⟩
  constructor
  case root =>
    rw [getElem?_put, if_neg hroot]
    exact h.root
  case parent =>
    intro other own there hthere
    obtain ⟨before, hbefore⟩ := hbefore hthere
    have hparent := h.parent hbefore
    have hother : place ≠ other := by
      rintro rfl
      exact hne (Option.some_inj.mp (hold.symm.trans hparent))
    rw [itemAt?_put_of_ne tree hother, hparent]
  case name =>
    intro other own there hthere
    obtain ⟨before, hbefore⟩ := hbefore hthere
    exact h.name hbefore

/-! ### Concatenated paths -/

/-- Resolution of a prefix either reaches a state from which every continuation is resolved, or
fails for every continuation. -/
theorem walk_append_or (tree : FileTree) (links : Nat) (here : Place) (parts : List String) :
    (∃ left middle, ∀ more,
      tree.walk true links here (parts ++ more) = tree.walk true left middle more) ∨
    ∀ more place item, tree.walk true links here (parts ++ more) ≠ .found place item := by
  induction links, here, parts using walk.induct tree true with
  | case1 links here | case2 links here => exact .inl ⟨links, here, fun _ => rfl⟩
  | case3 links here name rest hdirectory hname ih =>
    have hstep (more : List String) : tree.walk true links here (name :: rest ++ more) =
        tree.walk true links here (rest ++ more) := by
      rw [List.cons_append, walk]
      simp only [hdirectory, hname, if_true]
    simpa only [hstep] using ih
  | case4 links here rest hdirectory hname ih =>
    have hstep (more : List String) : tree.walk true links here (".." :: rest ++ more) =
        tree.walk true links here.dropLast (rest ++ more) := by
      rw [List.cons_append, walk]
      simp only [hdirectory, hname, if_false, if_true]
    simpa only [hstep] using ih
  | case5 links here name rest hdirectory hname hup hlong =>
    refine .inr fun more place item => ?_
    rw [List.cons_append, walk]
    simp [hdirectory, hname, hup, hlong]
  | case6 links here name rest hdirectory hname hup hlong hnone =>
    refine .inr fun more place item => ?_
    rw [List.cons_append, walk]
    simp [hdirectory, hname, hup, hlong, hnone]
  | case7 links here name rest hdirectory hname hup hlong target htarget hlast => simp at hlast
  | case8 here name rest hdirectory hname hup hlong target htarget hlast =>
    refine .inr fun more place item => ?_
    rw [List.cons_append, walk]
    simp [hdirectory, hname, hup, hlong, htarget]
  | case9 here name rest hdirectory hname hup hlong target htarget hlast links ih =>
    have hstep (more : List String) : tree.walk true (links + 1) here (name :: rest ++ more) =
        tree.walk true links (if Path.isAbsolute target then [] else here)
          (Path.segments target ++ rest ++ more) := by
      rw [List.cons_append, walk, List.append_assoc]
      simp only [hdirectory, hname, hup, hlong, htarget, if_false, Bool.not_true, Bool.and_false,
        Bool.false_eq_true]
    simpa only [hstep, dite_eq_ite] using ih
  | case10 links here name rest hdirectory hname hup hlong item hlink hitem ih =>
    have hstep (more : List String) : tree.walk true links here (name :: rest ++ more) =
        tree.walk true links (here ++ [name]) (rest ++ more) := by
      rw [List.cons_append, walk]
      cases item with
      | link target => exact absurd rfl (hlink target)
      | file | directory => simp only [hdirectory, hname, hup, hlong, hitem, if_false]
    simpa only [hstep] using ih
  | case11 links here name rest item hdirectory hitem =>
    refine .inr fun more place item => ?_
    rw [List.cons_append, walk]
    cases item <;> simp_all
  | case12 links here name rest hnone =>
    refine .inr fun more place item => ?_
    rw [List.cons_append, walk]
    simp [hnone]

/-- Resolution continues behind a directory, with or without a trailing slash. -/
theorem walk_append (tree : FileTree) {ending : List String} (hending : ending = [] ∨ ending = [""])
    (more : List String) (links : Nat) (here : Place) (parts : List String) {place : Place}
    (h : tree.walk true links here (parts ++ ending) = .found place .directory) :
    ∃ left, tree.walk true links here (parts ++ more) = tree.walk true left place more := by
  obtain ⟨left, middle, hwalk⟩ | hnone := tree.walk_append_or links here parts
  · obtain rfl : place = middle := by
      rw [hwalk] at h
      obtain rfl | rfl := hending
      · rw [walk] at h
        cases hitem : tree.itemAt? middle <;> simp_all
      · rw [walk] at h
        cases hitem : tree.itemAt? middle with
        | none => simp [hitem] at h
        | some item => cases item <;> simp_all [walk]
    exact ⟨left, hwalk more⟩
  · exact absurd h (hnone ending place .directory)

/-- An empty part or a single dot at the end resolves to a directory only. -/
theorem eq_directory_of_walk_append (tree : FileTree) {last : String}
    (hlast : last = "" ∨ last = ".") {links : Nat} {here : Place} {parts : List String}
    {place : Place} {item : FileItem}
    (h : tree.walk true links here (parts ++ [last]) = .found place item) : item = .directory := by
  obtain ⟨left, middle, hwalk⟩ | hnone := tree.walk_append_or links here parts
  · rw [hwalk, walk] at h
    cases hmiddle : tree.itemAt? middle with
    | none => simp [hmiddle] at h
    | some there => cases there <;> simp_all [walk]
  · exact absurd h (hnone [last] place item)

/-! ### Names below a place -/

variable {tree : FileTree} {place : Place} {item : FileItem}

/-- The place above an item is a directory. -/
theorem IsWellFormed.isDirectory_above (h : tree.IsWellFormed) {names : List String}
    (hne : names ≠ []) (hitem : tree.items[place ++ names]? = some item) :
    tree.itemAt? place = some .directory := by
  induction names using List.reverseRecOn generalizing item with
  | nil => exact absurd rfl hne
  | append_singleton above name ih =>
    rw [← List.append_assoc] at hitem
    have hplace := h.parent hitem
    obtain rfl | hne := eq_or_ne above []
    · rwa [List.append_nil] at hplace
    · rw [itemAt?, if_neg (by simp [hne])] at hplace
      exact ih hne hplace

/-- The names of an item are proper file names. -/
theorem IsWellFormed.isFileName (h : tree.IsWellFormed) {names : List String}
    (hitem : tree.items[place ++ names]? = some item) : ∀ name ∈ names, IsFileName name := by
  induction names using List.reverseRecOn generalizing item with
  | nil => simp
  | append_singleton above last ih =>
    rw [← List.append_assoc] at hitem
    intro name hname
    obtain hname | hname := List.mem_append.mp hname
    · obtain rfl | hne := eq_or_ne above []
      · simp at hname
      · have habove := h.parent hitem
        rw [itemAt?, if_neg (by simp [hne])] at habove
        exact ih habove name hname
    · obtain rfl := List.mem_singleton.mp hname
      exact h.name hitem

/-- The names of a file or directory below a directory resolve to it. -/
theorem IsWellFormed.walk_names (h : tree.IsWellFormed) (follow : Bool) (links : Nat)
    {names : List String} (hne : names ≠ []) (hitem : tree.items[place ++ names]? = some item)
    (hlink : ∀ target, item ≠ .link target) :
    tree.walk follow links place names = .found (place ++ names) item := by
  have hnames := h.isFileName hitem
  have hplace := h.isDirectory_above hne hitem
  induction names generalizing place with
  | nil => exact absurd rfl hne
  | cons name rest ih =>
    have hname := hnames name (by simp)
    have hshort : ¬maxNameBytes < name.utf8ByteSize := Nat.not_lt.mpr hname.size_le
    rw [List.append_cons] at hitem ⊢
    rw [walk, hplace]
    simp only [hname.ne_empty, hname.ne_dot, hname.ne_dots, hshort, or_self, if_false]
    obtain rfl | hrest := eq_or_ne rest []
    · rw [List.append_nil] at hitem ⊢
      have hthere := (itemAt?_concat tree place name).trans hitem
      cases item with
      | link target => exact absurd rfl (hlink target)
      | file content => simp [hthere, walk]
      | directory => simp [hthere, walk]
    · have hthere := h.isDirectory_above hrest hitem
      rw [hthere]
      exact ih hrest hitem (fun name hname => hnames name (List.mem_cons_of_mem _ hname)) hthere

/-- `itemsBelow` lists the items at proper extensions of the place. -/
theorem mem_itemsBelow {names : List String} :
    (names, item) ∈ tree.itemsBelow place ↔
      names ≠ [] ∧ tree.items[place ++ names]? = some item := by
  rw [itemsBelow, List.mem_filterMap]
  constructor
  · rintro ⟨⟨own, there⟩, hthere, hbelow⟩
    rw [Std.ExtTreeMap.mem_toList_iff_getElem?_eq_some] at hthere
    simp only [Option.ite_none_right_eq_some, Option.some.injEq, Prod.mk.injEq, Bool.and_eq_true,
      List.isPrefixOf_iff_prefix, decide_eq_true_eq] at hbelow
    obtain ⟨⟨⟨rest, rfl⟩, hlonger⟩, hnames, rfl⟩ := hbelow
    rw [List.drop_left] at hnames
    subst hnames
    refine ⟨?_, hthere⟩
    rintro rfl
    simp at hlonger
  · rintro ⟨hne, hitem⟩
    refine ⟨(place ++ names, item), Std.ExtTreeMap.mem_toList_iff_getElem?_eq_some.mpr hitem, ?_⟩
    have hlonger : 0 < names.length := List.length_pos_iff.mpr hne
    simp [hlonger]

/-! ### Paths behind a directory -/

/-- A single slash resolves to the root. -/
theorem find?_root (tree : FileTree) : tree.find? "/" = some ([], .directory) := by
  have hparts : Path.segments "/" = ["", ""] := by decide
  have habsolute : Path.isAbsolute "/" = true := by decide
  have husable : isPathUsable "/" = true := by decide
  have hlookup : tree.lookup "/" true = .found [] .directory := by
    simp [lookup, hparts, habsolute, husable, walk, itemAt?]
  rw [find?, hlookup]

/-- `find?` returns the target of a usable path. -/
theorem find?_eq_some_iff {path : String} :
    tree.find? path = some (place, item) ↔
      path ≠ "" ∧ '\x00' ∉ path.toList ∧ isPathUsable path = true ∧
        tree.walk true maxLinks (if Path.isAbsolute path then [] else tree.workingDirectory)
          (Path.segments path) = .found place item := by
  have hfound : tree.find? path = some (place, item) ↔
      tree.lookup path true = .found place item := by
    rw [find?]
    cases tree.lookup path true <;> simp
  rw [hfound, lookup]
  by_cases hempty : path = ""
  · simp [hempty]
  by_cases hzero : '\x00' ∈ path.toList
  · simp [hempty, hzero]
  · simp only [String.isEmpty_iff, hempty, List.contains_eq_mem, hzero]
    cases isPathUsable path <;> simp [hempty]

/-- A path to a regular file ends in a name: with a trailing slash or dot it resolves to a directory
or not at all. -/
theorem fileName_ne_of_isFile {path : String} (h : tree.isFile path = true) :
    Path.fileName path ≠ "" ∧ Path.fileName path ≠ "." := by
  rw [isFile] at h
  split at h
  · next place content hfind =>
    obtain ⟨-, -, -, hwalk⟩ := find?_eq_some_iff.mp hfind
    have hparts : Path.segments path ≠ [] := by
      simp [Path.segments, Path.splitSlashes_ne_nil]
    obtain ⟨front, last, hsegments⟩ :=
      (List.eq_nil_or_concat' (Path.segments path)).resolve_left hparts
    have hname : Path.fileName path = last := by simp [Path.fileName, hsegments]
    rw [hsegments] at hwalk
    rw [hname, ← not_or]
    intro hlast
    cases tree.eq_directory_of_walk_append hlast hwalk
  · cases h

/-- Resolution of a usable join continues behind the directory at its base. -/
theorem lookup_join {path more : String} (hplace : tree.find? path = some (place, .directory))
    (hmore : Path.isAbsolute more = false) (hzero : '\x00' ∉ more.toList)
    (husable : isPathUsable (Path.join path more) = true) :
    ∃ left, tree.lookup (Path.join path more) true =
      tree.walk true left place (Path.segments more) := by
  obtain ⟨hbase, hclean, -, hwalk⟩ := find?_eq_some_iff.mp hplace
  obtain ⟨parts, ending, hending, hpath, hjoin⟩ := Path.segments_join path hmore
  rw [hpath] at hwalk
  obtain ⟨left, hleft⟩ := walk_append tree hending (Path.segments more) _ _ parts hwalk
  refine ⟨left, ?_⟩
  have hjoined : Path.join path more ≠ "" := by
    rw [Path.join_eq hbase hmore]
    split <;> simp [hbase]
  have hzeroes : '\x00' ∉ (Path.join path more).toList := by
    intro hmem
    obtain hmem | hmem | hmem := Path.mem_join hmem
    · exact hclean hmem
    · exact hzero hmem
    · exact absurd hmem (by decide)
  rw [lookup, if_neg (by simpa using hjoined), if_neg (by simpa using hzeroes),
    if_neg (by simp [husable]), Path.isAbsolute_join hmore, hjoin, hleft]

/-- A file below a directory is found at the join of its names. -/
theorem IsWellFormed.find?_join (h : tree.IsWellFormed) {path : String} {names : List String}
    (hplace : tree.find? path = some (place, .directory)) (hne : names ≠ [])
    (hitem : tree.items[place ++ names]? = some item) (hlink : ∀ target, item ≠ .link target)
    (husable : isPathUsable (Path.join path (String.intercalate "/" names)) = true) :
    tree.find? (Path.join path (String.intercalate "/" names)) = some (place ++ names, item) := by
  have hnames := h.isFileName hitem
  have hrelative : Path.isAbsolute (String.intercalate "/" names) = false :=
    Path.isAbsolute_intercalate fun name hname =>
      ⟨(hnames name hname).ne_empty, (hnames name hname).slash_notMem⟩
  have hzero : '\x00' ∉ (String.intercalate "/" names).toList := by
    intro hmem
    obtain ⟨name, hname, hzero⟩ | hslash := Path.mem_intercalate hmem
    · exact (hnames name hname).zero_notMem hzero
    · exact absurd hslash (by decide)
  obtain ⟨left, hleft⟩ := lookup_join hplace hrelative hzero husable
  rw [find?, hleft,
    Path.segments_intercalate hne fun name hname => (hnames name hname).slash_notMem,
    h.walk_names true left hne hitem hlink]

end FileTree

end ClassAtlas
