import ClassAtlas.Proofs.ClassName
import ClassAtlas.Proofs.FileTree.Walk
import ClassAtlas.Proofs.Origin.Resolver
import ClassAtlas.Proofs.Scan.Interruption
import Mathlib

/-!
# Coherence of scan and resolver

Scan and resolver enumerate classes independently, the former by entries and files, the latter by
class paths. A class that is decoded at its own class path is found by both, so its node is never
classified as unknown. Specification: `SPEC_FULL.md` §4.1, line 38, §4.3, line 49, and §8, line 90.
-/

namespace ClassAtlas

/-! ### Enumerated class files -/

namespace Classpath

private theorem classFileAt?_eq {path relative : String} {content : ByteArray} {found : FoundFile}
    (h : classFileAt? path relative content = some (.classFile found)) :
    found = { path, relative
              content? := if FileTree.isPathUsable path then some content else none } := by
  unfold classFileAt? at h
  split at h
  · obtain ⟨⟩ := h
    rfl
  · cases h

private theorem encounterBelow?_eq {path : String} {names : List String} {item : FileItem}
    {found : FoundFile} (h : encounterBelow? path names item = some (.classFile found)) :
    ∃ content, item = .file content ∧
      found = { path := names.foldl Path.join path
                relative := String.intercalate "/" names
                content? :=
                  if FileTree.isPathUsable (names.foldl Path.join path) then some content
                  else none } := by
  simp only [encounterBelow?] at h
  split at h
  · cases h
  · cases item with
    | file content => exact ⟨content, rfl, classFileAt?_eq h⟩
    | directory =>
      simp only at h
      split at h <;> cases h
    | link target => cases h

/-- A readable class file of a directory walk is a regular file at its path. -/
theorem isFile_of_mem_search {tree : FileTree} (htree : tree.IsWellFormed) {path : String}
    {found : FoundFile} (hfound : .classFile found ∈ search tree path)
    (hrelative : found.relative ≠ "") (hcontent : found.content?.isSome) :
    tree.isFile (Path.join path found.relative) = true := by
  unfold search at hfound
  split at hfound
  · cases hfound
  · split at hfound
    · simp at hfound
    · next place hplace =>
      obtain ⟨⟨names, item⟩, hitem, hmet⟩ := List.mem_filterMap.mp hfound
      obtain ⟨hne, hthere⟩ := FileTree.mem_itemsBelow.mp hitem
      obtain ⟨content, rfl, rfl⟩ := encounterBelow?_eq hmet
      have hnames := htree.isFileName hthere
      have hpath : path ≠ "" := by
        rintro rfl
        simp [FileTree.find?, FileTree.lookup] at hplace
      have hjoin := Path.foldl_join hpath hne fun name hname =>
        ⟨(hnames name hname).ne_empty, (hnames name hname).slash_notMem⟩
      have husable : FileTree.isPathUsable (names.foldl Path.join path) = true := by
        by_contra hlong
        simp [hlong] at hcontent
      rw [hjoin] at husable
      rw [FileTree.isFile, htree.find?_join hplace hne hthere (by simp) husable]
    · next content hplace =>
      rw [Option.mem_toList] at hfound
      rw [classFileAt?_eq hfound] at hrelative
      exact absurd rfl hrelative
    · cases hfound

end Classpath

/-- A root holds a class in place if it decodes it from an entry or file at the class path of its
name. -/
inductive Root.HoldsInPlace (tree : FileTree) : Root → ClassFile → Prop
  | archived {path : String} {archive : Archive} {entry : Archive.Entry} {file : ClassFile} :
    Archive.openAt tree path = .ok archive → entry ∈ archive.entries →
    Scan.archivedClass? archive entry = some file → entry.name = file.name ++ ".class" →
    HoldsInPlace tree (.archive path) file
  | found {path : String} {found : Classpath.FoundFile} {file : ClassFile} :
    .classFile found ∈ Classpath.search tree path →
    Scan.encounteredClass? (.classFile found) = some file →
    found.relative = file.name ++ ".class" → HoldsInPlace tree (.directory path) file

variable {tree : FileTree} {root : Root} {file : ClassFile}

/-- A class held in place is one of the classes of its root. -/
theorem Root.HoldsInPlace.mem_rootClasses (h : root.HoldsInPlace tree file) :
    file ∈ Scan.rootClasses tree root := by
  cases h with
  | archived hopen hentry hclass =>
    rw [Scan.rootClasses, hopen]
    exact List.mem_filterMap.mpr ⟨_, hentry, hclass⟩
  | found hfound hclass => exact List.mem_filterMap.mpr ⟨_, hfound, hclass⟩

/-- A class held in place is found by its class path. -/
theorem Root.HoldsInPlace.hasClassPath (htree : tree.IsWellFormed)
    (h : root.HoldsInPlace tree file) : root.HasClassPath tree (file.name ++ ".class") := by
  have hending : file.name ++ ".class" ≠ "" := by simp
  cases h with
  | archived hopen hentry hclass hname =>
    refine ⟨_, hopen, List.mem_filter.mpr ⟨List.mem_map.mpr ⟨_, hentry, hname⟩, ?_⟩⟩
    simp [Text.endsWith]
  | found hfound hclass hrelative =>
    rw [← hrelative] at hending ⊢
    obtain ⟨content, hcontent, -⟩ := Option.bind_eq_some_iff.mp hclass
    exact Classpath.isFile_of_mem_search htree hfound hending (Option.isSome_of_eq_some hcontent)

/-- The resolver classifies a class held in place by a root. -/
theorem Root.HoldsInPlace.resolve_eq (htree : tree.IsWellFormed) (h : root.HoldsInPlace tree file)
    {roots : List Root} (hroot : root ∈ roots) (hdot : '.' ∉ file.name.toList) :
    (OriginResolver.ofRoots tree roots).1.resolve tree (ClassName.ofInternal file.name) =
      OriginResolver.onClasspath (ClassName.ofInternal file.name) := by
  apply OriginResolver.resolve_of_hasClassPath
  rw [ClassName.classPath_ofInternal hdot]
  exact (OriginResolver.hasClassPath_ofRoots tree _ roots).mpr ⟨root, hroot, h.hasClassPath htree⟩

/-! ### Nodes -/

namespace Scan

variable {α : Type} [Zero α] {originOf : String → Origin} {roots : List Root}

/-- Every scanned class has a node. -/
theorem Progress.IsScanOf.exists_node {progress : Progress α}
    (h : progress.IsScanOf tree originOf roots) (hfile : file ∈ classes tree roots) :
    ∃ node, progress.graph.find? file.externalName = some node ∧
      node.identity = file.externalName ∧ node.origin = originOf file.externalName := by
  obtain ⟨order, hperm, hgraph⟩ := h.performed
  have hrecords : Graph.Records originOf (Call.allNames order) (order.flatMap Call.shares)
      (Call.performAll originOf order : Graph α) := Graph.records_performAll order
  have hcall : Call.ensure file.externalName ∈ order :=
    hperm.mem_iff.mpr (List.mem_flatMap.mpr ⟨file, hfile, List.mem_cons_self⟩)
  have hname : file.externalName ∈ Call.allNames order :=
    List.mem_toFinset.mpr (List.mem_flatMap.mpr ⟨_, hcall, List.mem_singleton_self _⟩)
  obtain ⟨node, hnode⟩ := Option.isSome_iff_exists.mp ((hrecords.isSome_find? _).mpr hname)
  obtain ⟨hidentity, horigin, -⟩ := hrecords.node hnode
  exact ⟨node, hgraph ▸ hnode, hidentity, horigin⟩

/-- A class held in place by a root of the classpath is classified by its name and never as unknown,
at every time in every scan and whatever created its node. In a completed scan, and in one without
interleaving, it has a node. -/
theorem origin_of_holdsInPlace {tree : FileTree} (htree : tree.IsWellFormed) {roots : List Root}
    (config : ScanConfig) {root : Root} (hroot : root ∈ roots) {file : ClassFile}
    (hfile : root.HoldsInPlace tree file) (hdot : '.' ∉ file.name.toList) :
    (∀ events (run : Run α),
      Run.Steps tree ((OriginResolver.ofRoots tree roots).1.resolve tree) (Run.idle roots config)
        events run →
      (∀ node, run.progress.graph.find? (ClassName.ofInternal file.name) = some node →
        node.identity = ClassName.ofInternal file.name ∧
          node.origin = OriginResolver.onClasspath (ClassName.ofInternal file.name)) ∧
      (run.scheduler.state = .completed →
        (run.progress.graph.find? (ClassName.ofInternal file.name)).isSome)) ∧
    (∀ scheduler, (Run.idle roots config : Run α).scheduler.start = .ok scheduler →
      ∃ node, (scheduler.wait tree ((OriginResolver.ofRoots tree roots).1.resolve tree)
          { graph := (.empty : Graph α) }).2.graph.find? (ClassName.ofInternal file.name) =
            some node ∧
        node.identity = ClassName.ofInternal file.name ∧
          node.origin = OriginResolver.onClasspath (ClassName.ofInternal file.name)) ∧
    OriginResolver.onClasspath (ClassName.ofInternal file.name) ≠ .unknown := by
  have hresolve := hfile.resolve_eq htree hroot hdot
  have hclass : file ∈ classes tree roots :=
    List.mem_flatMap.mpr ⟨root, hroot, hfile.mem_rootClasses⟩
  refine ⟨fun events run hsteps => ⟨fun node hnode => ?_, fun hcompleted => ?_⟩,
    fun scheduler hstart => ?_, OriginResolver.onClasspath_ne_unknown _⟩
  · rw [← hresolve]
    exact (Run.isSound_of_steps hsteps).isWellFormed.node hnode
  · obtain ⟨node, hnode, -⟩ := (hsteps.isScanOf hcompleted).exists_node hclass
    exact Option.isSome_of_eq_some hnode
  · cases hstart
    rw [← hresolve]
    exact (absorbAll_isScanOf tree _ config.chunkSize roots).exists_node hclass

/-- A packaged class below the root directory is an application class. -/
theorem origin_of_holdsInPlace_packaged :
    ∃ (tree : FileTree) (scheduler : Scheduler) (node : Node Nat), tree.IsWellFormed ∧
      scheduler.roots = [.directory "/"] ∧
      (scheduler.wait tree ((OriginResolver.ofRoots tree [.directory "/"]).1.resolve tree)
        { graph := (.empty : Graph Nat) }).2.graph.find? "p.A" = some node ∧
      node.identity = "p.A" ∧ node.origin = .application := by
  let bytes : ByteArray := ⟨#[0xCA, 0xFE, 0xBA, 0xBE, 0, 0, 0, 0, 0, 5, 1, 0, 3, 0x70, 0x2F, 0x41,
    7, 0, 1, 1, 0, 1, 0x42, 7, 0, 3, 0, 0, 0, 2, 0, 4, 0, 0, 0, 0, 0, 0, 0, 0]⟩
  let file : ClassFile := ⟨"p/A", some "B", [], [], []⟩
  let tree := ((FileTree.fresh []).put ["p"] .directory).put ["p", "A.class"] (.file bytes)
  have hparse : ClassFile.parse bytes.data.toList = .ok file := by cbv
  have hitem : tree.items[([] : Place) ++ ["p", "A.class"]]? = some (.file bytes) := by
    rw [FileTree.getElem?_put, if_pos (by rfl)]
  have hdirectory : ((FileTree.fresh []).put ([] ++ ["p"]) .directory).IsWellFormed :=
    FileTree.isWellFormed_fresh.put rfl (by decide) Std.ExtTreeMap.getElem?_empty .directory
  have htree : tree.IsWellFormed := by
    have hput : (((FileTree.fresh []).put ["p"] .directory).put (["p"] ++ ["A.class"])
        (.file bytes)).IsWellFormed := by
      refine hdirectory.put ?_ (by decide) ?_ (.file bytes)
      · rw [FileTree.itemAt?, if_neg (by simp), FileTree.getElem?_put]
        exact if_pos rfl
      · rw [FileTree.itemAt?, if_neg (by simp), FileTree.getElem?_put, if_neg (by simp)]
        exact Std.ExtTreeMap.getElem?_empty
    exact hput
  have hencounter : .classFile ⟨"/p/A.class", "p/A.class", some bytes⟩ ∈
      Classpath.search tree "/" := by
    rw [Classpath.search, if_neg (by decide), FileTree.find?_root]
    exact List.mem_filterMap.mpr ⟨_, FileTree.mem_itemsBelow.mpr ⟨by simp, hitem⟩, rfl⟩
  have hfound : Root.HoldsInPlace tree (.directory "/") file := by
    refine .found hencounter ?_ rfl
    rw [encounteredClass?, Option.bind_some, classIn?, hparse]
    rfl
  obtain ⟨-, hwait, -⟩ := origin_of_holdsInPlace (α := Nat) htree ⟨1, 64⟩
    (List.mem_singleton_self _) hfound (by decide)
  obtain ⟨node, hnode, hidentity, horigin⟩ := hwait _ rfl
  have hname : ClassName.ofInternal file.name = "p.A" := by cbv
  rw [hname] at hnode hidentity horigin
  exact ⟨tree, _, node, htree, rfl, hnode, hidentity, horigin⟩

end Scan

end ClassAtlas
