import ClassAtlas.Proofs.ClassName
import ClassAtlas.Proofs.FileTree.Walk
import ClassAtlas.Proofs.Scan.Warnings
import Mathlib

/-!
# Selection of class entries

A scan decodes exactly the readable items of a root whose name is that of a class entry, and each of
them yields a class or a warning. The test for `package-info` and `module-info` is a suffix test on
the whole name, so it also excludes other classes with that suffix. Specification: `SPEC_FULL.md`
§10.6, lines 171–176.
-/

namespace ClassAtlas

/-- The warning reports a class file that cannot be decoded. -/
def Warning.isUndecodable : Warning → Bool
  | .unreadableEntry (.undecodable ..) => true
  | _ => false

namespace Scan

/-! ### Readable items -/

/-- Readable item of a root: the name that is tested, the name in reports, and the content. -/
structure Item where
  name : String
  entry : String
  content : ByteArray

/-- Item of an archive entry, absent if the entry cannot be opened or read. -/
def archivedItem? (archive : Archive) (entry : Archive.Entry) : Option Item :=
  match archive.openEntry entry with
  | .ok opened => opened.content?.map fun content => ⟨opened.name, opened.name, content⟩
  | .error _ => none

/-- Item of a regular file below a directory, absent if the path of the file or of its directory is
not usable. -/
def fileItem? (path : String) (names : List String) : FileItem → Option Item
  | .file content =>
    if FileTree.isPathUsable (names.dropLast.foldl Path.join path) ∧
        FileTree.isPathUsable (names.foldl Path.join path) then
      some ⟨names.foldl Path.join path, String.intercalate "/" names, content⟩
    else none
  | _ => none

/-- Readable items of a root, regardless of their names. -/
def rootItems (tree : FileTree) : Root → List Item
  | .archive path =>
    match Archive.openAt tree path with
    | .ok archive => archive.entries.filterMap (archivedItem? archive)
    | .error _ => []
  | .directory path =>
    match tree.find? path with
    | some (place, .directory) =>
      (tree.itemsBelow place).filterMap fun below => fileItem? path below.1 below.2
    | some (_, .file content) => [⟨path, "", content⟩]
    | _ => []

/-- The root is the directory `-`, which the walk takes for the standard input. -/
def isDashRoot : Root → Bool
  | .archive _ => false
  | .directory path => Classpath.isDash path

/-- Items of a root that are decoded. -/
def rootSelection (tree : FileTree) (root : Root) : List Item :=
  if isDashRoot root then []
  else (rootItems tree root).filter fun item => ClassName.isClassEntry item.name

/-- Results of decoding the selected items of a classpath. -/
def decodings (tree : FileTree) (roots : List Root) : List Finding :=
  roots.flatMap fun root =>
    (rootSelection tree root).map fun item => decode root.path item.entry item.content

/-! ### Decoded items -/

/-- The finding results from decoding. -/
def Finding.isDecoding : Finding → Bool
  | .decoded _ => true
  | .entryFailed (.undecodable ..) => true
  | _ => false

/-- Decoding results in a decoding. -/
theorem isDecoding_decode (root entry : String) (content : ByteArray) :
    (decode root entry content).isDecoding = true := by
  unfold decode
  split <;> rfl

/-- The name of a class entry is not that of a directory. -/
theorem isWanted_eq (opened : Archive.OpenEntry) :
    isWanted opened = ClassName.isClassEntry opened.name := by
  cases hclass : ClassName.isClassEntry opened.name with
  | false => rw [isWanted, hclass, Bool.and_false]
  | true =>
    obtain ⟨hending, -⟩ := (ClassName.isClassEntry_iff _).mp hclass
    obtain ⟨stem, htext⟩ := List.isSuffixOf_iff_suffix.mp hending
    rw [isWanted, hclass, Archive.OpenEntry.isDirectory, ← htext]
    simp

/-- An archive entry is decoded exactly if it is readable and selected. -/
theorem filter_isDecoding_readEntry (root : String) (archive : Archive) {index : Nat}
    {entry : Archive.Entry} (h : archive.entries[index]? = some entry) :
    [readEntry root archive index].filter Finding.isDecoding =
      ((archivedItem? archive entry).toList.filter fun item =>
        ClassName.isClassEntry item.name).map fun item => decode root item.entry item.content := by
  simp only [readEntry, archivedItem?, h]
  cases archive.openEntry entry with
  | error failure => cases failure <;> rfl
  | ok opened =>
    simp only [readOpened_eq, isWanted_eq]
    cases hclass : ClassName.isClassEntry opened.name with
    | false => cases opened.content? <;> simp [hclass, Finding.isDecoding]
    | true =>
      cases opened.content? with
      | none => rfl
      | some content => simp [hclass, isDecoding_decode]

/-- An item of a walk is decoded exactly if it is readable and selected. -/
theorem filter_isDecoding_encounter (root path : String) (names : List String) (item : FileItem) :
    ((Classpath.encounterBelow? path names item).toList.map (encounterFinding root)).filter
        Finding.isDecoding =
      ((fileItem? path names item).toList.filter fun item =>
        ClassName.isClassEntry item.name).map fun item => decode root item.entry item.content := by
  cases item with
  | link target =>
    rw [Classpath.encounterBelow?]
    split <;> rfl
  | directory =>
    rw [Classpath.encounterBelow?]
    split
    · rfl
    · split <;> rfl
  | file content =>
    simp only [Classpath.encounterBelow?, Classpath.classFileAt?, fileItem?]
    cases FileTree.isPathUsable (names.dropLast.foldl Path.join path) with
    | false => simp
    | true =>
      cases hclass : ClassName.isClassEntry (names.foldl Path.join path) with
      | false => split <;> simp [hclass]
      | true =>
        cases FileTree.isPathUsable (names.foldl Path.join path) with
        | false => simp [encounterFinding, readFound, Finding.isDecoding]
        | true => simp [encounterFinding, readFound, hclass, isDecoding_decode]

/-- The decodings among the findings of a root are those of its selected items. -/
theorem filter_isDecoding_rootFindings (tree : FileTree) (root : Root) :
    (rootFindings tree root).filter Finding.isDecoding =
      (rootSelection tree root).map fun item => decode root.path item.entry item.content := by
  -- Both sides are concatenations over the entries or files, so they are compared item by item.
  have hitems {β : Type} (items : List β) (item? : β → Option Item) :
      ((items.filterMap item?).filter fun item => ClassName.isClassEntry item.name).map
          (fun item => decode root.path item.entry item.content) =
        items.flatMap fun one => ((item? one).toList.filter fun item =>
          ClassName.isClassEntry item.name).map fun item =>
            decode root.path item.entry item.content := by
    rw [List.filterMap_eq_flatMap_toList, List.filter_flatMap, List.map_flatMap]
  cases root with
  | archive path =>
    rw [rootSelection, if_neg (by simp [isDashRoot]), rootFindings, rootItems]
    cases Archive.openAt tree path with
    | error cause => rfl
    | ok archive =>
      simp only [hitems]
      rw [← List.flatMap_singleton' ((List.range _).map _), List.filter_flatMap, List.flatMap_def,
        map_readEntry path archive fun _ _ h => filter_isDecoding_readEntry path archive h,
        ← List.flatMap_def]
      rfl
  | directory path =>
    rw [rootSelection, rootFindings, rootItems, Classpath.search, isDashRoot]
    split
    · rfl
    · cases hplace : tree.find? path with
      | none => rfl
      | some found =>
        obtain ⟨place, item⟩ := found
        cases item with
        | file content =>
          have husable := (FileTree.find?_eq_some_iff.mp hplace).2.2.1
          cases hclass : ClassName.isClassEntry path with
          | false => simp [Classpath.classFileAt?, hclass]
          | true =>
            simp [Classpath.classFileAt?, hclass, husable, encounterFinding, readFound,
              isDecoding_decode, Root.path]
        | directory =>
          simp only [hitems]
          rw [List.filterMap_eq_flatMap_toList, List.map_flatMap, List.filter_flatMap]
          exact List.flatMap_congr fun below _ => filter_isDecoding_encounter path path _ _
        | link target => rfl

/-- A decoding yields a class or a warning. -/
theorem Finding.cases_of_isDecoding {finding : Finding} (h : finding.isDecoding = true) :
    finding.class?.isSome ∨ finding.warning?.isSome := by
  cases finding with
  | decoded file => exact .inl rfl
  | entryFailed error => exact .inr rfl
  | ignored => cases h
  | rootFailed root cause => cases h

/-! ### Results -/

section

variable (tree : FileTree) (roots : List Root)

/-- The decodings among the findings of a classpath are those of the selected items. -/
theorem filter_isDecoding_flatMap :
    (roots.flatMap (rootFindings tree)).filter Finding.isDecoding = decodings tree roots := by
  rw [List.filter_flatMap, decodings]
  exact List.flatMap_congr fun root _ => filter_isDecoding_rootFindings tree root

/-- The classes of a classpath are those of the decodings. -/
theorem filterMap_class_decodings :
    (decodings tree roots).filterMap Finding.class? = classes tree roots := by
  have hclasses : classes tree roots =
      (roots.flatMap (rootFindings tree)).filterMap Finding.class? := by
    rw [classes, List.filterMap_flatMap]
    exact List.flatMap_congr fun root _ => (rootFindings_cases tree root).1.symm
  rw [hclasses, ← filter_isDecoding_flatMap, List.filterMap_filter]
  apply List.filterMap_congr
  intro finding _
  cases finding with
  | entryFailed error => cases error <;> rfl
  | _ => rfl

/-- The warnings about undecodable classes are those of the decodings. -/
theorem filterMap_warning_decodings :
    (decodings tree roots).filterMap Finding.warning? =
      (warnings tree roots).filter Warning.isUndecodable := by
  rw [warnings, ← filter_isDecoding_flatMap, List.filterMap_filter, List.filter_filterMap]
  apply List.filterMap_congr
  intro finding _
  cases finding with
  | entryFailed error => cases error <;> rfl
  | _ => rfl

end

variable {α : Type} [Zero α] {originOf : String → Origin}

/-- The progress results from some decodings: their classes are in the graph and counted, and the
others are reported. -/
structure Progress.HasDecoded (originOf : String → Origin) (findings : List Finding)
    (progress : Progress α) : Prop where
  graph : IsGraphOf originOf (findings.filterMap Finding.class?) progress.graph
  classesParsed : progress.counts.classesParsed = (findings.filterMap Finding.class?).length
  undecodable : (progress.warnings.filter Warning.isUndecodable).Perm
    (findings.filterMap Finding.warning?)

/-- The result of a scan results from the decodings of the selected items. -/
theorem Progress.IsScanOf.hasDecoded {tree : FileTree} {roots : List Root} {progress : Progress α}
    (h : progress.IsScanOf tree originOf roots)
    (hwarnings : progress.warnings.Perm (Scan.warnings tree roots)) :
    progress.HasDecoded originOf (decodings tree roots) := by
  have hgraph : IsGraphOf originOf (classes tree roots) progress.graph :=
    ⟨h.performed, h.sameShape, h.graph⟩
  constructor
  case graph => rwa [filterMap_class_decodings]
  case classesParsed => rw [filterMap_class_decodings, h.counts]
  case undecodable =>
    rw [filterMap_warning_decodings]
    exact hwarnings.filter _

/-- A scan that is started and not cancelled terminates in the state `completed`, with the result of
decoding exactly the selected items; so does sequential execution. Each decoding yields a class or a
warning, and no run decodes any other item. An item is selected if the last component of its name
ends in `.class` and neither in `package-info.class` nor in `module-info.class`; nothing is selected
in the directory `-`. -/
theorem decodes_selection (tree : FileTree) (originOf : String → Origin) (roots : List Root)
    (config : ScanConfig) :
    (∀ name, ClassName.isClassEntry name ↔ Text.endsWith ".class" (Path.fileName name) ∧
      ¬Text.endsWith "package-info.class" (Path.fileName name) ∧
      ¬Text.endsWith "module-info.class" (Path.fileName name)) ∧
    (∀ finding ∈ decodings tree roots, finding.class?.isSome ∨ finding.warning?.isSome) ∧
    (∃ bound, ∀ events (run : Run α), Run.Steps tree originOf (Run.idle roots config) events run →
      events.count .worked ≤ bound) ∧
    (∀ events (run : Run α), Run.Steps tree originOf (Run.idle roots config) events run →
      .started ∈ events → .cancelled ∉ events →
        (run.scheduler.state = .scanning ∧ ∃ next, Run.Step tree originOf run .worked next) ∨
        (run.scheduler.state = .completed ∧
          run.progress.HasDecoded originOf (decodings tree roots))) ∧
    (∀ scheduler, (Run.idle roots config : Run α).scheduler.start = .ok scheduler →
      (scheduler.wait tree originOf { graph := (.empty : Graph α) }).1.state = .completed ∧
      (scheduler.wait tree originOf { graph := (.empty : Graph α) }).2.HasDecoded originOf
        (decodings tree roots)) ∧
    ∀ events (run : Run α), Run.Steps tree originOf (Run.idle roots config) events run →
      (run.progress.warnings.filter Warning.isUndecodable).Subperm
        ((decodings tree roots).filterMap Finding.warning?) ∧
      (run.scheduler.state.isTerminal → ∃ taken,
        taken.Subperm ((decodings tree roots).filterMap Finding.class?) ∧
          IsGraphOf originOf taken run.progress.graph ∧
          run.progress.counts.classesParsed = taken.length) := by
  refine ⟨fun name => ?_, ?_, ⟨_, fun _ _ hsteps => (Run.isSound_of_steps hsteps).count_worked_le⟩,
    ?_, ?_, ?_⟩
  · rw [ClassName.isClassEntry_iff, Path.endsWith_fileName (by decide),
      Path.endsWith_fileName (by decide), Path.endsWith_fileName (by decide)]
  · intro finding hfinding
    rw [← filter_isDecoding_flatMap] at hfinding
    exact Finding.cases_of_isDecoding (List.mem_filter.mp hfinding).2
  · intro events run hsteps hstarted hgo
    have hsound := Run.isSound_of_steps hsteps
    cases hstate : run.scheduler.state with
    | idle => exact absurd hstarted (hsound.idle hstate).2.1
    | scanning => exact .inl ⟨rfl, Run.exists_step hstate⟩
    | completed =>
      exact .inr ⟨rfl, (hsteps.isScanOf hstate).hasDecoded (hsteps.warnings_perm hstate)⟩
    | cancelled => exact absurd (hsound.cancelled (hsound.interrupted hstate)) hgo
  · intro scheduler hstart
    obtain ⟨-, rfl⟩ := Scheduler.start_eq_ok_iff.mp hstart
    refine ⟨rfl, (absorbAll_isScanOf tree originOf config.chunkSize roots).hasDecoded ?_⟩
    rw [warnings_absorbAll, List.nil_append]
  · intro events run hsteps
    refine ⟨?_, fun hend => ?_⟩
    · rw [filterMap_warning_decodings]
      exact hsteps.warnings_subperm.filter _
    · obtain ⟨taken, htaken⟩ := hsteps.isReliable.whole hend
      rw [filterMap_class_decodings]
      exact ⟨taken, htaken.classes, htaken.graph, htaken.classesParsed⟩

/-- Directory with a class file whose name has the suffix `package-info.class`. -/
def hyphenatedTree (content : ByteArray) : FileTree :=
  (((FileTree.fresh []).put ["d"] .directory).put ["d", "p"] .directory).put
    ["d", "p", "my-package-info.class"] (.file content)

/-- Class file of the class `p/my-package-info`. -/
def hyphenatedClass : ByteArray :=
  ([0xCA, 0xFE, 0xBA, 0xBE, 0, 0, 0, 0x34, 0, 5] ++
    [1, 0, 17] ++ Text.Utf8.encode "p/my-package-info" ++ [7, 0, 1] ++
    [1, 0, 16] ++ Text.Utf8.encode "java/lang/Object" ++ [7, 0, 3] ++
    [0, 0x21, 0, 2, 0, 4, 0, 0, 0, 0, 0, 0, 0, 0]).toByteArray

private theorem find?_hyphenatedTree (content : ByteArray) :
    (hyphenatedTree content).find? "d" = some (["d"], .directory) := by
  cbv

private theorem itemsBelow_hyphenatedTree (content : ByteArray) :
    (hyphenatedTree content).itemsBelow ["d"] =
      [(["p"], .directory), (["p", "my-package-info.class"], .file content)] := by
  rfl

/-- A readable class file whose name ends in `package-info.class` is neither decoded nor
reported. -/
theorem passes_over_hyphenated :
    (∃ item ∈ rootItems (hyphenatedTree hyphenatedClass) (.directory "d"),
      Text.endsWith ".class" item.name ∧ Path.fileName item.name = "my-package-info.class" ∧
        (classIn? item.content).isSome) ∧
    ∀ originOf config,
      (∃ events, ∃ run : Run Float32, Run.Steps (hyphenatedTree hyphenatedClass) originOf
        (Run.idle [.directory "d"] config) events run ∧ run.scheduler.state = .completed) ∧
      ∀ events (run : Run Float32), Run.Steps (hyphenatedTree hyphenatedClass) originOf
        (Run.idle [.directory "d"] config) events run → run.scheduler.state = .completed →
          run.progress.counts = {} ∧ run.progress.warnings = [] := by
  constructor
  · have hitems : rootItems (hyphenatedTree hyphenatedClass) (.directory "d") =
        [⟨"d/p/my-package-info.class", "p/my-package-info.class", hyphenatedClass⟩] := by
      simp only [rootItems, find?_hyphenatedTree, itemsBelow_hyphenatedTree]
      rfl
    rw [hitems]
    exact ⟨_, List.mem_singleton_self _, by decide, by decide, by decide +kernel⟩
  · intro originOf config
    refine ⟨Run.exists_completed _ _ _ _, fun events run hsteps hcompleted => ?_⟩
    have hsearch : Classpath.search (hyphenatedTree hyphenatedClass) "d" = [] := by
      simp only [Classpath.search, find?_hyphenatedTree, itemsBelow_hyphenatedTree]
      rfl
    constructor
    · rw [(hsteps.isScanOf hcompleted).counts]
      simp [classes, rootClasses, rootFailures, isUnopenable, hsearch]
    · simpa [warnings, rootFindings, hsearch] using hsteps.warnings_perm hcompleted

end Scan

end ClassAtlas
