import ClassAtlas.Proofs.Origin.Resolver
import ClassAtlas.Proofs.Scan.Selection
import Mathlib

/-!
# Resource entries

Resource entries of an archive, those without a class name, affect neither the graph nor the class
counter. Every entry is opened before its name is tested, so a resource entry that cannot be opened
is counted and reported as a failed entry. Specification: `SPEC_FULL.md` §4.3, line 49, §7, line 78,
and §10.2, lines 126–127.
-/

namespace ClassAtlas

/-! ### Class entries and resource entries -/

namespace Archive

deriving instance DecidableEq for OpenEntry

variable {archive : Archive} {entry : Entry}

/-- Class entries of an archive in order, each with the result of opening it. -/
def classEntries (archive : Archive) : List (String × Except OpenFailure OpenEntry) :=
  (archive.entries.filter fun entry => ClassName.isClassEntry entry.name).map fun entry =>
    (entry.name, archive.openEntry entry)

/-- Number of resource entries that cannot be opened. -/
def closedResources (archive : Archive) : Nat :=
  archive.entries.countP fun entry =>
    !ClassName.isClassEntry entry.name && !(archive.openEntry entry).isOk

/-- Opening an entry preserves its name. -/
theorem openEntry_name {opened : OpenEntry} (h : archive.openEntry entry = .ok opened) :
    opened.name = entry.name := by
  rw [openEntry] at h
  split at h
  · cases h
  · cases hplain : archive.plainEntry? entry with
    | none => simp [hplain] at h
    | some plain =>
      obtain ⟨compressed, -, hmethod⟩ := Option.bind_eq_some_iff.mp hplain
      obtain ⟨method, -, hname⟩ := Option.bind_eq_some_iff.mp hmethod
      simp only [hplain] at h
      split at h
      · cases h
      · obtain rfl := Except.ok.inj h
        exact (congrArg OpenEntry.name (Option.some.inj hname)).symm

end Archive

namespace Scan

/-- Class in a class entry, given the result of opening it. -/
def openedClass? : Except Archive.OpenFailure Archive.OpenEntry → Option ClassFile
  | .ok opened => opened.content?.bind classIn?
  | .error _ => none

/-- Classes are those of class entries. A failed entry is a class entry without a class or a
resource entry that cannot be opened. -/
theorem entry_eq (archive : Archive) (entry : Archive.Entry) :
    archivedClass? archive entry =
        (if ClassName.isClassEntry entry.name then openedClass? (archive.openEntry entry)
          else none) ∧
      isSpoilt archive entry =
        if ClassName.isClassEntry entry.name then (openedClass? (archive.openEntry entry)).isNone
        else !(archive.openEntry entry).isOk := by
  unfold archivedClass? isSpoilt
  cases hopened : archive.openEntry entry with
  | error failure =>
    cases ClassName.isClassEntry entry.name <;> exact ⟨rfl, rfl⟩
  | ok opened =>
    simp only [isWanted_eq, Archive.openEntry_name hopened]
    cases ClassName.isClassEntry entry.name <;> exact ⟨rfl, rfl⟩

/-- The classes of an archive are those of its class entries. -/
theorem filterMap_archivedClass (archive : Archive) :
    archive.entries.filterMap (archivedClass? archive) =
      archive.classEntries.filterMap fun entry => openedClass? entry.2 := by
  rw [Archive.classEntries, List.filterMap_map, List.filterMap_filter]
  exact List.filterMap_congr fun entry _ => (entry_eq archive entry).1

/-- The failed entries of an archive are the class entries without a class and the resource entries
that cannot be opened. -/
theorem countP_isSpoilt (archive : Archive) :
    archive.entries.countP (isSpoilt archive) =
      (archive.classEntries.countP fun entry => (openedClass? entry.2).isNone) +
        archive.closedResources := by
  rw [List.countP_eq_countP_filter_add _ (isSpoilt archive) fun entry =>
    ClassName.isClassEntry entry.name, Archive.classEntries, List.countP_map,
    Archive.closedResources, List.countP_filter, List.countP_filter, List.countP_filter]
  congr 1 <;>
  · apply List.countP_congr
    intro entry _
    rw [(entry_eq archive entry).2]
    cases ClassName.isClassEntry entry.name <;> simp

/-- Number of resource entries of a root that cannot be opened. -/
def rootClosedResources (tree : FileTree) : Root → Nat
  | .archive path =>
    match Archive.openAt tree path with
    | .ok archive => archive.closedResources
    | .error _ => 0
  | .directory _ => 0

/-- Number of failed class entries of a root. -/
def rootClassFailures (tree : FileTree) : Root → Nat
  | .archive path =>
    match Archive.openAt tree path with
    | .ok archive => archive.classEntries.countP fun entry => (openedClass? entry.2).isNone
    | .error _ => 0
  | .directory path => rootFailures tree (.directory path)

/-- The failed entries of a root are failed class entries and resource entries that cannot be
opened. -/
theorem rootFailures_eq (tree : FileTree) (root : Root) :
    rootFailures tree root = rootClassFailures tree root + rootClosedResources tree root := by
  cases root with
  | archive path =>
    simp only [rootFailures, rootClassFailures, rootClosedResources]
    cases Archive.openAt tree path with
    | error cause => rfl
    | ok archive => exact countP_isSpoilt archive
  | directory path => rfl

end Scan

/-! ### Classpaths with equal class entries -/

/-- The root has equal class entries in both trees: archives with equal class entries in the same
order, archives that cannot be opened, or directories with equal files. Resource entries of archives
may differ. -/
inductive Root.HasSameClasses (tree other : FileTree) : Root → Prop
  | archive {path : String} {archive archive' : Archive} :
    Archive.openAt tree path = .ok archive → Archive.openAt other path = .ok archive' →
    archive.classEntries = archive'.classEntries → HasSameClasses tree other (.archive path)
  | closed {path : String} {cause cause' : ArchiveFailure} :
    Archive.openAt tree path = .error cause → Archive.openAt other path = .error cause' →
    HasSameClasses tree other (.archive path)
  | directory {path : String} :
    Classpath.search tree path = Classpath.search other path →
    (∀ more, tree.isFile (Path.join path more) = other.isFile (Path.join path more)) →
    HasSameClasses tree other (.directory path)

variable {tree other : FileTree} {root : Root} {roots : List Root}

/-- The catalogue of an archive lists a class entry exactly if it is one of its class entries. -/
theorem Archive.mem_classPaths_iff {archive : Archive} {path : String}
    (h : ClassName.isClassEntry path) :
    path ∈ OriginResolver.classPaths archive ↔ path ∈ archive.classEntries.map Prod.fst := by
  have hending := ((ClassName.isClassEntry_iff path).mp h).1
  simp only [OriginResolver.classPaths, classEntries, List.mem_filter, List.mem_map]
  constructor
  · rintro ⟨⟨entry, hentry, rfl⟩, -⟩
    exact ⟨_, ⟨entry, ⟨hentry, h⟩, rfl⟩, rfl⟩
  · rintro ⟨_, ⟨entry, ⟨hentry, -⟩, rfl⟩, rfl⟩
    exact ⟨⟨entry, hentry, rfl⟩, hending⟩

namespace Root.HasSameClasses

/-- Such a root has equal classes, equally many failed class entries and the same status in both
trees. -/
theorem root_eq (h : root.HasSameClasses tree other) :
    Scan.rootClasses tree root = Scan.rootClasses other root ∧
      Scan.rootClassFailures tree root = Scan.rootClassFailures other root ∧
      Scan.isUnopenable tree root = Scan.isUnopenable other root := by
  cases h with
  | archive hopen hopen' hentries =>
    simp only [Scan.rootClasses, Scan.rootClassFailures, Scan.isUnopenable, hopen, hopen',
      Scan.filterMap_archivedClass, hentries, and_self]
  | closed hopen hopen' =>
    simp only [Scan.rootClasses, Scan.rootClassFailures, Scan.isUnopenable, hopen, hopen', and_self]
  | directory hsearch =>
    simp only [Scan.rootClasses, Scan.rootClassFailures, Scan.rootFailures, Scan.isUnopenable,
      hsearch, and_self]

/-- Such a root has the same class entries in both trees. -/
theorem hasClassPath_iff (h : root.HasSameClasses tree other) {path : String}
    (hpath : ClassName.isClassEntry path) :
    root.HasClassPath tree path ↔ root.HasClassPath other path := by
  cases h with
  | archive hopen hopen' hentries =>
    simp [Root.HasClassPath, hopen, hopen', Archive.mem_classPaths_iff hpath, hentries]
  | closed hopen hopen' => simp [Root.HasClassPath, hopen, hopen']
  | directory _ hfiles => simp only [Root.HasClassPath, hfiles]

end Root.HasSameClasses

namespace Scan

variable {α : Type} [Zero α] {originOf originOf' : String → Origin} {config config' : ScanConfig}
  {events events' : List Event} {run run' : Run α}

section

variable (h : ∀ root ∈ roots, root.HasSameClasses tree other)
include h

/-- The classes of both classpaths are equal. -/
theorem classes_eq : classes tree roots = classes other roots :=
  List.flatMap_congr fun root hroot => (h root hroot).root_eq.1

/-- Equally many archives cannot be opened. -/
theorem countP_isUnopenable_eq :
    roots.countP (isUnopenable tree) = roots.countP (isUnopenable other) :=
  List.countP_congr fun root hroot => by rw [(h root hroot).root_eq.2.2]

/-- The failed entries of both classpaths differ in the resource entries that cannot be opened. -/
theorem sum_rootFailures_eq : ∃ failures,
    (roots.map (rootFailures tree)).sum =
        failures + (roots.map (rootClosedResources tree)).sum ∧
      (roots.map (rootFailures other)).sum =
        failures + (roots.map (rootClosedResources other)).sum := by
  have hsame : roots.map (rootClassFailures tree) = roots.map (rootClassFailures other) :=
    List.map_congr_left fun root hroot => (h root hroot).root_eq.2.1
  refine ⟨(roots.map (rootClassFailures tree)).sum, ?_, ?_⟩
  · rw [← List.sum_map_add, ← funext (rootFailures_eq tree)]
  · rw [hsame, ← List.sum_map_add, ← funext (rootFailures_eq other)]

/-- The resolvers of both classpaths know the same class entries. -/
theorem hasClassPath_eq {path : String} (hpath : ClassName.isClassEntry path) :
    (OriginResolver.ofRoots tree roots).1.hasClassPath tree path =
      (OriginResolver.ofRoots other roots).1.hasClassPath other path := by
  rw [Bool.eq_iff_iff, OriginResolver.hasClassPath_ofRoots, OriginResolver.hasClassPath_ofRoots]
  exact exists_congr fun root =>
    and_congr_right fun hroot => (h root hroot).hasClassPath_iff hpath

end

/-- Non-interference of resource entries. Completed scans of classpaths with equal class entries
have equal graphs, as far as the origins of named classes are equal and totals are exact, equal
class counters, and equal numbers of failed roots. The failed entries and the warnings differ
exactly by the resource entries that cannot be opened. The resolvers agree on each class whose path
is that of a class entry. -/
theorem scans_of_hasSameClasses (h : ∀ root ∈ roots, root.HasSameClasses tree other)
    (hsteps : Run.Steps tree originOf (Run.idle roots config) events run)
    (hsteps' : Run.Steps other originOf' (Run.idle roots config') events' run')
    (hcompleted : run.scheduler.state = .completed)
    (hcompleted' : run'.scheduler.state = .completed) :
    ((∀ name ∈ Call.allNames (calls tree roots), originOf name = originOf' name) →
      run.progress.graph.SameShape run'.progress.graph ∧
      ((∀ a b, a ≠ b → Call.total s(a, b) (calls tree roots) ≤ 2 ^ 24) →
        run.progress.graph = run'.progress.graph)) ∧
    run.progress.counts.classesParsed = run'.progress.counts.classesParsed ∧
    run.progress.counts.rootsFailed = run'.progress.counts.rootsFailed ∧
    (∃ failures,
      run.progress.counts.entriesFailed =
          failures + (roots.map (rootClosedResources tree)).sum ∧
        run'.progress.counts.entriesFailed =
          failures + (roots.map (rootClosedResources other)).sum) ∧
    (∃ failures,
      run.progress.warnings.length = failures + (roots.map (rootClosedResources tree)).sum ∧
        run'.progress.warnings.length =
          failures + (roots.map (rootClosedResources other)).sum) ∧
    ∀ name, ClassName.isClassEntry (ClassName.classPath name) →
      (OriginResolver.ofRoots tree roots).1.resolve tree name =
        (OriginResolver.ofRoots other roots).1.resolve other name := by
  have hscan := hsteps.isScanOf hcompleted
  have hscan' := hsteps'.isScanOf hcompleted'
  have hcalls : calls other roots = calls tree roots := by rw [calls, calls, classes_eq h]
  obtain ⟨failures, hfailures, hfailures'⟩ := sum_rootFailures_eq h
  refine ⟨fun horigins => ?_, ?_, ?_, ⟨failures, ?_, ?_⟩,
    ⟨failures + roots.countP (isUnopenable tree), ?_, ?_⟩, fun name hname => ?_⟩
  · obtain ⟨order, hperm, hgraph⟩ := hscan.performed
    obtain ⟨order', hperm', hgraph'⟩ := hscan'.performed
    rw [hcalls] at hperm'
    obtain ⟨hnames, htotal⟩ := Call.perm_same hperm'.symm
    have hsame : order.Perm order' := hperm.trans hperm'.symm
    have hcongr : Call.performAll (α := α) originOf order' = Call.performAll originOf' order' :=
      Graph.performAll_congr (by rwa [hnames])
    rw [hgraph, hgraph', ← hcongr]
    refine ⟨Graph.performAll_sameShape hsame, fun hexact => Graph.performAll_perm hsame ?_⟩
    simpa only [htotal] using hexact
  · rw [hscan.counts, hscan'.counts, classes_eq h]
  · rw [hscan.counts, hscan'.counts, countP_isUnopenable_eq h]
  · rw [hscan.counts, hfailures]
  · rw [hscan'.counts, hfailures']
  · rw [hsteps.length_warnings, hscan.counts, hfailures]
    exact Nat.add_right_comm _ _ _
  · rw [hsteps'.length_warnings, hscan'.counts, hfailures', countP_isUnopenable_eq h]
    exact Nat.add_right_comm _ _ _
  · rw [OriginResolver.resolve, OriginResolver.resolve, hasClassPath_eq h hname]

/-- Tree with one archive. -/
def archiveTree (archive : List UInt8) : FileTree :=
  (FileTree.fresh []).put ["a.jar"] (.file archive.toByteArray)

/-- Class without relations. -/
def plainClass : List UInt8 :=
  [0xCA, 0xFE, 0xBA, 0xBE, 0, 0, 0, 0x34, 0, 3, 1, 0, 1, 0x41, 7, 0, 1] ++
  [0, 0x21, 0, 2, 0, 0, 0, 0, 0, 0, 0, 0, 0, 0]

/-- Class entry of the archives below. -/
def plainEntry : Archive.OpenEntry where
  name := "A.class"
  method := .stored
  checksum := 0x52CE0261
  compressed := plainClass.toByteArray

/-- Local file header and data of the class entry. -/
def plainData : List UInt8 :=
  [0x50, 0x4B, 3, 4, 20, 0, 0, 0, 0, 0, 0, 0, 0, 0, 0x61, 2, 0xCE, 0x52, 31, 0, 0, 0,
    31, 0, 0, 0, 7, 0, 0, 0] ++ Text.Utf8.encode "A.class" ++ plainClass

/-- Central directory header of the class entry. -/
def plainHeader : List UInt8 :=
  [0x50, 0x4B, 1, 2, 20, 0, 20, 0, 0, 0, 0, 0, 0, 0, 0, 0, 0x61, 2, 0xCE, 0x52, 31, 0, 0, 0,
    31, 0, 0, 0, 7, 0, 0, 0, 0, 0, 0, 0, 0, 0, 0, 0, 0, 0, 0, 0, 0, 0] ++ Text.Utf8.encode "A.class"

/-- Central directory header of an encrypted resource entry. -/
def encryptedHeader : List UInt8 :=
  [0x50, 0x4B, 1, 2, 20, 0, 20, 0, 1, 0, 0, 0, 0, 0, 0, 0, 0, 0, 0, 0, 0, 0, 0, 0,
    0, 0, 0, 0, 1, 0, 0, 0, 0, 0, 0, 0, 0, 0, 0, 0, 0, 0, 0, 0, 0, 0] ++ Text.Utf8.encode "a"

/-- Archive of the class entry. -/
def plainArchive : List UInt8 :=
  plainData ++ plainHeader ++
    [0x50, 0x4B, 5, 6, 0, 0, 0, 0, 1, 0, 1, 0, 53, 0, 0, 0, 68, 0, 0, 0, 0, 0]

/-- Archive of the class entry and the encrypted resource entry. -/
def encryptedArchive : List UInt8 :=
  plainData ++ plainHeader ++ encryptedHeader ++
    [0x50, 0x4B, 5, 6, 0, 0, 0, 0, 2, 0, 2, 0, 100, 0, 0, 0, 68, 0, 0, 0, 0, 0]

private theorem exists_openAt_archiveTree (bytes : List UInt8) (count : Nat)
    (h : (Archive.ofBytes? bytes.toByteArray).map (fun archive =>
      (archive.classEntries.map fun entry => (entry.1, entry.2.toOption),
        archive.closedResources)) = some ([("A.class", some plainEntry)], count)) :
    ∃ archive, Archive.openAt (archiveTree bytes) "a.jar" = .ok archive ∧
      archive.classEntries = [("A.class", .ok plainEntry)] ∧ archive.closedResources = count := by
  have hfile : (archiveTree bytes).find? "a.jar" = some (["a.jar"], .file bytes.toByteArray) := by
    cbv
  obtain ⟨archive, hbytes, hcounts⟩ := Option.map_eq_some_iff.mp h
  obtain ⟨hentries, hclosed⟩ := Prod.mk.inj hcounts
  refine ⟨archive, by simp only [Archive.openAt, hfile, hbytes], ?_, hclosed⟩
  obtain ⟨⟨name, opened⟩, hclasses, hentry⟩ := List.map_eq_singleton_iff.mp hentries
  obtain ⟨rfl, hopened⟩ := Prod.mk.inj hentry
  cases opened with
  | error failure => cases hopened
  | ok entry => rw [hclasses, Option.some.inj hopened]

/-- Both archives have the same class entry, and one of them has a resource entry that cannot be
opened. -/
private theorem archiveTree_cases :
    Root.HasSameClasses (archiveTree plainArchive) (archiveTree encryptedArchive)
        (.archive "a.jar") ∧
      (rootClasses (archiveTree plainArchive) (.archive "a.jar")).length = 1 ∧
      rootClosedResources (archiveTree plainArchive) (.archive "a.jar") = 0 ∧
      rootClosedResources (archiveTree encryptedArchive) (.archive "a.jar") = 1 := by
  obtain ⟨archive, hopen, hclasses, hclosed⟩ :=
    exists_openAt_archiveTree plainArchive 0 (by decide +kernel)
  obtain ⟨archive', hopen', hclasses', hclosed'⟩ :=
    exists_openAt_archiveTree encryptedArchive 1 (by decide +kernel)
  obtain ⟨file, hfile⟩ : ∃ file, openedClass? (.ok plainEntry) = some file :=
    Option.isSome_iff_exists.mp (by decide +kernel)
  refine ⟨.archive hopen hopen' (hclasses.trans hclasses'.symm), ?_, ?_, ?_⟩
  · simp [rootClasses, hopen, filterMap_archivedClass, hclasses, hfile]
  · simpa only [rootClosedResources, hopen] using hclosed
  · simpa only [rootClosedResources, hopen'] using hclosed'

/-- Scans of these archives have equal graphs and class counters, and differ by one failed entry. -/
theorem scans_of_hasSameClasses_encrypted :
    ∃ events events', ∃ run run' : Run Nat,
      Run.Steps (archiveTree plainArchive) (fun _ => .unknown)
        (Run.idle [.archive "a.jar"] ⟨1, 64⟩) events run ∧
      Run.Steps (archiveTree encryptedArchive) (fun _ => .unknown)
        (Run.idle [.archive "a.jar"] ⟨1, 64⟩) events' run' ∧
      run.progress.graph.SameShape run'.progress.graph ∧
      run.progress.counts.classesParsed = 1 ∧ run'.progress.counts.classesParsed = 1 ∧
      run'.progress.counts.entriesFailed = run.progress.counts.entriesFailed + 1 := by
  obtain ⟨hsame, hclass, hnone, hone⟩ := archiveTree_cases
  obtain ⟨events, run, hsteps, hcompleted⟩ := Run.exists_completed (α := Nat)
    (archiveTree plainArchive) (fun _ => .unknown) [.archive "a.jar"] ⟨1, 64⟩
  obtain ⟨events', run', hsteps', hcompleted'⟩ := Run.exists_completed (α := Nat)
    (archiveTree encryptedArchive) (fun _ => .unknown) [.archive "a.jar"] ⟨1, 64⟩
  obtain ⟨hgraph, hparsed, -, ⟨failures, hfailures, hfailures'⟩, -⟩ :=
    scans_of_hasSameClasses (by simpa using hsame) hsteps hsteps' hcompleted hcompleted'
  have hcount : run.progress.counts.classesParsed = 1 := by
    rw [(hsteps.isScanOf hcompleted).counts]
    simpa [classes] using hclass
  refine ⟨events, events', run, run', hsteps, hsteps', (hgraph fun _ _ => rfl).1, hcount,
    hparsed ▸ hcount, ?_⟩
  rw [hfailures, hfailures']
  simp [hnone, hone]

/-- Equal class entries do not imply equal numbers of failed entries. -/
theorem entriesFailed_ne_of_hasSameClasses :
    ¬∀ (tree other : FileTree) (roots : List Root) (originOf : String → Origin)
        (config : ScanConfig) (events events' : List Event) (run run' : Run Float32),
      (∀ root ∈ roots, root.HasSameClasses tree other) →
      Run.Steps tree originOf (Run.idle roots config) events run →
      Run.Steps other originOf (Run.idle roots config) events' run' →
      run.scheduler.state = .completed → run'.scheduler.state = .completed →
      run.progress.counts.entriesFailed = run'.progress.counts.entriesFailed := by
  intro hall
  obtain ⟨hsame, -, hnone, hone⟩ := archiveTree_cases
  have hfailures := hsame.root_eq.2.1
  obtain ⟨events, run, hsteps, hcompleted⟩ := Run.exists_completed (α := Float32)
    (archiveTree plainArchive) (fun _ => .unknown) [.archive "a.jar"] ⟨1, 64⟩
  obtain ⟨events', run', hsteps', hcompleted'⟩ := Run.exists_completed (α := Float32)
    (archiveTree encryptedArchive) (fun _ => .unknown) [.archive "a.jar"] ⟨1, 64⟩
  have hequal := hall _ _ _ _ _ _ _ _ _ (by simpa using hsame) hsteps hsteps' hcompleted
    hcompleted'
  rw [(hsteps.isScanOf hcompleted).counts, (hsteps'.isScanOf hcompleted').counts] at hequal
  simp [rootFailures_eq, hfailures, hnone, hone] at hequal

end Scan

end ClassAtlas
