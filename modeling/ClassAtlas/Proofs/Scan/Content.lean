import ClassAtlas.Scan.Task
import Mathlib

/-!
# Contents of a classpath

Every archive entry is passed over, yields a class, or fails, and exactly one of these. The findings
of the tasks of a root are these results in entry order, for every chunk size. Specification:
`SPEC_FULL.md` §4.3, lines 49–51, §10.2, lines 126–127, and §10.6, lines 171–176.
-/

namespace ClassAtlas.Scan

/-! ### Categories of entries -/

/-- Class decoded from the content of a class entry. -/
def classIn? (content : ByteArray) : Option ClassFile :=
  (ClassFile.parse content.data.toList).toOption

/-- The opened entry has the name of a class and is not a directory. -/
def isWanted (opened : Archive.OpenEntry) : Bool :=
  !opened.isDirectory && ClassName.isClassEntry opened.name

/-- The entry can be opened and is not a class entry. -/
def isPassedOver (archive : Archive) (entry : Archive.Entry) : Bool :=
  match archive.openEntry entry with
  | .ok opened => !isWanted opened
  | .error _ => false

/-- Class in an archive entry. -/
def archivedClass? (archive : Archive) (entry : Archive.Entry) : Option ClassFile :=
  match archive.openEntry entry with
  | .ok opened => if isWanted opened then opened.content?.bind classIn? else none
  | .error _ => none

/-- The entry cannot be opened, or is a class entry that cannot be read or decoded. -/
def isSpoilt (archive : Archive) (entry : Archive.Entry) : Bool :=
  match archive.openEntry entry with
  | .ok opened => isWanted opened && (opened.content?.bind classIn?).isNone
  | .error _ => true

/-- Class in an item of a directory walk. -/
def encounteredClass? : Classpath.Encounter → Option ClassFile
  | .classFile file => file.content?.bind classIn?
  | .obstacle => none

/-- Classes in a root. -/
def rootClasses (tree : FileTree) : Root → List ClassFile
  | .archive path =>
    match Archive.openAt tree path with
    | .ok archive => archive.entries.filterMap (archivedClass? archive)
    | .error _ => []
  | .directory path => (Classpath.search tree path).filterMap encounteredClass?

/-- Number of failed entries of a root: in a directory, the undecodable class files and the
unreadable items. -/
def rootFailures (tree : FileTree) : Root → Nat
  | .archive path =>
    match Archive.openAt tree path with
    | .ok archive => archive.entries.countP (isSpoilt archive)
    | .error _ => 0
  | .directory path => (Classpath.search tree path).countP fun met => (encounteredClass? met).isNone

/-- The root is an archive that cannot be opened. -/
def isUnopenable (tree : FileTree) : Root → Bool
  | .archive path =>
    match Archive.openAt tree path with
    | .ok _ => false
    | .error _ => true
  | .directory _ => false

/-- Number of entries of a root: in a directory, the class files and the unreadable items. -/
def rootEntries (tree : FileTree) : Root → Nat
  | .archive path =>
    match Archive.openAt tree path with
    | .ok archive => archive.entries.length
    | .error _ => 0
  | .directory path => (Classpath.search tree path).length

/-- Number of entries of a root that are passed over. -/
def rootPassedOver (tree : FileTree) : Root → Nat
  | .archive path =>
    match Archive.openAt tree path with
    | .ok archive => archive.entries.countP (isPassedOver archive)
    | .error _ => 0
  | .directory _ => 0

/-- Classes of a classpath with multiplicity. -/
def classes (tree : FileTree) (roots : List Root) : List ClassFile :=
  roots.flatMap (rootClasses tree)

/-- Every archive entry is in exactly one of the three categories. -/
theorem entry_cases (archive : Archive) (entry : Archive.Entry) :
    (isPassedOver archive entry ∧ archivedClass? archive entry = none ∧ ¬ isSpoilt archive entry) ∨
    (¬ isPassedOver archive entry ∧ (archivedClass? archive entry).isSome ∧
      ¬ isSpoilt archive entry) ∨
    (¬ isPassedOver archive entry ∧ archivedClass? archive entry = none ∧
      isSpoilt archive entry) := by
  unfold isPassedOver archivedClass? isSpoilt
  cases archive.openEntry entry with
  | error failure => exact Or.inr (Or.inr ⟨Bool.false_ne_true, rfl, rfl⟩)
  | ok opened =>
    by_cases hwanted : isWanted opened
    · cases hclass : opened.content?.bind classIn? <;> simp [hwanted, hclass]
    · simp [hwanted]

/-- The three categories sum up to the number of entries of an archive. -/
theorem length_entries (archive : Archive) :
    archive.entries.length = archive.entries.countP (isPassedOver archive) +
      (archive.entries.filterMap (archivedClass? archive)).length +
      archive.entries.countP (isSpoilt archive) := by
  induction archive.entries with
  | nil => rfl
  | cons entry entries ih =>
    rw [List.length_cons, List.countP_cons, List.countP_cons, ih]
    rcases entry_cases archive entry with
      ⟨hpassed, hclass, hspoilt⟩ | ⟨hpassed, hclass, hspoilt⟩ | ⟨hpassed, hclass, hspoilt⟩
    · rw [List.filterMap_cons_none hclass, if_pos hpassed, if_neg hspoilt]
      omega
    · obtain ⟨file, hfile⟩ := Option.isSome_iff_exists.mp hclass
      rw [List.filterMap_cons_some hfile, if_neg hpassed, if_neg hspoilt, List.length_cons]
      omega
    · rw [List.filterMap_cons_none hclass, if_neg hpassed, if_pos hspoilt]
      omega

/-- The three categories sum up to the number of entries of a root. -/
theorem rootEntries_eq (tree : FileTree) (root : Root) :
    rootEntries tree root =
      rootPassedOver tree root + (rootClasses tree root).length + rootFailures tree root := by
  cases root with
  | archive path =>
    simp only [rootEntries, rootPassedOver, rootClasses, rootFailures]
    cases Archive.openAt tree path with
    | error cause => rfl
    | ok archive => exact length_entries archive
  | directory path =>
    rw [rootEntries, rootPassedOver, rootClasses, rootFailures, Nat.zero_add,
      List.length_filterMap_eq_countP,
      List.length_eq_countP_add_countP fun met => (encounteredClass? met).isSome]
    congr 2
    funext met
    cases encounteredClass? met <;> rfl

/-! ### Findings -/

namespace Finding

/-- Class of a finding. -/
def class? : Finding → Option ClassFile
  | .decoded file => some file
  | _ => none

/-- The finding is a failed entry. -/
def isEntryFailure : Finding → Bool
  | .entryFailed _ => true
  | _ => false

/-- The finding is a failed root. -/
def isRootFailure : Finding → Bool
  | .rootFailed _ _ => true
  | _ => false

/-- A finding with a class is its decoding. -/
theorem eq_decoded {finding : Finding} {file : ClassFile} (h : finding.class? = some file) :
    finding = .decoded file := by
  cases finding with
  | decoded other => exact congrArg decoded (Option.some.inj h)
  | ignored => cases h
  | entryFailed error => cases h
  | rootFailed root cause => cases h

end Finding

/-- Decoding yields the class in the content or a failed entry. -/
theorem decode_cases (root entry : String) (content : ByteArray) :
    (decode root entry content).class? = classIn? content ∧
      (decode root entry content).isEntryFailure = (classIn? content).isNone ∧
      (decode root entry content).isRootFailure = false := by
  unfold decode classIn?
  cases ClassFile.parse content.data.toList <;> exact ⟨rfl, rfl, rfl⟩

/-- Reading an opened entry: class entries are decoded, others ignored. -/
theorem readOpened_eq (root : String) (opened : Archive.OpenEntry) :
    readOpened root opened =
      if isWanted opened then
        match opened.content? with
        | none => .entryFailed (.unreadable root opened.name)
        | some content => decode root opened.name content
      else .ignored := by
  unfold readOpened isWanted
  cases opened.isDirectory <;> cases ClassName.isClassEntry opened.name <;> rfl

/-- Reading an entry yields its class, and a failure exactly for failed entries. -/
theorem readEntry_cases (root : String) {archive : Archive} {index : Nat} {entry : Archive.Entry}
    (h : archive.entries[index]? = some entry) :
    (readEntry root archive index).class? = archivedClass? archive entry ∧
      (readEntry root archive index).isEntryFailure = isSpoilt archive entry ∧
      (readEntry root archive index).isRootFailure = false := by
  unfold readEntry archivedClass? isSpoilt
  simp only [h]
  cases archive.openEntry entry with
  | error failure => cases failure <;> exact ⟨rfl, rfl, rfl⟩
  | ok opened =>
    simp only [readOpened_eq]
    cases isWanted opened with
    | false => exact ⟨rfl, rfl, rfl⟩
    | true =>
      cases opened.content? with
      | none => exact ⟨rfl, rfl, rfl⟩
      | some content => exact decode_cases root opened.name content

/-- Finding of an item of a directory walk. -/
def encounterFinding (root : String) : Classpath.Encounter → Finding
  | .classFile file => readFound root file
  | .obstacle => obstacleFinding root

/-- Reading an item of a walk yields its class, and a failure if there is none. -/
theorem encounterFinding_cases (root : String) (met : Classpath.Encounter) :
    (encounterFinding root met).class? = encounteredClass? met ∧
      (encounterFinding root met).isEntryFailure = (encounteredClass? met).isNone ∧
      (encounterFinding root met).isRootFailure = false := by
  cases met with
  | obstacle => exact ⟨rfl, rfl, rfl⟩
  | classFile file =>
    simp only [encounterFinding, readFound, encounteredClass?]
    cases file.content? with
    | none => exact ⟨rfl, rfl, rfl⟩
    | some content => exact decode_cases root file.relative content

/-- Findings of a root in entry order. -/
def rootFindings (tree : FileTree) : Root → List Finding
  | .archive path =>
    match Archive.openAt tree path with
    | .error cause => [.rootFailed path cause]
    | .ok archive => (List.range archive.entries.length).map (readEntry path archive)
  | .directory path => (Classpath.search tree path).map (encounterFinding path)

/-- A function of the findings of an archive that is determined by the entries commutes with
reading. -/
theorem map_readEntry {β : Type} (path : String) (archive : Archive) {f : Finding → β}
    {g : Archive.Entry → β}
    (h : ∀ index entry, archive.entries[index]? = some entry →
      f (readEntry path archive index) = g entry) :
    ((List.range archive.entries.length).map (readEntry path archive)).map f =
      archive.entries.map g := by
  apply List.ext_getElem
  · simp
  · intro index hleft hright
    have hlt : index < archive.entries.length := by simpa using hright
    simp only [List.getElem_map, List.getElem_range]
    exact h index _ (List.getElem?_eq_getElem hlt)

/-- The classes found in a root are its classes, and the failures are its failed entries, or the
root itself if it cannot be opened. -/
theorem rootFindings_cases (tree : FileTree) (root : Root) :
    (rootFindings tree root).filterMap Finding.class? = rootClasses tree root ∧
      (rootFindings tree root).countP Finding.isEntryFailure = rootFailures tree root ∧
      (rootFindings tree root).countP Finding.isRootFailure = (isUnopenable tree root).toNat := by
  have hclasses : ∀ findings : List Finding, findings.filterMap Finding.class? =
      (findings.map Finding.class?).filterMap id := by
    intro findings
    rw [List.filterMap_map]
    rfl
  have hcount : ∀ (p : Finding → Bool) (findings : List Finding), findings.countP p =
      (findings.map p).countP id := by
    intro p findings
    rw [List.countP_map]
    rfl
  cases root with
  | archive path =>
    simp only [rootFindings, rootClasses, rootFailures, isUnopenable]
    cases Archive.openAt tree path with
    | error cause => exact ⟨rfl, rfl, rfl⟩
    | ok archive =>
      simp only
      refine ⟨?_, ?_, ?_⟩
      · rw [hclasses, map_readEntry path archive fun _ _ h => (readEntry_cases path h).1,
          List.filterMap_map]
        rfl
      · rw [hcount, map_readEntry path archive fun _ _ h => (readEntry_cases path h).2.1,
          List.countP_map]
        rfl
      · rw [hcount, map_readEntry path archive fun _ _ h => (readEntry_cases path h).2.2,
          List.countP_map]
        exact List.countP_eq_zero.mpr fun _ _ => Bool.false_ne_true
  | directory path =>
    simp only [rootFindings, rootClasses, rootFailures, isUnopenable]
    refine ⟨?_, ?_, ?_⟩
    · rw [List.filterMap_map]
      exact congrArg (List.filterMap · _) (funext fun met => (encounterFinding_cases path met).1)
    · rw [List.countP_map]
      exact congrArg (List.countP · _) (funext fun met => (encounterFinding_cases path met).2.1)
    · rw [List.countP_map, List.countP_eq_zero.mpr]
      · rfl
      · intro met _
        rw [Function.comp_apply, (encounterFinding_cases path met).2.2]
        exact Bool.false_ne_true

/-! ### Division into tasks -/

private theorem flatMap_indices_chunksFrom (length size start : Nat) (h : start ≤ length) :
    (chunksFrom length size start).flatMap Chunk.indices =
      List.range' start (length - start) := by
  induction start using chunksFrom.induct length size with
  | case1 start hlt stop ih =>
    have hstop : start + (stop - start) = stop := by omega
    have hlen : stop - start + (length - stop) = length - start := by omega
    rw [chunksFrom, if_pos hlt, List.flatMap_cons]
    show List.range' start (stop - start) ++ (chunksFrom length size stop).flatMap _ = _
    rw [ih (Nat.min_le_right _ _), ← hlen, ← List.range'_append_1, hstop]
  | case2 start hge =>
    have hzero : length - start = 0 := by omega
    rw [chunksFrom, if_neg hge, hzero]
    rfl

/-- The chunks of an archive enumerate its indices in order. -/
theorem flatMap_indices_chunks (length size : Nat) :
    (chunks length size).flatMap Chunk.indices = List.range length := by
  rw [chunks, flatMap_indices_chunksFrom length size 0 (Nat.zero_le length), Nat.sub_zero,
    List.range_eq_range']

/-- The chunk tasks of an archive read all of its entries in order. -/
theorem flatMap_chunkTask (path : String) (archive : Archive) (size : Nat) :
    (chunks archive.entries.length size).flatMap (chunkTask path archive) =
      (List.range archive.entries.length).map (readEntry path archive) := by
  rw [← flatMap_indices_chunks archive.entries.length size, List.map_flatMap]
  rfl

/-- The tasks of a root, concatenated, are its findings. -/
theorem flatten_rootTasks (tree : FileTree) (size : Nat) (root : Root) :
    (rootTasks tree size root).flatten = rootFindings tree root := by
  cases root with
  | archive path =>
    simp only [rootTasks, archiveTasks, rootFindings]
    cases Archive.openAt tree path with
    | error cause => rfl
    | ok archive =>
      show _ = (List.range archive.entries.length).map (readEntry path archive)
      rw [← flatMap_chunkTask path archive size]
      rfl
  | directory path =>
    have htask : encounterTask path = fun met => [encounterFinding path met] := by
      funext met
      cases met <;> rfl
    rw [rootTasks, directoryTasks, htask, rootFindings, ← List.flatMap_def, List.map_eq_flatMap]

/-- The tasks of a classpath, concatenated, are the findings of its roots. -/
theorem flatten_tasks (tree : FileTree) (size : Nat) (roots : List Root) :
    (tasks tree size roots).flatten = roots.flatMap (rootFindings tree) := by
  rw [tasks, List.flatten_eq_flatMap, List.flatMap_assoc]
  apply List.flatMap_congr
  intro root _
  rw [← List.flatten_eq_flatMap, flatten_rootTasks]

end ClassAtlas.Scan
