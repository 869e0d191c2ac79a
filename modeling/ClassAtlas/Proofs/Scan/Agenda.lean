import ClassAtlas.Proofs.Graph.Denotation
import ClassAtlas.Proofs.Scan.Content
import ClassAtlas.Proofs.Scan.Course
import Mathlib

/-!
# Agenda of a scan

The agenda of a scan is the concatenation of the courses of its root actions. Its graph calls are
those of the classes of the classpath, and its counting actions are those classes, the failed
entries and the failed roots; both are independent of the chunk size. Specification: `SPEC_FULL.md`
§4.3, lines 49 and 51, and §10.6, lines 171–176.
-/

namespace ClassAtlas.Scan

namespace Action

/-! ### Calls and counts of a list of actions -/

/-- Graph call of an action. -/
def call? : Action → Option Call
  | .ensure name => some (.ensure name)
  | .relate fact => some (.addFact fact)
  | _ => none

/-- The action increments the class counter. -/
def isCount : Action → Bool
  | .count => true
  | _ => false

/-- The action reports a failed entry. -/
def isEntryFailure : Action → Bool
  | .settle finding => finding.isEntryFailure
  | _ => false

/-- The action reports a failed root. -/
def isRootFailure : Action → Bool
  | .settle finding => finding.isRootFailure
  | _ => false

/-- The graph after a list of actions is the result of their calls. -/
theorem graph_foldl_apply {α : Type} [Zero α] (originOf : String → Origin) (log : List Action)
    (progress : Progress α) :
    (log.foldl (apply originOf) progress).graph =
      (log.filterMap call?).foldl (Call.perform originOf) progress.graph := by
  induction log generalizing progress with
  | nil => rfl
  | cons action log ih =>
    rw [List.foldl_cons, ih, List.filterMap_cons]
    cases action with
    | settle finding => cases finding <;> rfl
    | _ => rfl

/-- The counters after a list of actions are the numbers of counting actions. -/
theorem counts_foldl_apply {α : Type} [Zero α] (originOf : String → Origin) (log : List Action)
    (progress : Progress α) :
    (log.foldl (apply originOf) progress).counts =
      { classesParsed := progress.counts.classesParsed + log.countP isCount
        entriesFailed := progress.counts.entriesFailed + log.countP isEntryFailure
        rootsFailed := progress.counts.rootsFailed + log.countP isRootFailure } := by
  induction log generalizing progress with
  | nil => rfl
  | cons action log ih =>
    have hstep : (apply originOf progress action).counts =
        { classesParsed := progress.counts.classesParsed + (isCount action).toNat
          entriesFailed := progress.counts.entriesFailed + (isEntryFailure action).toNat
          rootsFailed := progress.counts.rootsFailed + (isRootFailure action).toNat } := by
      cases action with
      | settle finding => cases finding <;> rfl
      | _ => rfl
    have hcons : ∀ p : Action → Bool,
        (action :: log).countP p = (p action).toNat + log.countP p := by
      intro p
      rw [List.countP_cons, Nat.add_comm]
      cases p action <;> rfl
    rw [List.foldl_cons, ih, hstep, hcons, hcons, hcons]
    simp only [Nat.add_assoc]

end Action

/-! ### Agenda -/

/-- Graph calls of a class: the node, then each relation. -/
def classCalls (file : ClassFile) : List Call :=
  .ensure file.externalName :: file.facts.map .addFact

/-- Graph calls of the classes of a classpath. -/
def calls (tree : FileTree) (roots : List Root) : List Call :=
  (classes tree roots).flatMap classCalls

/-- Agenda of a scan: the courses of its roots. -/
def agenda (tree : FileTree) (chunkSize : Nat) (roots : List Root) : List Action :=
  (roots.map Action.enter).flatMap (Action.course tree chunkSize)

namespace Action

variable (tree : FileTree) (chunkSize : Nat)

/-- The action belongs to the settlement of a finding, as opposed to enumeration. -/
def isSettlement : Action → Bool
  | .enter _ => false
  | .openArchive _ => false
  | .handOut _ => false
  | .look _ => false
  | _ => true

/-- Enumeration makes no graph calls. -/
theorem filterMap_call_filter (log : List Action) :
    (log.filter isSettlement).filterMap call? = log.filterMap call? := by
  rw [List.filterMap_filter]
  congr
  funext action
  cases action <;> rfl

/-- A predicate on settlement actions counts the same with and without enumeration. -/
theorem countP_filter_isSettlement {p : Action → Bool}
    (hp : ∀ action, p action → action.isSettlement) (log : List Action) :
    (log.filter isSettlement).countP p = log.countP p := by
  rw [List.countP_filter]
  apply List.countP_congr
  intro action _
  rw [Bool.and_eq_true]
  exact ⟨And.left, fun h => ⟨h, hp action h⟩⟩

/-- Counting and failure reports are settlement actions. -/
theorem isSettlement_of_counts :
    (∀ action : Action, action.isCount → action.isSettlement) ∧
      (∀ action : Action, action.isEntryFailure → action.isSettlement) ∧
      ∀ action : Action, action.isRootFailure → action.isSettlement := by
  refine ⟨?_, ?_, ?_⟩
  · intro action
    cases action <;> simp [isCount, isSettlement]
  · intro action
    cases action <;> simp [isEntryFailure, isSettlement]
  · intro action
    cases action <;> simp [isRootFailure, isSettlement]

/-- Insertion actions have no followers. -/
theorem course_insertion {action : Action} {file : ClassFile} (h : action ∈ insertionActions file) :
    action.course tree chunkSize = [action] := by
  rw [course_eq]
  simp only [insertionActions, List.cons_append, List.mem_cons, List.mem_append, List.mem_map,
    List.not_mem_nil, or_false] at h
  rcases h with rfl | ⟨fact, -, rfl⟩ | rfl
  · rfl
  · rfl
  · rfl

/-- The course of settling a decoded class: confirmation and insertion. -/
theorem course_settle_decoded (file : ClassFile) :
    (settle (.decoded file)).course tree chunkSize =
      .settle (.decoded file) :: .confirm file :: insertionActions file := by
  have hinsert : (insertionActions file).flatMap (course tree chunkSize) =
      insertionActions file := by
    rw [List.flatMap_congr fun action h => course_insertion tree chunkSize h]
    exact (List.map_eq_flatMap (f := id)).symm.trans (List.map_id _)
  rw [course_eq]
  show _ :: [confirm file].flatMap (course tree chunkSize) = _
  rw [List.flatMap_singleton, course_eq]
  show _ :: _ :: (insertionActions file ++ []).flatMap (course tree chunkSize) = _
  rw [List.append_nil, hinsert]

/-- The course of settling any other finding is the settlement alone. -/
theorem course_settle_of_none {finding : Finding} (h : finding.class? = none) :
    (settle finding).course tree chunkSize = [.settle finding] := by
  rw [course_eq]
  cases finding with
  | decoded file => cases h
  | ignored => rfl
  | entryFailed error => rfl
  | rootFailed root cause => rfl

/-- The graph calls of a settlement are those of its class. -/
theorem filterMap_call_course_settle (finding : Finding) :
    ((settle finding).course tree chunkSize).filterMap call? =
      finding.class?.toList.flatMap classCalls := by
  cases hclass : finding.class? with
  | none =>
    rw [course_settle_of_none tree chunkSize hclass]
    rfl
  | some file =>
    obtain rfl := Finding.eq_decoded hclass
    have hfacts : (file.facts.map relate).filterMap call? = file.facts.map .addFact := by
      rw [List.filterMap_map]
      exact congrFun List.filterMap_eq_map file.facts
    rw [course_settle_decoded]
    show Call.ensure _ :: (file.facts.map relate ++ [count]).filterMap call? = _
    rw [List.filterMap_append, hfacts]
    rfl

/-- A settlement increments at most one counter, determined by the finding. -/
theorem countP_course_settle (finding : Finding) :
    ((settle finding).course tree chunkSize).countP isCount = finding.class?.toList.length ∧
      ((settle finding).course tree chunkSize).countP isEntryFailure =
        finding.isEntryFailure.toNat ∧
      ((settle finding).course tree chunkSize).countP isRootFailure =
        finding.isRootFailure.toNat := by
  cases hclass : finding.class? with
  | none =>
    rw [course_settle_of_none tree chunkSize hclass]
    cases finding <;> exact ⟨rfl, rfl, rfl⟩
  | some file =>
    obtain rfl := Finding.eq_decoded hclass
    rw [course_settle_decoded]
    have hnone : ∀ p : Action → Bool, (∀ fact, p (.relate fact) = false) →
        (file.facts.map relate).countP p = 0 := by
      intro p hp
      rw [List.countP_map, List.countP_eq_zero]
      intro fact _
      rw [Function.comp_apply, hp]
      exact Bool.false_ne_true
    simp only [insertionActions, List.cons_append, List.countP_cons, List.countP_append,
      hnone isCount fun _ => rfl, hnone isEntryFailure fun _ => rfl,
      hnone isRootFailure fun _ => rfl]
    exact ⟨rfl, rfl, rfl⟩

/-- Every action in the course of a settlement is a settlement action. -/
theorem filter_course_settle (finding : Finding) :
    ((settle finding).course tree chunkSize).filter isSettlement =
      (settle finding).course tree chunkSize := by
  rw [List.filter_eq_self]
  intro action haction
  cases hclass : finding.class? with
  | none =>
    rw [course_settle_of_none tree chunkSize hclass, List.mem_singleton] at haction
    subst haction
    rfl
  | some file =>
    obtain rfl := Finding.eq_decoded hclass
    simp only [course_settle_decoded, insertionActions, List.cons_append, List.mem_cons,
      List.mem_append, List.mem_map, List.not_mem_nil, or_false] at haction
    rcases haction with rfl | rfl | rfl | ⟨fact, -, rfl⟩ | rfl <;> rfl

private theorem filter_course_of_not {action : Action} (h : action.isSettlement = false) :
    (action.course tree chunkSize).filter isSettlement =
      (action.followers tree chunkSize).flatMap fun follower =>
        (follower.course tree chunkSize).filter isSettlement := by
  rw [course_eq, List.filter_cons_of_neg (by simp [h]), List.filter_flatMap]

private theorem filter_course_look (finding : Finding) :
    ((look finding).course tree chunkSize).filter isSettlement =
      (settle finding).course tree chunkSize := by
  rw [filter_course_of_not tree chunkSize rfl]
  show [settle finding].flatMap _ = _
  rw [List.flatMap_singleton, filter_course_settle]

private theorem filter_course_handOut (task : Task) :
    ((handOut task).course tree chunkSize).filter isSettlement =
      task.flatMap fun finding => (settle finding).course tree chunkSize := by
  rw [filter_course_of_not tree chunkSize rfl]
  show (task.map look ++ []).flatMap _ = _
  rw [List.append_nil, List.flatMap_map]
  exact List.flatMap_congr fun finding _ => filter_course_look tree chunkSize finding

/-- The settlement actions in the course of a root are the courses of its findings. -/
theorem filter_course_enter (root : Root) :
    ((enter root).course tree chunkSize).filter isSettlement =
      (rootFindings tree root).flatMap fun finding => (settle finding).course tree chunkSize := by
  rw [← flatten_rootTasks tree chunkSize root, filter_course_of_not tree chunkSize rfl,
    List.flatten_eq_flatMap, List.flatMap_assoc]
  cases root with
  | archive path =>
    show [openArchive path].flatMap _ = _
    rw [List.flatMap_singleton, filter_course_of_not tree chunkSize rfl]
    show (archiveActions tree chunkSize path ++ []).flatMap _ = (archiveTasks _ _ _).flatMap _
    rw [List.append_nil, archiveActions, archiveTasks]
    cases Archive.openAt tree path with
    | error cause =>
      show [settle (.rootFailed path cause)].flatMap _ =
        [[Finding.rootFailed path cause]].flatMap _
      rw [List.flatMap_singleton, List.flatMap_singleton, filter_course_settle]
      exact (List.flatMap_singleton _ _).symm
    | ok archive =>
      simp only [List.flatMap_map, filter_course_handOut]
      rfl
  | directory path =>
    show (directoryActions tree path ++ []).flatMap _ = (directoryTasks _ _).flatMap _
    rw [List.append_nil, directoryActions, directoryTasks, List.flatMap_map, List.flatMap_map]
    apply List.flatMap_congr
    intro met _
    cases met with
    | classFile file => exact filter_course_handOut tree chunkSize [readFound path file]
    | obstacle =>
      exact (filter_course_look tree chunkSize (obstacleFinding path)).trans
        (List.flatMap_singleton _ _).symm

end Action

/-! ### Contents of the agenda -/

variable (tree : FileTree) (chunkSize : Nat) (roots : List Root)

/-- The settlement actions of the agenda are the courses of the findings of all roots. -/
theorem filter_agenda :
    (agenda tree chunkSize roots).filter Action.isSettlement =
      (roots.flatMap (rootFindings tree)).flatMap fun finding =>
        (Action.settle finding).course tree chunkSize := by
  rw [agenda, List.flatMap_map, List.filter_flatMap, List.flatMap_assoc]
  exact List.flatMap_congr fun root _ => Action.filter_course_enter tree chunkSize root

/-- A filter that is determined by the class on settlements, and empty otherwise, commutes with the
agenda. -/
theorem filterMap_agenda {β : Type} {f : Action → Option β} {g : ClassFile → List β}
    (hnone : ∀ action : Action, action.isSettlement = false → f action = none)
    (hcourse : ∀ finding : Finding, ((Action.settle finding).course tree chunkSize).filterMap f =
      finding.class?.toList.flatMap g) :
    (agenda tree chunkSize roots).filterMap f = (classes tree roots).flatMap g := by
  have hroot : ∀ root, (rootFindings tree root).flatMap (fun finding =>
      finding.class?.toList.flatMap g) = (rootClasses tree root).flatMap g := by
    intro root
    rw [← (rootFindings_cases tree root).1, List.filterMap_eq_flatMap_toList, List.flatMap_assoc]
  have hsettlement : (agenda tree chunkSize roots).filterMap f =
      ((agenda tree chunkSize roots).filter Action.isSettlement).filterMap f := by
    rw [List.filterMap_filter]
    apply List.filterMap_congr
    intro action _
    cases haction : action.isSettlement with
    | false => exact hnone action haction
    | true => rfl
  rw [hsettlement, filter_agenda, List.filterMap_flatMap, List.flatMap_assoc, classes,
    List.flatMap_assoc]
  simp only [hcourse]
  exact List.flatMap_congr fun root _ => hroot root

/-- The graph calls of the agenda are those of the classes of the classpath. -/
theorem filterMap_call_agenda :
    (agenda tree chunkSize roots).filterMap Action.call? = calls tree roots := by
  refine filterMap_agenda tree chunkSize roots ?_
    (Action.filterMap_call_course_settle tree chunkSize)
  intro action haction
  cases action <;> first | rfl | cases haction

/-- Counts in the course of a root are those of its findings. -/
theorem Action.countP_course_enter {p : Action → Bool} {q : Finding → Nat}
    (hp : ∀ action, p action → action.isSettlement)
    (hq : ∀ finding, ((settle finding).course tree chunkSize).countP p = q finding) (root : Root) :
    ((enter root).course tree chunkSize).countP p = ((rootFindings tree root).map q).sum := by
  rw [← countP_filter_isSettlement hp, filter_course_enter, List.countP_flatMap]
  congr 2
  funext finding
  exact hq finding

private theorem sum_map_toNat {β : Type} (p : β → Bool) (items : List β) :
    (items.map fun item => (p item).toNat).sum = items.countP p := by
  induction items with
  | nil => rfl
  | cons item items ih =>
    rw [List.map_cons, List.sum_cons, ih, List.countP_cons, Nat.add_comm]
    cases p item <;> rfl

/-- The agenda counts every class, every failed entry and every failed root once. -/
theorem countP_agenda :
    (agenda tree chunkSize roots).countP Action.isCount = (classes tree roots).length ∧
      (agenda tree chunkSize roots).countP Action.isEntryFailure =
        (roots.map (rootFailures tree)).sum ∧
      (agenda tree chunkSize roots).countP Action.isRootFailure =
        roots.countP (isUnopenable tree) := by
  have hagenda : ∀ p : Action → Bool, (agenda tree chunkSize roots).countP p =
      (roots.map fun root => ((Action.enter root).course tree chunkSize).countP p).sum := by
    intro p
    rw [agenda, List.flatMap_map, List.countP_flatMap]
    rfl
  have hcourse := Action.countP_course_settle tree chunkSize
  obtain ⟨hcount, hentry, hroot⟩ := Action.isSettlement_of_counts
  refine ⟨?_, ?_, ?_⟩
  · rw [hagenda, classes, List.length_flatMap]
    congr 2
    funext root
    rw [Action.countP_course_enter tree chunkSize hcount fun finding => (hcourse finding).1,
      ← (rootFindings_cases tree root).1, List.filterMap_eq_flatMap_toList, List.length_flatMap]
  · rw [hagenda]
    congr 2
    funext root
    rw [Action.countP_course_enter tree chunkSize hentry fun finding => (hcourse finding).2.1,
      sum_map_toNat, (rootFindings_cases tree root).2.1]
  · rw [hagenda, ← sum_map_toNat]
    congr 2
    funext root
    rw [Action.countP_course_enter tree chunkSize hroot fun finding => (hcourse finding).2.2,
      sum_map_toNat, (rootFindings_cases tree root).2.2]

end ClassAtlas.Scan
