import ClassAtlas.Proofs.Scan.Completion
import Mathlib

/-!
# Atomicity of class insertion

A worker that has passed the poll before a class inserts the whole class before its next poll. At
the end of a scan, cancelled or not, the graph therefore consists of whole classes of the classpath.
Specification: `SPEC_FULL.md` §4.3, line 50, and §10.7, lines 192–193.
-/

namespace ClassAtlas.Scan

namespace Action

/-- The action inserts a part of a class. -/
def isInsertion : Action → Bool
  | .ensure _ | .relate _ | .count => true
  | _ => false

/-- Class whose insertion is preceded by the poll of the action. -/
def confirmed? : Action → Option ClassFile
  | .confirm file => some file
  | _ => none

/-- Class whose insertion starts with the action, depending on the cancel flag. -/
def takes (stop : Bool) (action : Action) : List ClassFile :=
  if stop then [] else action.confirmed?.toList

/-- Insertion actions are insertions. -/
theorem filter_insertionActions (file : ClassFile) :
    (insertionActions file).filter isInsertion = insertionActions file := by
  rw [List.filter_eq_self]
  intro action haction
  simp only [insertionActions, List.cons_append, List.mem_cons, List.mem_append, List.mem_map,
    List.not_mem_nil, or_false] at haction
  rcases haction with rfl | ⟨fact, -, rfl⟩ | rfl <;> rfl

private theorem filter_map_eq_nil {β : Type} {f : β → Action}
    (h : ∀ item, (f item).isInsertion = false) (items : List β) :
    (items.map f).filter isInsertion = [] := by
  rw [List.filter_map, List.map_eq_nil_iff, List.filter_eq_nil_iff]
  intro item _
  simp [h]

private theorem filter_next (tree : FileTree) (chunkSize : Nat) (action : Action) :
    (action.next tree chunkSize).filter isInsertion =
      (action.takes false).flatMap insertionActions := by
  cases action with
  | enter root =>
    cases root with
    | archive path => rfl
    | directory path => exact filter_map_eq_nil (fun met => by cases met <;> rfl) _
  | openArchive path =>
    show (archiveActions tree chunkSize path).filter isInsertion = []
    unfold archiveActions
    split
    · rfl
    · exact filter_map_eq_nil (fun _ => rfl) _
  | settle finding => cases finding <;> rfl
  | confirm file =>
    show (insertionActions file).filter isInsertion = [file].flatMap insertionActions
    rw [filter_insertionActions, List.flatMap_singleton]
  | _ => rfl

private theorem filter_spawned (action : Action) : ∀ worker ∈ action.spawned,
    worker.filter isInsertion = [] := by
  intro worker hworker
  cases action with
  | enter root =>
    cases root with
    | archive path =>
      obtain rfl := List.mem_singleton.mp hworker
      rfl
    | directory path => cases hworker
  | handOut task =>
    obtain rfl := List.mem_singleton.mp hworker
    exact filter_map_eq_nil (fun _ => rfl) _
  | _ => cases hworker

end Action

/-! ### Workers -/

/-- The insertions of a worker precede its other actions. -/
def Worker.IsOrdered (worker : Worker) : Prop :=
  worker.Pairwise fun first later => later.isInsertion → first.isInsertion

/-- A worker without insertions is ordered. -/
theorem Worker.isOrdered_of_filter_eq_nil {worker : Worker}
    (h : worker.filter Action.isInsertion = []) : worker.IsOrdered := by
  apply List.pairwise_of_forall_mem_list
  intro _ _ later hlater hinsertion
  exact absurd hinsertion (List.filter_eq_nil_iff.mp h later hlater)

/-- The insertion actions of a class are ordered. -/
theorem Worker.isOrdered_insertionActions (file : ClassFile) :
    Worker.IsOrdered (insertionActions file) := by
  apply List.pairwise_of_forall_mem_list
  intro first hfirst _ _ _
  exact List.filter_eq_self.mp (Action.filter_insertionActions file) first hfirst

variable {α : Type} [Zero α] {originOf : String → Origin}

section Perform

variable {action : Action} {rest : Worker}

private theorem filter_rest (h : Worker.IsOrdered (action :: rest))
    (hinsertion : action.isInsertion = false) : rest.filter Action.isInsertion = [] := by
  rw [List.filter_eq_nil_iff]
  intro later hlater hlaterInsertion
  have hfirst := List.rel_of_pairwise_cons h hlater hlaterInsertion
  rw [hinsertion] at hfirst
  cases hfirst

private theorem isOrdered_next (tree : FileTree) (chunkSize : Nat)
    (h : Worker.IsOrdered (action :: rest)) :
    Worker.IsOrdered (action.next tree chunkSize ++ rest) := by
  cases hinsertion : action.isInsertion with
  | true =>
    -- Insertion actions have no followers.
    have hnext : action.next tree chunkSize = [] := by
      cases action <;> first | rfl | cases hinsertion
    rw [hnext]
    exact h.of_cons
  | false =>
    cases hconfirmed : action.confirmed? with
    | none =>
      apply Worker.isOrdered_of_filter_eq_nil
      rw [List.filter_append, filter_rest h hinsertion, Action.filter_next, Action.takes,
        hconfirmed]
      rfl
    | some file =>
      obtain rfl : action = .confirm file := by
        cases action <;> first | exact congrArg _ (Option.some.inj hconfirmed) | cases hconfirmed
      refine List.pairwise_append.mpr ⟨Worker.isOrdered_insertionActions file, h.of_cons, ?_⟩
      intro first hfirst _ _ _
      exact List.filter_eq_self.mp (Action.filter_insertionActions file) first hfirst

/-- The insertions that remain after an action, in its worker and in spawned ones, are those of the
class it confirms and those that remained before; ordered workers stay ordered. -/
theorem Action.perform_takes (originOf : String → Origin) (tree : FileTree) (chunkSize : Nat)
    (stop : Bool) (progress : Progress α) (h : Worker.IsOrdered (action :: rest)) :
    let effect := action.perform tree originOf chunkSize stop rest progress
    (effect.rest ++ effect.workers.flatten).filter isInsertion =
        (action.takes stop).flatMap insertionActions ++ rest.filter isInsertion ∧
      effect.rest.IsOrdered ∧ ∀ worker ∈ effect.workers, worker.IsOrdered := by
  intro effect
  have hordered := isOrdered_next tree chunkSize h
  cases stop with
  | false =>
    have heffect : effect = _ := perform_go originOf tree chunkSize rest progress action
    have hspawned : action.spawned.flatten.filter isInsertion = [] := by
      rw [List.filter_flatten, List.flatten_eq_nil_iff, List.forall_mem_map]
      exact filter_spawned action
    rw [heffect]
    refine ⟨?_, hordered, fun worker hworker =>
      Worker.isOrdered_of_filter_eq_nil (filter_spawned action worker hworker)⟩
    rw [List.filter_append, hspawned, List.append_nil, List.filter_append, filter_next]
  | true =>
    obtain ⟨hsub, hworkers, -⟩ := perform_stop originOf tree chunkSize rest progress action
    have hnone : effect.workers = [] := hworkers
    refine ⟨?_, hordered.sublist hsub, fun worker hworker => ?_⟩
    · show (effect.rest ++ effect.workers.flatten).filter isInsertion = rest.filter isInsertion
      rw [hnone, List.flatten_nil, List.append_nil]
      -- A worker without remaining actions has no remaining insertions.
      cases action with
      | enter root => cases root <;> exact (filter_rest h rfl).symm
      | openArchive path => exact (filter_rest h rfl).symm
      | handOut task => exact (filter_rest h rfl).symm
      | look finding => exact (filter_rest h rfl).symm
      | settle finding => cases finding <;> rfl
      | _ => rfl
    · rw [hnone] at hworker
      cases hworker

end Perform

/-! ### Runs -/

namespace Run

/-- The list `taken` consists of the classes whose insertion has started: each has been confirmed,
the logged and remaining insertions are theirs, and all workers are ordered. -/
structure IsWhole (log : List Action) (taken : List ClassFile) (run : Run α) : Prop where
  ordered : ∀ worker ∈ run.workers, worker.IsOrdered
  insertions : ((log ++ run.workers.flatten).filter Action.isInsertion).Perm
    (taken.flatMap insertionActions)
  confirmed : taken.Subperm (log.filterMap Action.confirmed?)

omit [Zero α] in
/-- At the start, no insertion has started. -/
theorem isWhole_start (run : Run α) {scheduler : Scheduler} :
    IsWhole [] [] { run with scheduler, workers := [run.scheduler.roots.map .enter] } := by
  have hnone : (run.scheduler.roots.map Action.enter).filter Action.isInsertion = [] :=
    Action.filter_map_eq_nil (fun _ => rfl) _
  constructor
  case ordered =>
    intro worker hworker
    obtain rfl := List.mem_singleton.mp hworker
    exact Worker.isOrdered_of_filter_eq_nil hnone
  case insertions =>
    rw [List.nil_append, List.flatten_singleton, hnone]
    exact List.Perm.refl _
  case confirmed => exact List.Subperm.refl _

/-- A worker step extends the log by its action and `taken` by the class it confirms. -/
theorem IsWhole.work {tree : FileTree} {log : List Action} {taken : List ClassFile} {run : Run α}
    {action : Action} {rest : Worker} {effect : Effect α} {before after : List Worker}
    (h : run.IsWhole log taken) (hworkers : run.workers = before ++ (action :: rest) :: after)
    (heffect : action.perform tree originOf run.scheduler.config.chunkSize
      run.scheduler.cancelRequested rest run.progress = effect) :
    IsWhole (log ++ [action]) (taken ++ action.takes run.scheduler.cancelRequested)
      { run with
        progress := effect.progress
        workers := before ++ effect.rest :: after ++ effect.workers } := by
  have hordered := h.ordered
  have hinsertions := h.insertions
  rw [hworkers] at hordered hinsertions
  have haction : Worker.IsOrdered (action :: rest) := hordered _ (by simp)
  obtain ⟨hfilter, hrest, hspawned⟩ := Action.perform_takes originOf tree
    run.scheduler.config.chunkSize run.scheduler.cancelRequested run.progress haction
  rw [heffect] at hfilter hrest hspawned
  constructor
  case ordered =>
    intro worker hworker
    simp only [List.mem_append, List.mem_cons] at hworker
    obtain (hbefore | rfl | hafter) | hnew := hworker
    · exact hordered worker (by simp [hbefore])
    · exact hrest
    · exact hordered worker (by simp [hafter])
    · exact hspawned worker hnew
  case insertions =>
    -- The lists are concatenated in different orders, so the permutation is shown by counting.
    classical
    rw [List.perm_iff_count] at hinsertions ⊢
    intro other
    have hcount := congrArg (List.count other) hfilter
    have hbefore := hinsertions other
    simp only [List.flatten_append, List.flatten_cons, List.filter_append, List.flatMap_append,
      List.count_append, List.filter_cons, List.filter_nil, List.cons_append] at hcount hbefore ⊢
    cases hinsertion : action.isInsertion with
    | false =>
      simp only [hinsertion, Bool.false_eq_true, if_false, List.count_append, List.count_nil]
        at hbefore ⊢
      omega
    | true =>
      simp only [hinsertion, if_true, List.count_append, List.count_cons, List.count_nil]
        at hbefore ⊢
      omega
  case confirmed =>
    rw [List.filterMap_append]
    refine h.confirmed.append (List.Sublist.subperm ?_)
    cases action <;> cases run.scheduler.cancelRequested <;> simp [Action.takes, Action.confirmed?]

/-- A started run has a log and a list of classes whose insertion has started. -/
theorem exists_log {tree : FileTree} {roots : List Root} {config : ScanConfig} {events : List Event}
    {run : Run α} (hsteps : Steps tree originOf (Run.idle roots config) events run)
    (hbegun : run.scheduler.state ≠ .idle) :
    ∃ log taken, run.IsLogged tree originOf log ∧ run.IsWhole log taken := by
  induction hsteps with
  | refl => exact absurd rfl hbegun
  | tail hsteps hstep ih =>
    cases hstep with
    | start hstart =>
      obtain ⟨hidle, -⟩ := Scheduler.start_eq_ok_iff.mp hstart
      obtain ⟨hprogress, -⟩ := (isSound_of_steps hsteps).idle hidle
      exact ⟨[], [], IsLogged.start hprogress hstart, isWhole_start _⟩
    | refuse => exact ih hbegun
    | cancel =>
      obtain ⟨log, taken, hlog, hwhole⟩ := ih hbegun
      exact ⟨log, taken, hlog.cancel, hwhole.ordered, hwhole.insertions, hwhole.confirmed⟩
    | wait => exact ih hbegun
    | work before after hworkers heffect =>
      obtain ⟨log, taken, hlog, hwhole⟩ := ih hbegun
      exact ⟨_, _, hlog.work hworkers heffect, hwhole.work hworkers heffect⟩
    | finish hscanning =>
      obtain ⟨log, taken, hlog, hwhole⟩ := ih (by rw [hscanning]; exact nofun)
      exact ⟨log, taken, ⟨hlog.progress, hlog.agenda⟩, hwhole.ordered, hwhole.insertions,
        hwhole.confirmed⟩

end Run

/-! ### Result of an interrupted scan -/

/-- Partial result of a scan: its graph and its class counter are those of a sub-multiset of the
classes of the classpath, and its failure counters are at most those of the classpath. -/
structure Progress.IsPartOf (tree : FileTree) (originOf : String → Origin) (roots : List Root)
    (taken : List ClassFile) (progress : Progress α) : Prop where
  classes : taken.Subperm (classes tree roots)
  graph : IsGraphOf originOf taken progress.graph
  classesParsed : progress.counts.classesParsed = taken.length
  entriesFailed : progress.counts.entriesFailed ≤ (roots.map (rootFailures tree)).sum
  rootsFailed : progress.counts.rootsFailed ≤ roots.countP (isUnopenable tree)

/-- The polls before insertions in the agenda are those of the classes of the classpath. -/
theorem filterMap_confirmed_agenda (tree : FileTree) (chunkSize : Nat) (roots : List Root) :
    (agenda tree chunkSize roots).filterMap Action.confirmed? = classes tree roots := by
  rw [filterMap_agenda (g := fun file => [file]), List.flatMap_singleton']
  · intro action haction
    cases action <;> first | rfl | cases haction
  · intro finding
    cases hclass : finding.class? with
    | none =>
      rw [Action.course_settle_of_none tree chunkSize hclass]
      rfl
    | some file =>
      obtain rfl := Finding.eq_decoded hclass
      have hinsertion : (insertionActions file).filterMap Action.confirmed? = [] := by
        rw [List.filterMap_eq_nil_iff]
        intro action haction
        have hins := List.filter_eq_self.mp (Action.filter_insertionActions file) action haction
        cases action <;> first | rfl | cases hins
      rw [Action.course_settle_decoded]
      show file :: (insertionActions file).filterMap Action.confirmed? = [file]
      rw [hinsertion]

/-- The insertions of some classes make their graph calls and count each of them. -/
theorem Action.insertions_of_classes (taken : List ClassFile) :
    (taken.flatMap insertionActions).filterMap call? = taken.flatMap classCalls ∧
      (taken.flatMap insertionActions).countP isCount = taken.length := by
  have hcalls : ∀ file, (insertionActions file).filterMap call? = classCalls file := by
    intro file
    simp [insertionActions, classCalls, call?, List.filterMap_map, Function.comp_def]
  have hcount : ∀ file, (insertionActions file).countP isCount = 1 := by
    intro file
    simp [insertionActions, isCount, List.countP_map, Function.comp_def]
  constructor
  · simp only [List.filterMap_flatMap, hcalls]
  · simp only [List.countP_flatMap, Function.comp_def, hcount]
    simp

/-- Without remaining actions, the progress is a partial result. -/
theorem Run.IsWhole.isPartOf {tree : FileTree} {log : List Action} {taken : List ClassFile}
    {run : Run α} (h : run.IsWhole log taken) (hlog : run.IsLogged tree originOf log)
    (hdone : ∀ worker ∈ run.workers, worker = []) :
    run.progress.IsPartOf tree originOf run.scheduler.roots taken := by
  obtain ⟨hprogress, dropped, -, hperm⟩ := hlog
  have hnothing : run.workers.flatten = [] := List.flatten_eq_nil_iff.mpr hdone
  have hinsertions := h.insertions
  rw [hnothing, List.append_nil] at hinsertions
  rw [toCome, hnothing, List.flatMap_nil, List.append_nil] at hperm
  have hdoneOf : log.Subperm (agenda tree run.scheduler.config.chunkSize run.scheduler.roots) :=
    (List.sublist_append_left log dropped).subperm.trans hperm.subperm
  obtain ⟨hcalls, hcount⟩ := Action.insertions_of_classes taken
  obtain ⟨-, hentries, hroots⟩ := countP_agenda tree run.scheduler.config.chunkSize
    run.scheduler.roots
  have hcounts := Action.counts_foldl_apply originOf log { graph := (.empty : Graph α) }
  rw [← hprogress] at hcounts
  constructor
  case classes =>
    rw [← filterMap_confirmed_agenda tree run.scheduler.config.chunkSize]
    refine h.confirmed.trans (List.Subperm.trans ?_ (hperm.filterMap _).subperm)
    rw [List.filterMap_append]
    exact (List.sublist_append_left _ _).subperm
  case graph =>
    have hperformed : (log.filterMap Action.call?).Perm (taken.flatMap classCalls) := by
      rw [← hcalls]
      refine List.Perm.trans (List.Perm.of_eq ?_) (hinsertions.filterMap _)
      rw [List.filterMap_filter]
      congr
      funext action
      cases action <;> rfl
    rw [hprogress, Action.graph_foldl_apply]
    exact isGraphOf_performAll hperformed
  case classesParsed =>
    rw [hcounts, ← hcount, ← hinsertions.countP_eq, List.countP_filter]
    simp only [Nat.zero_add]
    congr
    funext action
    cases action <;> rfl
  case entriesFailed =>
    rw [hcounts, ← hentries]
    simpa using hdoneOf.countP_le _
  case rootsFailed =>
    rw [hcounts, ← hroots]
    simpa using hdoneOf.countP_le _

end ClassAtlas.Scan
