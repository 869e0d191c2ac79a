import ClassAtlas.Proofs.Scan.Agenda
import Mathlib

/-!
# Completion of scans

At every point of a run, the performed actions, the abandoned actions and the courses of the
remaining actions are a permutation of the agenda. A scan that is not cancelled therefore terminates
and its result is that of the classpath, independently of the schedule. Specification:
`SPEC_FULL.md` §4.3, lines 48–51, and §5, line 65.
-/

namespace ClassAtlas

/-- A scheduler starts exactly from the state `idle`. -/
theorem Scheduler.start_eq_ok_iff {scheduler next : Scheduler} :
    scheduler.start = .ok next ↔
      scheduler.state = .idle ∧ next = { scheduler with state := .scanning } := by
  unfold start
  split
  · next hidle => simp [hidle, eq_comm]
  · next hnot => simp [hnot]

/-- A scheduler in any other state refuses to start. -/
theorem Scheduler.start_eq_error_iff {scheduler : Scheduler} {error : SchedulerError} :
    scheduler.start = .error error ↔ scheduler.state ≠ .idle ∧ error = .alreadyStarted := by
  unfold start
  split
  · next hidle => simp [hidle]
  · next hnot => simp [hnot]

namespace Scan

variable {α : Type} [Zero α] {originOf : String → Origin}

/-! ### Result of a scan -/

/-- Graph after the sequential insertion of some classes. -/
def graphOf (originOf : String → Origin) (files : List ClassFile) : Graph α :=
  files.foldl (fun graph file => Progress.insert originOf file graph) .empty

/-- Sequential insertion of classes is the sequence of their graph calls. -/
theorem graphOf_eq (files : List ClassFile) :
    graphOf (α := α) originOf files = Call.performAll originOf (files.flatMap classCalls) := by
  have hinsert : ∀ (file : ClassFile) (graph : Graph α), Progress.insert originOf file graph =
      (classCalls file).foldl (Call.perform originOf) graph := by
    intro file graph
    rw [classCalls, List.foldl_cons, List.foldl_map]
    rfl
  rw [graphOf, Call.performAll, List.foldl_flatMap]
  simp only [hinsert]

/-- The graph results from some order of the single calls of the classes. Its nodes, origins and
related pairs are those of sequential insertion in any order, and so are its weights as long as
totals are exact. -/
structure IsGraphOf (originOf : String → Origin) (files : List ClassFile) (graph : Graph α) :
    Prop where
  performed : ∃ order : List Call, order.Perm (files.flatMap classCalls) ∧
    graph = Call.performAll originOf order
  sameShape {order : List ClassFile} : order.Perm files → graph.SameShape (graphOf originOf order)
  weights {order : List ClassFile} :
    (∀ a b, a ≠ b → Call.total s(a, b) (files.flatMap classCalls) ≤ 2 ^ 24) →
    order.Perm files → graph = graphOf originOf order

/-- Calls in any order yield a graph of the classes. -/
theorem isGraphOf_performAll {files : List ClassFile} {order : List Call}
    (h : order.Perm (files.flatMap classCalls)) :
    IsGraphOf originOf files (Call.performAll originOf order : Graph α) where
  performed := ⟨order, h, rfl⟩
  sameShape := by
    intro other hperm
    rw [graphOf_eq]
    exact Graph.performAll_sameShape (h.trans (hperm.symm.flatMap_right classCalls))
  weights := by
    intro other hexact hperm
    rw [graphOf_eq, Graph.performAll_perm h hexact]
    exact (Graph.performAll_perm (hperm.flatMap_right classCalls) hexact).symm

/-- Result of a scan of a classpath: its graph results from the calls of the classes in some order,
with weights that are independent of that order as long as totals are exact; its counters are the
numbers of classes, failed entries and failed roots; every entry is counted or passed over. -/
structure Progress.IsScanOf (tree : FileTree) (originOf : String → Origin) (roots : List Root)
    (progress : Progress α) : Prop where
  performed : ∃ order : List Call, order.Perm (calls tree roots) ∧
    progress.graph = Call.performAll originOf order
  sameShape {order : List ClassFile} : order.Perm (classes tree roots) →
    progress.graph.SameShape (graphOf originOf order)
  graph {order : List ClassFile} :
    (∀ a b, a ≠ b → Call.total s(a, b) (calls tree roots) ≤ 2 ^ 24) →
    order.Perm (classes tree roots) → progress.graph = graphOf originOf order
  counts : progress.counts =
    { classesParsed := (classes tree roots).length
      entriesFailed := (roots.map (rootFailures tree)).sum
      rootsFailed := roots.countP (isUnopenable tree) }
  accounted : (roots.map (rootEntries tree)).sum = (roots.map (rootPassedOver tree)).sum +
    progress.counts.classesParsed + progress.counts.entriesFailed

/-- The actions of the agenda in any order yield the result of the classpath. -/
theorem isScanOf_of_perm {tree : FileTree} {chunkSize : Nat} {roots : List Root} {log : List Action}
    (h : (log.filter Action.isSettlement).Perm
      ((agenda tree chunkSize roots).filter Action.isSettlement)) :
    (log.foldl (Action.apply originOf) { graph := (.empty : Graph α) }).IsScanOf tree originOf
      roots := by
  have hcalls : (log.filterMap Action.call?).Perm (calls tree roots) := by
    rw [← filterMap_call_agenda tree chunkSize roots, ← Action.filterMap_call_filter log,
      ← Action.filterMap_call_filter (agenda _ _ _)]
    exact h.filterMap _
  have hcount : ∀ {p : Action → Bool}, (∀ action, p action → action.isSettlement) →
      log.countP p = (agenda tree chunkSize roots).countP p := by
    intro p hp
    rw [← Action.countP_filter_isSettlement hp, h.countP_eq, Action.countP_filter_isSettlement hp]
  have hgraph : (log.foldl (Action.apply originOf) { graph := (.empty : Graph α) }).graph =
      Call.performAll originOf (log.filterMap Action.call?) := Action.graph_foldl_apply _ _ _
  have hmade : IsGraphOf originOf (classes tree roots)
      (log.foldl (Action.apply originOf) { graph := (.empty : Graph α) }).graph :=
    hgraph ▸ isGraphOf_performAll hcalls
  have hcounts : (log.foldl (Action.apply originOf) { graph := (.empty : Graph α) }).counts =
      { classesParsed := (classes tree roots).length
        entriesFailed := (roots.map (rootFailures tree)).sum
        rootsFailed := roots.countP (isUnopenable tree) } := by
    obtain ⟨hclasses, hentries, hroots⟩ := countP_agenda tree chunkSize roots
    obtain ⟨hcount', hentry', hroot'⟩ := Action.isSettlement_of_counts
    rw [Action.counts_foldl_apply, hcount hcount', hcount hentry', hcount hroot', hclasses,
      hentries, hroots]
    simp only [Nat.zero_add]
  refine ⟨hmade.performed, hmade.sameShape, hmade.weights, hcounts, ?_⟩
  · rw [hcounts, classes, List.length_flatMap, ← List.sum_map_add, ← List.sum_map_add]
    congr 2
    funext root
    exact rootEntries_eq tree root

/-! ### Run invariant -/

namespace Run

/-- Courses of the remaining actions of all workers. -/
def toCome (tree : FileTree) (chunkSize : Nat) (workers : List Worker) : List Action :=
  workers.flatten.flatMap (Action.course tree chunkSize)

/-- Log of a run: the progress is the effect of the logged actions, and the logged, remaining and
abandoned actions are a permutation of the agenda. Actions are abandoned only after a
cancellation. -/
structure IsLogged (tree : FileTree) (originOf : String → Origin) (log : List Action)
    (run : Run α) : Prop where
  progress : run.progress = log.foldl (Action.apply originOf) { graph := .empty }
  agenda : ∃ dropped, (run.scheduler.cancelRequested = false → dropped = []) ∧
    (log ++ dropped ++ toCome tree run.scheduler.config.chunkSize run.workers).Perm
      (agenda tree run.scheduler.config.chunkSize run.scheduler.roots)

/-- A worker step extends the log by its action. -/
theorem IsLogged.work {tree : FileTree} {log : List Action} {run : Run α} {action : Action}
    {rest : Worker} {effect : Effect α} {before after : List Worker}
    (h : run.IsLogged tree originOf log)
    (hworkers : run.workers = before ++ (action :: rest) :: after)
    (heffect : action.perform tree originOf run.scheduler.config.chunkSize
      run.scheduler.cancelRequested rest run.progress = effect) :
    IsLogged tree originOf (log ++ [action])
      { run with
        progress := effect.progress
        workers := before ++ effect.rest :: after ++ effect.workers } := by
  obtain ⟨hprogress, dropped, hdropped, hperm⟩ := h
  obtain ⟨hafter, more, hmore, hleft⟩ := Action.perform_left originOf tree
    run.scheduler.config.chunkSize run.scheduler.cancelRequested rest run.progress action
  rw [heffect] at hafter hleft
  refine ⟨?_, dropped ++ more.flatMap (Action.course tree run.scheduler.config.chunkSize), ?_, ?_⟩
  · rw [List.foldl_append, ← hprogress]
    exact hafter
  · intro hgo
    rw [hdropped hgo, hmore hgo]
    rfl
  · refine List.Perm.trans ?_ hperm
    have hcourse := hleft.flatMap_right (Action.course tree run.scheduler.config.chunkSize)
    simp only [List.flatMap_append] at hcourse
    simp only [toCome, hworkers, List.flatten_append, List.flatten_cons, List.flatMap_append,
      List.flatMap_cons, Action.course_eq tree run.scheduler.config.chunkSize action]
    -- The lists are concatenated in different orders, so the permutation is shown by counting.
    classical
    rw [List.perm_iff_count] at hcourse ⊢
    intro other
    have := hcourse other
    simp only [List.count_append, List.count_cons, List.count_nil] at this ⊢
    omega

/-- A start yields the empty log with the whole agenda remaining. -/
theorem IsLogged.start {tree : FileTree} {run : Run α} {scheduler : Scheduler}
    (hprogress : run.progress = { graph := .empty })
    (hstart : run.scheduler.start = .ok scheduler) :
    IsLogged tree originOf []
      { run with scheduler, workers := [run.scheduler.roots.map .enter] } := by
  obtain ⟨-, rfl⟩ := Scheduler.start_eq_ok_iff.mp hstart
  refine ⟨hprogress, [], fun _ => rfl, ?_⟩
  rw [toCome, List.flatten_singleton]
  exact List.Perm.refl _

/-- A cancellation preserves the log. -/
theorem IsLogged.cancel {tree : FileTree} {log : List Action} {run : Run α}
    (h : run.IsLogged tree originOf log) :
    IsLogged tree originOf log { run with scheduler := run.scheduler.cancel } := by
  obtain ⟨hprogress, dropped, -, hperm⟩ := h
  exact ⟨hprogress, dropped, nofun, hperm⟩

/-- Without remaining actions and without cancellation, the progress is the result of the
classpath. -/
theorem IsLogged.isScanOf {tree : FileTree} {log : List Action} {run : Run α}
    (h : run.IsLogged tree originOf log) (hgo : run.scheduler.cancelRequested = false)
    (hdone : ∀ worker ∈ run.workers, worker = []) :
    run.progress.IsScanOf tree originOf run.scheduler.roots := by
  obtain ⟨hprogress, dropped, hdropped, hperm⟩ := h
  have hnothing : toCome tree run.scheduler.config.chunkSize run.workers = [] := by
    rw [toCome, List.flatten_eq_nil_iff.mpr hdone]
    rfl
  rw [hnothing, hdropped hgo, List.append_nil, List.append_nil] at hperm
  rw [hprogress]
  exact isScanOf_of_perm (hperm.filter _)

/-- Invariant of a run: constant roots and configuration, the meaning of the cancel flag and of the
state `cancelled`, an untouched progress before the start, a log after it, and no remaining actions
outside of the state `scanning`. -/
structure IsSound (tree : FileTree) (originOf : String → Origin) (roots : List Root)
    (config : ScanConfig) (events : List Event) (run : Run α) : Prop where
  roots : run.scheduler.roots = roots
  config : run.scheduler.config = config
  cancelled : run.scheduler.cancelRequested → .cancelled ∈ events
  interrupted : run.scheduler.state = .cancelled → run.scheduler.cancelRequested
  idle : run.scheduler.state = .idle → run.progress = { graph := .empty } ∧
    .started ∉ events ∧ events.count .worked = 0
  begun : run.scheduler.state ≠ .idle → ∃ log, run.IsLogged tree originOf log ∧
    events.count .worked = log.length + if run.scheduler.state = .scanning then 0 else 1
  ended : run.scheduler.state ≠ .scanning → ∀ worker ∈ run.workers, worker = []

variable {tree : FileTree} {roots : List Root} {config : ScanConfig} {events : List Event}

/-- The invariant holds initially. -/
theorem isSound_idle :
    (Run.idle roots config : Run α).IsSound tree originOf roots config [] where
  roots := rfl
  config := rfl
  cancelled h := nomatch h
  interrupted h := nomatch h
  idle _ := ⟨rfl, List.not_mem_nil, rfl⟩
  begun h := absurd rfl h
  ended _ := fun _ hworker => absurd hworker List.not_mem_nil

/-- An event is not counted among other events. -/
theorem count_concat_of_ne {event other : Event} (h : event ≠ other) (events : List Event) :
    (events ++ [event]).count other = events.count other := by
  rw [List.count_append, List.count_singleton, if_neg (by simpa using h), Nat.add_zero]

/-- Steps without effect preserve the invariant. -/
theorem IsSound.unchanged {run : Run α} (h : run.IsSound tree originOf roots config events)
    {event : Event} (hstarted : event ≠ .started) (hworked : event ≠ .worked) :
    run.IsSound tree originOf roots config (events ++ [event]) where
  roots := h.roots
  config := h.config
  cancelled hcancel := List.mem_append_left _ (h.cancelled hcancel)
  interrupted := h.interrupted
  idle hidle := by
    obtain ⟨hprogress, hnot, hcount⟩ := h.idle hidle
    refine ⟨hprogress, ?_, ?_⟩
    · rw [List.mem_append, List.mem_singleton]
      exact not_or.mpr ⟨hnot, hstarted.symm⟩
    · rw [count_concat_of_ne hworked, hcount]
  begun hbegun := by
    obtain ⟨log, hlog, hcount⟩ := h.begun hbegun
    exact ⟨log, hlog, (count_concat_of_ne hworked events).trans hcount⟩
  ended := h.ended

/-- A start preserves the invariant. -/
theorem IsSound.start {run : Run α} (h : run.IsSound tree originOf roots config events)
    {scheduler : Scheduler} (hstart : run.scheduler.start = .ok scheduler) :
    IsSound tree originOf roots config (events ++ [.started])
      { run with scheduler, workers := [run.scheduler.roots.map .enter] } := by
  obtain ⟨hidle, rfl⟩ := Scheduler.start_eq_ok_iff.mp hstart
  obtain ⟨hprogress, -, hcount⟩ := h.idle hidle
  exact {
    roots := h.roots
    config := h.config
    cancelled := fun hcancel => List.mem_append_left _ (h.cancelled hcancel)
    interrupted := nofun
    idle := nofun
    begun := fun _ => by
      refine ⟨[], IsLogged.start hprogress hstart, ?_⟩
      rw [List.count_append, hcount]
      rfl
    ended := fun hend => absurd rfl hend }

/-- A cancellation preserves the invariant. -/
theorem IsSound.cancel {run : Run α} (h : run.IsSound tree originOf roots config events) :
    IsSound tree originOf roots config (events ++ [.cancelled])
      { run with scheduler := run.scheduler.cancel } where
  roots := h.roots
  config := h.config
  cancelled _ := List.mem_append_right _ (List.mem_singleton_self _)
  interrupted _ := rfl
  idle := by
    have hunchanged : run.IsSound tree originOf roots config (events ++ [.cancelled]) :=
      h.unchanged nofun nofun
    exact hunchanged.idle
  begun hbegun := by
    obtain ⟨log, hlog, hcount⟩ := h.begun hbegun
    have hother : Event.cancelled ≠ .worked := nofun
    exact ⟨log, hlog.cancel, (count_concat_of_ne hother events).trans hcount⟩
  ended := h.ended

/-- A worker step preserves the invariant. -/
theorem IsSound.work {run : Run α} (h : run.IsSound tree originOf roots config events)
    {action : Action} {rest : Worker} {effect : Effect α} {before after : List Worker}
    (hworkers : run.workers = before ++ (action :: rest) :: after)
    (heffect : action.perform tree originOf run.scheduler.config.chunkSize
      run.scheduler.cancelRequested rest run.progress = effect) :
    IsSound tree originOf roots config (events ++ [.worked])
      { run with
        progress := effect.progress
        workers := before ++ effect.rest :: after ++ effect.workers } := by
  -- Remaining actions imply the state `scanning`.
  have hscanning : run.scheduler.state = .scanning := by
    by_contra hnot
    have hmem : action :: rest ∈ run.workers := by
      rw [hworkers]
      exact List.mem_append_right _ List.mem_cons_self
    exact absurd (h.ended hnot _ hmem) (List.cons_ne_nil _ _)
  obtain ⟨log, hlog, hcount⟩ := h.begun (by rw [hscanning]; exact nofun)
  exact {
    roots := h.roots
    config := h.config
    cancelled := fun hcancel => List.mem_append_left _ (h.cancelled hcancel)
    interrupted := h.interrupted
    idle := fun hidle => by
      rw [hscanning] at hidle
      cases hidle
    begun := fun _ => by
      refine ⟨log ++ [action], hlog.work hworkers heffect, ?_⟩
      rw [if_pos hscanning] at hcount ⊢
      rw [List.count_append, hcount, List.length_append]
      rfl
    ended := fun hend => absurd hscanning hend }

/-- The end of a scan preserves the invariant. -/
theorem IsSound.finish {run : Run α} (h : run.IsSound tree originOf roots config events)
    (hscanning : run.scheduler.state = .scanning) (hdone : ∀ worker ∈ run.workers, worker = []) :
    IsSound tree originOf roots config (events ++ [.worked])
      { run with
        scheduler.state := if run.scheduler.cancelRequested then .cancelled else .completed } := by
  obtain ⟨log, hlog, hcount⟩ := h.begun (by rw [hscanning]; exact nofun)
  rw [if_pos hscanning] at hcount
  exact {
    roots := h.roots
    config := h.config
    cancelled := fun hcancel => List.mem_append_left _ (h.cancelled hcancel)
    interrupted := fun hstate => by
      by_contra hnot
      rw [if_neg hnot] at hstate
      cases hstate
    idle := fun hidle => by
      split at hidle <;> cases hidle
    begun := fun _ => by
      refine ⟨log, ⟨hlog.progress, hlog.agenda⟩, ?_⟩
      have hend : (if run.scheduler.cancelRequested then ScanState.cancelled else .completed) ≠
          .scanning := by
        split <;> exact nofun
      rw [if_neg hend, List.count_append, hcount]
      rfl
    ended := fun _ => hdone }

/-- Every step preserves the invariant. -/
theorem IsSound.step {run next : Run α} {event : Event}
    (h : run.IsSound tree originOf roots config events)
    (hstep : Step tree originOf run event next) :
    next.IsSound tree originOf roots config (events ++ [event]) := by
  cases hstep with
  | start hstart => exact h.start hstart
  | refuse hstart => exact h.unchanged nofun nofun
  | cancel => exact h.cancel
  | wait hstate => exact h.unchanged nofun nofun
  | work before after hworkers heffect => exact h.work hworkers heffect
  | finish hscanning hdone => exact h.finish hscanning hdone

/-- Every run satisfies the invariant. -/
theorem isSound_of_steps {run : Run α}
    (hsteps : Steps tree originOf (Run.idle roots config) events run) :
    run.IsSound tree originOf roots config events := by
  induction hsteps with
  | refl => exact isSound_idle
  | tail _ hstep ih => exact ih.step hstep

/-- The number of worker steps of a run is bounded by the length of the agenda plus one. -/
theorem IsSound.count_worked_le {run : Run α} (h : run.IsSound tree originOf roots config events) :
    events.count .worked ≤ (agenda tree config.chunkSize roots).length + 1 := by
  by_cases hidle : run.scheduler.state = .idle
  · rw [(h.idle hidle).2.2]
    exact Nat.zero_le _
  · obtain ⟨log, ⟨-, dropped, -, hperm⟩, hcount⟩ := h.begun hidle
    have hlength := hperm.length_eq
    rw [h.config, h.roots, List.length_append, List.length_append] at hlength
    split at hcount
    · omega
    · omega

/-- The graph of a run is well-formed. -/
theorem IsSound.isWellFormed {run : Run α} (h : run.IsSound tree originOf roots config events) :
    run.progress.graph.IsWellFormed originOf := by
  by_cases hidle : run.scheduler.state = .idle
  · rw [(h.idle hidle).1]
    exact Graph.isWellFormed_empty originOf
  · obtain ⟨log, hlog, -⟩ := h.begun hidle
    rw [hlog.progress, Action.graph_foldl_apply]
    exact (Graph.records_performAll _).isWellFormed

/-- Progress: a run in the state `scanning` has a worker step. -/
theorem exists_step {run : Run α} (h : run.scheduler.state = .scanning) :
    ∃ next, Step tree originOf run .worked next := by
  by_cases hdone : ∀ worker ∈ run.workers, worker = []
  · exact ⟨_, .finish h hdone⟩
  · push Not at hdone
    obtain ⟨worker, hworker, hne⟩ := hdone
    obtain ⟨before, after, hworkers⟩ := List.append_of_mem hworker
    obtain ⟨action, rest, rfl⟩ := List.exists_cons_of_ne_nil hne
    exact ⟨_, .work before after hworkers rfl⟩

/-- A run that ended without cancellation has the result of the classpath. -/
theorem IsSound.isScanOf {run : Run α} (h : run.IsSound tree originOf roots config events)
    (hcompleted : run.scheduler.state = .completed) (hgo : .cancelled ∉ events) :
    run.progress.IsScanOf tree originOf roots := by
  have hnot : run.scheduler.cancelRequested = false :=
    Bool.eq_false_iff.mpr fun hcancel => hgo (h.cancelled hcancel)
  have hbegun : run.scheduler.state ≠ .idle := by
    rw [hcompleted]
    exact nofun
  have hended : run.scheduler.state ≠ .scanning := by
    rw [hcompleted]
    exact nofun
  obtain ⟨log, hlog, -⟩ := h.begun hbegun
  exact h.roots ▸ hlog.isScanOf hnot (h.ended hended)

end Run

/-! ### Sequential execution -/

/-- Absorbing a finding is performing its course. -/
theorem absorb_eq (tree : FileTree) (chunkSize : Nat) (progress : Progress α) (finding : Finding) :
    progress.absorb originOf finding =
      ((Action.settle finding).course tree chunkSize).foldl (Action.apply originOf) progress := by
  have hfacts : ∀ (facts : List Fact) (progress : Progress α),
      (facts.map Action.relate).foldl (Action.apply originOf) progress =
        { progress with graph := progress.graph.addFacts originOf facts } := by
    intro facts
    induction facts with
    | nil => exact fun _ => rfl
    | cons fact facts ih => exact fun progress => ih _
  cases hclass : finding.class? with
  | none =>
    rw [Action.course_settle_of_none tree chunkSize hclass]
    cases finding <;> first | rfl | cases hclass
  | some file =>
    obtain rfl := Finding.eq_decoded hclass
    rw [Action.course_settle_decoded, insertionActions, List.foldl_cons, List.foldl_cons,
      List.cons_append, List.foldl_cons, List.foldl_append, hfacts]
    rfl

/-- Sequential execution of the tasks yields the result of the classpath. -/
theorem absorbAll_isScanOf (tree : FileTree) (originOf : String → Origin) (chunkSize : Nat)
    (roots : List Root) :
    (Progress.absorbAll originOf { graph := (.empty : Graph α) }
      (tasks tree chunkSize roots)).IsScanOf tree originOf roots := by
  rw [Progress.absorbAll, flatten_tasks]
  have habsorb : Progress.absorb (α := α) originOf = fun progress finding =>
      ((Action.settle finding).course tree chunkSize).foldl (Action.apply originOf) progress := by
    funext progress finding
    exact absorb_eq tree chunkSize progress finding
  rw [habsorb, ← List.foldl_flatMap, ← filter_agenda tree chunkSize roots]
  apply isScanOf_of_perm
  rw [List.filter_filter]
  simp only [Bool.and_self]
  exact List.Perm.refl _

/-- Total correctness of a scan that is started and not cancelled: it terminates within a number of
worker steps that is fixed at the start, in the state `completed`, with the result of the classpath;
sequential execution has the same result. Every archive entry is in exactly one of three
categories. -/
theorem Run.completes (tree : FileTree) (originOf : String → Origin) (roots : List Root)
    (config : ScanConfig) :
    (∃ bound, ∀ events (run : Run α), Steps tree originOf (Run.idle roots config) events run →
      events.count .worked ≤ bound) ∧
    (∀ events (run : Run α), Steps tree originOf (Run.idle roots config) events run →
      .started ∈ events → .cancelled ∉ events →
        (run.scheduler.state = .scanning ∧ ∃ next, Step tree originOf run .worked next) ∨
        (run.scheduler.state = .completed ∧ run.progress.IsScanOf tree originOf roots)) ∧
    (∀ scheduler, (Run.idle roots config : Run α).scheduler.start = .ok scheduler →
      (scheduler.wait tree originOf { graph := (.empty : Graph α) }).1.state = .completed ∧
      (scheduler.wait tree originOf { graph := (.empty : Graph α) }).2.IsScanOf tree originOf
        roots) ∧
    ∀ path archive, Archive.openAt tree path = .ok archive → ∀ entry ∈ archive.entries,
      (isPassedOver archive entry ∧ archivedClass? archive entry = none ∧
        ¬ isSpoilt archive entry) ∨
      (¬ isPassedOver archive entry ∧ (archivedClass? archive entry).isSome ∧
        ¬ isSpoilt archive entry) ∨
      (¬ isPassedOver archive entry ∧ archivedClass? archive entry = none ∧
        isSpoilt archive entry) := by
  refine ⟨⟨_, fun events run hsteps => (isSound_of_steps hsteps).count_worked_le⟩, ?_, ?_, ?_⟩
  · intro events run hsteps hstarted hgo
    have h := isSound_of_steps hsteps
    cases hstate : run.scheduler.state with
    | idle => exact absurd hstarted (h.idle hstate).2.1
    | scanning => exact Or.inl ⟨rfl, exists_step hstate⟩
    | completed => exact Or.inr ⟨rfl, h.isScanOf hstate hgo⟩
    | cancelled => exact absurd (h.cancelled (h.interrupted hstate)) hgo
  · intro scheduler hstart
    cases hstart
    exact ⟨rfl, absorbAll_isScanOf tree originOf config.chunkSize roots⟩
  · intro path archive _ entry _
    exact entry_cases archive entry

end Scan

end ClassAtlas
