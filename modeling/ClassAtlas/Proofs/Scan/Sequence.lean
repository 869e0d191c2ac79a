import ClassAtlas.Proofs.Scan.Completion
import Mathlib

/-!
# Sequential schedules

The depth-first schedule, in which each action is followed by its whole course, is a run of the
small-step semantics. Sequential execution is therefore one of the runs of a scan, and every scan
has a completed run. Specification: `SPEC_FULL.md` §4.3, lines 48–49.
-/

namespace ClassAtlas.Scan

variable {α : Type} [Zero α] {tree : FileTree} {originOf : String → Origin}

/-! ### Progress -/

/-- Only settlement actions have an effect on the progress. -/
theorem Action.foldl_apply_filter (log : List Action) (progress : Progress α) :
    (log.filter isSettlement).foldl (apply originOf) progress =
      log.foldl (apply originOf) progress := by
  induction log generalizing progress with
  | nil => rfl
  | cons action log ih =>
    rw [List.foldl_cons, ← ih]
    cases action <;> rfl

/-- Sequential execution of the tasks has the effect of the agenda. -/
theorem absorbAll_eq (tree : FileTree) (chunkSize : Nat) (roots : List Root)
    (progress : Progress α) :
    progress.absorbAll originOf (tasks tree chunkSize roots) =
      (agenda tree chunkSize roots).foldl (Action.apply originOf) progress := by
  have habsorb : Progress.absorb (α := α) originOf = fun progress finding =>
      ((Action.settle finding).course tree chunkSize).foldl (Action.apply originOf) progress := by
    funext progress finding
    exact absorb_eq tree chunkSize progress finding
  rw [Progress.absorbAll, flatten_tasks, habsorb, ← List.foldl_flatMap, ← filter_agenda,
    Action.foldl_apply_filter]

/-! ### Worker steps -/

namespace Run

/-- Reachability by worker steps alone. -/
def WorksTo (tree : FileTree) (originOf : String → Origin) (run next : Run α) : Prop :=
  ∃ events, (∀ event ∈ events, event = .worked) ∧ Steps tree originOf run events next

/-- Runs compose. -/
theorem Steps.trans {first middle last : Run α} {before after : List Event}
    (h : Steps tree originOf first before middle) (h' : Steps tree originOf middle after last) :
    Steps tree originOf first (before ++ after) last := by
  induction h' with
  | refl =>
    rw [List.append_nil]
    exact h
  | tail _ hstep ih =>
    rw [← List.append_assoc]
    exact ih.tail hstep

/-- Reachability by worker steps is reflexive. -/
theorem WorksTo.refl (run : Run α) : run.WorksTo tree originOf run := ⟨[], by simp, .refl run⟩

/-- Reachability by worker steps is transitive. -/
theorem WorksTo.trans {run next last : Run α} (h : run.WorksTo tree originOf next)
    (h' : next.WorksTo tree originOf last) : run.WorksTo tree originOf last := by
  obtain ⟨before, hbefore, hsteps⟩ := h
  obtain ⟨after, hafter, hsteps'⟩ := h'
  refine ⟨before ++ after, fun event hevent => ?_, hsteps.trans hsteps'⟩
  exact (List.mem_append.mp hevent).elim (hbefore event) (hafter event)

/-- A single worker step. -/
theorem WorksTo.single {run next : Run α} (h : Step tree originOf run .worked next) :
    run.WorksTo tree originOf next :=
  ⟨[.worked], by simp, (Steps.refl run).tail h⟩

/-- Run after the courses of some actions, with the remaining workers. -/
def settled (tree : FileTree) (originOf : String → Origin) (run : Run α) (actions : List Action)
    (workers : List Worker) : Run α :=
  { run with
    progress := (actions.flatMap (Action.course tree run.scheduler.config.chunkSize)).foldl
      (Action.apply originOf) run.progress
    workers }

/-- Courses of actions compose. -/
theorem settled_settled (run : Run α) (actions others : List Action)
    (between workers : List Worker) :
    settled tree originOf (settled tree originOf run actions between) others workers =
      settled tree originOf run (actions ++ others) workers := by
  simp only [settled, List.flatMap_append, List.foldl_append]

/-- Every worker whose remaining actions begin with the given ones can perform their courses while
the other workers are idle, unless the scan is cancelled. -/
def CanSettle (α : Type) [Zero α] (tree : FileTree) (originOf : String → Origin)
    (actions : List Action) : Prop :=
  ∀ (run : Run α) (before after : List Worker) (rest : Worker),
    run.scheduler.cancelRequested = false → run.workers = before ++ (actions ++ rest) :: after →
    ∃ done : List Worker, (∀ worker ∈ done, worker = []) ∧ run.WorksTo tree originOf
      (settled tree originOf run actions (before ++ rest :: after ++ done))

private theorem forall_append {done more : List Worker} (h : ∀ worker ∈ done, worker = [])
    (h' : ∀ worker ∈ more, worker = []) : ∀ worker ∈ done ++ more, worker = [] :=
  fun worker hworker => (List.mem_append.mp hworker).elim (h worker) (h' worker)

/-- Actions can be settled if each of them can. -/
theorem canSettle_of_forall {actions : List Action}
    (h : ∀ action ∈ actions, CanSettle α tree originOf [action]) :
    CanSettle α tree originOf actions := by
  induction actions with
  | nil =>
    intro run before after rest _ hworkers
    refine ⟨[], by simp, ?_⟩
    have hrun : run = settled tree originOf run [] (before ++ rest :: after ++ []) := by
      rw [List.append_nil, ← List.nil_append rest, ← hworkers]
      rfl
    exact hrun ▸ .refl run
  | cons action actions ih =>
    intro run before after rest hgo hworkers
    obtain ⟨done, hdone, hfirst⟩ :=
      h action (by simp) run before after (actions ++ rest) hgo hworkers
    obtain ⟨more, hmore, hrest⟩ := ih (fun other hother => h other (List.mem_cons_of_mem _ hother))
      (settled tree originOf run [action] (before ++ (actions ++ rest) :: after ++ done))
      before (after ++ done) rest hgo (List.append_assoc before (_ :: after) done)
    have hleft : before ++ rest :: (after ++ done) ++ more =
        before ++ rest :: after ++ (done ++ more) := by simp
    rw [settled_settled, hleft] at hrest
    exact ⟨done ++ more, forall_append hdone hmore, hfirst.trans hrest⟩

/-- Spawned workers can be settled in order. -/
theorem canSettle_workers {new : List Worker}
    (h : ∀ worker ∈ new, CanSettle α tree originOf worker) (run : Run α)
    (before after : List Worker) (hafter : ∀ worker ∈ after, worker = [])
    (hgo : run.scheduler.cancelRequested = false)
    (hworkers : run.workers = before ++ new ++ after) :
    ∃ done : List Worker, (∀ worker ∈ done, worker = []) ∧ run.WorksTo tree originOf
      (settled tree originOf run new.flatten (before ++ done)) := by
  induction new generalizing run before after with
  | nil =>
    refine ⟨after, hafter, ?_⟩
    have hrun : run = settled tree originOf run [] (before ++ after) := by
      rw [← List.append_nil before, ← hworkers]
      rfl
    exact hrun ▸ .refl run
  | cons worker new ih =>
    have hsplit : run.workers = before ++ (worker ++ []) :: (new ++ after) := by
      rw [hworkers, List.append_nil, List.append_assoc, List.cons_append]
    obtain ⟨done, hdone, hfirst⟩ := h worker (by simp) run before (new ++ after) [] hgo hsplit
    have hleft : before ++ [] :: (new ++ after) ++ done =
        before ++ [[]] ++ new ++ (after ++ done) := by simp
    obtain ⟨more, hmore, hrest⟩ := ih (fun other hother => h other (List.mem_cons_of_mem _ hother))
      (settled tree originOf run worker (before ++ [] :: (new ++ after) ++ done)) (before ++ [[]])
      (after ++ done) (forall_append hafter hdone) hgo hleft
    refine ⟨[[]] ++ more, forall_append (by simp) hmore, hfirst.trans ?_⟩
    rw [← List.append_assoc]
    rwa [settled_settled] at hrest

/-- Every action can be settled. -/
theorem canSettle_action (action : Action) : CanSettle α tree originOf [action] := by
  -- Strong induction on the rank, since followers have a smaller rank.
  induction hrank : action.rank using Nat.strong_induction_on generalizing action with
  | _ rank ih =>
  subst hrank
  intro run before after rest hgo hworkers
  have hfollower : ∀ follower ∈ action.followers tree run.scheduler.config.chunkSize,
      CanSettle α tree originOf [follower] :=
    fun follower hmem => ih follower.rank (Action.rank_lt hmem) follower rfl
  let next := action.next tree run.scheduler.config.chunkSize
  let left := { run with
    progress := action.apply originOf run.progress
    workers := before ++ (next ++ rest) :: after ++ action.spawned }
  have hperform := action.perform_go originOf tree run.scheduler.config.chunkSize rest run.progress
  rw [← hgo] at hperform
  have hstep : Step tree originOf run .worked left := .work before after hworkers hperform
  obtain ⟨done, hdone, hown⟩ := canSettle_of_forall
    (fun follower hmem => hfollower follower (List.mem_append_left _ hmem))
    left before (after ++ action.spawned) rest hgo (List.append_assoc before (_ :: after) _)
  obtain ⟨more, hmore, hnew⟩ := canSettle_workers
    (fun worker hworker => canSettle_of_forall fun follower hmem =>
      hfollower follower (List.mem_append_right _ (List.mem_flatten.mpr ⟨worker, hworker, hmem⟩)))
    (settled tree originOf left next (before ++ rest :: (after ++ action.spawned) ++ done))
    (before ++ rest :: after) done hdone hgo (by simp [settled])
  refine ⟨more, hmore, (WorksTo.single hstep).trans (hown.trans ?_)⟩
  rw [settled_settled] at hnew
  have hend : settled tree originOf left (next ++ action.spawned.flatten)
      (before ++ rest :: after ++ more) =
      settled tree originOf run [action] (before ++ rest :: after ++ more) := by
    simp only [settled, List.flatMap_singleton, Action.course_eq tree _ action, List.foldl_cons]
    rfl
  exact hend ▸ hnew

/-- A started scan without performed actions reaches the state `completed` with the effect of
sequential execution. -/
theorem worksTo_completed {run : Run α} (hscanning : run.scheduler.state = .scanning)
    (hgo : run.scheduler.cancelRequested = false)
    (hworkers : run.workers = [run.scheduler.roots.map .enter]) :
    ∃ done : List Worker, (∀ worker ∈ done, worker = []) ∧ run.WorksTo tree originOf
      { scheduler := { run.scheduler with state := .completed }
        progress := run.progress.absorbAll originOf
          (tasks tree run.scheduler.config.chunkSize run.scheduler.roots)
        workers := done } := by
  have hsplit : run.workers = [] ++ (run.scheduler.roots.map .enter ++ []) :: [] := by
    rw [hworkers, List.append_nil, List.nil_append]
  obtain ⟨done, hdone, hall⟩ := canSettle_of_forall (fun action _ => canSettle_action action) run
    [] [] [] hgo hsplit
  have hall' : run.WorksTo tree originOf
      (settled tree originOf run (run.scheduler.roots.map .enter) ([] :: done)) := hall
  have hnothing : ∀ worker ∈ [] :: done, worker = [] := by simpa using hdone
  refine ⟨[] :: done, hnothing, hall'.trans (.single ?_)⟩
  have hend : Step tree originOf
      (settled tree originOf run (run.scheduler.roots.map .enter) ([] :: done)) .worked _ :=
    .finish hscanning hnothing
  rw [absorbAll_eq, agenda]
  simpa only [settled, hgo, Bool.false_eq_true, if_false] using hend

/-- Every scan has a completed run. -/
theorem exists_completed (tree : FileTree) (originOf : String → Origin) (roots : List Root)
    (config : ScanConfig) :
    ∃ events, ∃ run : Run α, Steps tree originOf (Run.idle roots config) events run ∧
      run.scheduler.state = .completed := by
  let begun : Run α :=
    { scheduler := { roots, config, state := .scanning }
      progress := { graph := .empty }
      workers := [roots.map .enter] }
  have hstart : Steps tree originOf (Run.idle roots config) [.started] begun :=
    (Steps.refl _).tail (.start rfl)
  obtain ⟨done, -, events, -, hsteps⟩ :=
    @worksTo_completed α _ tree originOf begun rfl rfl rfl
  exact ⟨_, _, hstart.trans hsteps, rfl⟩

/-- A started scan without performed actions that is cancelled reaches the state `cancelled` without
any effect. -/
theorem worksTo_cancelled {run : Run α} (hscanning : run.scheduler.state = .scanning)
    (hstop : run.scheduler.cancelRequested = true)
    (hworkers : run.workers = [run.scheduler.roots.map .enter]) :
    run.WorksTo tree originOf
      { run with scheduler := { run.scheduler with state := .cancelled }, workers := [[]] } := by
  have hleave : run.WorksTo tree originOf { run with workers := [[]] } := by
    cases hroots : run.scheduler.roots with
    | nil =>
      rw [hroots, List.map_nil] at hworkers
      rw [← hworkers]
      exact .refl run
    | cons root roots =>
      rw [hroots, List.map_cons] at hworkers
      have hperform : (Action.enter root).perform tree originOf run.scheduler.config.chunkSize
          run.scheduler.cancelRequested (roots.map .enter) run.progress =
          { rest := [], progress := run.progress } := by
        rw [hstop]
        cases root <;> rfl
      exact .single (.work [] [] hworkers hperform)
  have hend : Step tree originOf { run with workers := [[]] } .worked _ :=
    .finish hscanning (by simp)
  rw [if_pos (show run.scheduler.cancelRequested = true from hstop)] at hend
  exact hleave.trans (.single hend)

end Run

end ClassAtlas.Scan
