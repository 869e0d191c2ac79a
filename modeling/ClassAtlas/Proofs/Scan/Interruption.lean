import ClassAtlas.Proofs.Scan.Insertion
import Mathlib

/-!
# Interruptible scans

Laws of start, cancellation and wait under arbitrary interleaving with the workers: single start,
monotone and final states, completeness of completed scans, and whole classes in cancelled ones.
Specification: `SPEC_FULL.md` §4.3, line 50, §5, lines 65 and 68, and §10.7, lines 192–193.
-/

namespace ClassAtlas

/-- State transitions of a scan. -/
inductive ScanState.MovesTo : ScanState → ScanState → Prop where
  | start : MovesTo .idle .scanning
  | complete : MovesTo .scanning .completed
  | cancel : MovesTo .scanning .cancelled

/-- A terminal state is neither `idle` nor `scanning`. -/
theorem ScanState.ne_of_isTerminal {state : ScanState} (h : state.isTerminal) :
    state ≠ .scanning ∧ state ≠ .idle := by
  cases state <;> simp_all [ScanState.isTerminal]

namespace Scan.Run

variable {α : Type} [Zero α] {tree : FileTree} {originOf : String → Origin} {roots : List Root}
  {config : ScanConfig} {events : List Event} {run next : Run α} {event : Event}

/-! ### Single steps -/

/-- Remaining actions imply the state `scanning`. -/
theorem IsSound.scanning_of_worker (h : run.IsSound tree originOf roots config events)
    {action : Action} {rest : Worker} {before after : List Worker}
    (hworkers : run.workers = before ++ (action :: rest) :: after) :
    run.scheduler.state = .scanning := by
  by_contra hnot
  have hmem : action :: rest ∈ run.workers := by simp [hworkers]
  exact absurd (h.ended hnot _ hmem) (List.cons_ne_nil _ _)

/-- A step preserves the state or makes a transition. -/
theorem Step.state_cases (h : Step tree originOf run event next) :
    next.scheduler.state = run.scheduler.state ∨
      run.scheduler.state.MovesTo next.scheduler.state := by
  cases h with
  | start hstart =>
    obtain ⟨hidle, rfl⟩ := Scheduler.start_eq_ok_iff.mp hstart
    rw [hidle]
    exact Or.inr .start
  | refuse => exact Or.inl rfl
  | cancel => exact Or.inl rfl
  | wait => exact Or.inl rfl
  | work => exact Or.inl rfl
  | finish hscanning =>
    rw [hscanning]
    show _ ∨ ScanState.MovesTo _ (if run.scheduler.cancelRequested then _ else _)
    split
    · exact Or.inr .cancel
    · exact Or.inr .complete

/-- A step of an ended scan at most sets the cancel flag. -/
theorem Step.of_ended (h : Step tree originOf run event next)
    (hend : run.scheduler.state.isTerminal) (hdone : ∀ worker ∈ run.workers, worker = []) :
    next.scheduler.state = run.scheduler.state ∧ next.progress = run.progress ∧
      next.workers = run.workers := by
  cases h with
  | start hstart =>
    rw [(Scheduler.start_eq_ok_iff.mp hstart).1] at hend
    cases hend
  | refuse => exact ⟨rfl, rfl, rfl⟩
  | cancel => exact ⟨rfl, rfl, rfl⟩
  | wait => exact ⟨rfl, rfl, rfl⟩
  | @work action rest _ before after hworkers =>
    have hmem : action :: rest ∈ run.workers := by simp [hworkers]
    exact absurd (hdone _ hmem) (List.cons_ne_nil _ _)
  | finish hscanning =>
    rw [hscanning] at hend
    cases hend

/-! ### Histories -/

/-- The state is `idle` exactly before the start, and there is at most one start. -/
theorem Steps.count_started (h : Steps tree originOf (Run.idle roots config) events run) :
    events.count .started = if run.scheduler.state = .idle then 0 else 1 := by
  induction h with
  | refl => rfl
  | @tail middle _ events _ hsteps hstep ih =>
    cases hstep with
    | start hstart =>
      obtain ⟨hidle, rfl⟩ := Scheduler.start_eq_ok_iff.mp hstart
      rw [if_pos hidle] at ih
      rw [List.count_append, ih]
      rfl
    | refuse => rwa [count_concat_of_ne (by simp)]
    | cancel => rwa [count_concat_of_ne (by simp)]
    | wait => rwa [count_concat_of_ne (by simp)]
    | work => rwa [count_concat_of_ne (by simp)]
    | finish hscanning =>
      rw [count_concat_of_ne (by simp), ih, hscanning]
      show _ = if (if middle.scheduler.cancelRequested then ScanState.cancelled else .completed) =
        .idle then 0 else 1
      cases middle.scheduler.cancelRequested <;> rfl

/-- A cancellation sets the cancel flag for good. -/
theorem Steps.cancelRequested (h : Steps tree originOf (Run.idle roots config) events run)
    (hcancelled : .cancelled ∈ events) : run.scheduler.cancelRequested = true := by
  induction h with
  | refl => cases hcancelled
  | tail hsteps hstep ih =>
    rw [List.mem_append, List.mem_singleton] at hcancelled
    cases hstep with
    | start hstart =>
      obtain ⟨-, rfl⟩ := Scheduler.start_eq_ok_iff.mp hstart
      exact ih (hcancelled.resolve_right nofun)
    | cancel => rfl
    | refuse => exact ih (hcancelled.resolve_right nofun)
    | wait => exact ih (hcancelled.resolve_right nofun)
    | work => exact ih (hcancelled.resolve_right nofun)
    | finish => exact ih (hcancelled.resolve_right nofun)

/-- The last event of a run is that of its last step. -/
theorem Steps.exists_last {first last : Run α}
    (h : Steps tree originOf first (events ++ [event]) last) :
    ∃ middle, Steps tree originOf first events middle ∧ Step tree originOf middle event last := by
  generalize hevents : events ++ [event] = all at h
  cases h with
  | refl => simp at hevents
  | tail hsteps hstep =>
    obtain ⟨rfl, hevent⟩ := List.append_inj' hevents rfl
    obtain rfl := List.singleton_injective hevent
    exact ⟨_, hsteps, hstep⟩

/-- A run splits at every event. -/
theorem Steps.exists_middle {first last : Run α} {before after : List Event}
    (h : Steps tree originOf first (before ++ after) last) :
    ∃ middle, Steps tree originOf first before middle ∧ Steps tree originOf middle after last := by
  induction after using List.reverseRecOn generalizing last with
  | nil =>
    rw [List.append_nil] at h
    exact ⟨last, h, .refl last⟩
  | append_singleton after event ih =>
    rw [← List.append_assoc] at h
    obtain ⟨previous, hsteps, hstep⟩ := h.exists_last
    obtain ⟨middle, hbefore, hafter⟩ := ih hsteps
    exact ⟨middle, hbefore, hafter.tail hstep⟩

/-! ### Terminal states -/

/-- State and progress of an ended scan are final. -/
theorem Steps.of_ended {later : List Event} {last : Run α}
    (h : Steps tree originOf run later last) (hend : run.scheduler.state.isTerminal)
    (hdone : ∀ worker ∈ run.workers, worker = []) :
    last.scheduler.state = run.scheduler.state ∧ last.progress = run.progress ∧
      last.workers = run.workers := by
  induction h with
  | refl => exact ⟨rfl, rfl, rfl⟩
  | tail _ hstep ih =>
    obtain ⟨hstate, hprogress, hworkers⟩ := ih
    rw [← hstate] at hend
    rw [← hworkers] at hdone
    obtain ⟨hstate', hprogress', hworkers'⟩ := hstep.of_ended hend hdone
    exact ⟨hstate'.trans hstate, hprogress'.trans hprogress, hworkers'.trans hworkers⟩

/-- A completed scan has the result of the classpath, also if it is cancelled later. -/
theorem Steps.isScanOf (h : Steps tree originOf (Run.idle roots config) events run)
    (hcompleted : run.scheduler.state = .completed) :
    run.progress.IsScanOf tree originOf roots := by
  induction h with
  | refl => cases hcompleted
  | @tail middle _ _ _ hsteps hstep ih =>
    have hsound := isSound_of_steps hsteps
    cases hstep with
    | start hstart =>
      obtain ⟨-, rfl⟩ := Scheduler.start_eq_ok_iff.mp hstart
      cases hcompleted
    | refuse => exact ih hcompleted
    | cancel => exact ih hcompleted
    | wait => exact ih hcompleted
    | work before after hworkers =>
      have hscanning := hsound.scanning_of_worker hworkers
      cases hscanning.symm.trans hcompleted
    | finish hscanning hdone =>
      -- The final poll found the flag unset, so no action has been abandoned.
      have hgo : middle.scheduler.cancelRequested = false := by
        by_contra hstop
        simp [hstop] at hcompleted
      obtain ⟨log, hlog, -⟩ := hsound.begun (by rw [hscanning]; exact nofun)
      rw [← hsound.roots]
      exact hlog.isScanOf hgo hdone

/-! ### Cancellation before the start -/

/-- Invariant of a scan that is cancelled before its start: the flag is set, the progress is
initial, only root actions remain, and the state is not `completed`. -/
structure IsQuiet (run : Run α) : Prop where
  requested : run.scheduler.cancelRequested = true
  progress : run.progress = { graph := .empty }
  workers : ∀ worker ∈ run.workers, ∀ action ∈ worker, ∃ root, action = .enter root
  state : run.scheduler.state ≠ .completed

/-- Every step preserves the invariant. -/
theorem IsQuiet.step (h : run.IsQuiet) (hstep : Step tree originOf run event next) :
    next.IsQuiet := by
  cases hstep with
  | start hstart =>
    obtain ⟨-, rfl⟩ := Scheduler.start_eq_ok_iff.mp hstart
    refine ⟨h.requested, h.progress, ?_, nofun⟩
    intro worker hworker action haction
    obtain rfl := List.mem_singleton.mp hworker
    obtain ⟨root, -, rfl⟩ := List.mem_map.mp haction
    exact ⟨root, rfl⟩
  | refuse => exact h
  | cancel => exact ⟨rfl, h.progress, h.workers, h.state⟩
  | wait => exact h
  | @work action rest effect before after hworkers heffect =>
    have hworker := h.workers
    rw [hworkers] at hworker
    obtain ⟨root, rfl⟩ := hworker (action :: rest) (by simp) action (by simp)
    -- The poll before a root abandons all later roots as well.
    have hleft : effect = { rest := [], progress := run.progress } := by
      rw [← heffect, h.requested]
      cases root <;> rfl
    subst hleft
    refine ⟨h.requested, h.progress, ?_, h.state⟩
    intro worker hmem
    simp only [List.mem_append, List.mem_cons, List.not_mem_nil, or_false] at hmem
    obtain hbefore | rfl | hafter := hmem
    · exact hworker worker (by simp [hbefore])
    · exact fun _ haction => absurd haction List.not_mem_nil
    · exact hworker worker (by simp [hafter])
  | finish =>
    refine ⟨h.requested, h.progress, h.workers, ?_⟩
    show (if run.scheduler.cancelRequested then ScanState.cancelled else .completed) ≠ _
    rw [if_pos h.requested]
    exact nofun

/-- Every run preserves the invariant. -/
theorem IsQuiet.steps {later : List Event} {last : Run α} (h : run.IsQuiet)
    (hsteps : Steps tree originOf run later last) : last.IsQuiet := by
  induction hsteps with
  | refl => exact h
  | tail _ hstep ih => exact ih.step hstep

/-- A scan that is cancelled before its start satisfies the invariant. -/
theorem Steps.isQuiet {before after : List Event}
    (h : Steps tree originOf (Run.idle roots config) (before ++ .started :: after) run)
    (hcancelled : .cancelled ∈ before) : run.IsQuiet := by
  obtain ⟨middle, hbefore, hafter⟩ := h.exists_middle
  have hsound := isSound_of_steps hbefore
  -- There is at most one start, so the scan was idle before it.
  have hidle : middle.scheduler.state = .idle := by
    have hall := h.count_started
    have hfirst := hbefore.count_started
    rw [List.count_append, List.count_cons_self] at hall
    by_contra hnot
    rw [if_neg hnot] at hfirst
    split at hall <;> omega
  refine IsQuiet.steps ⟨hbefore.cancelRequested hcancelled, (hsound.idle hidle).1, ?_, ?_⟩ hafter
  · intro worker hworker action haction
    have hnothing := hsound.ended (by rw [hidle]; exact nofun) worker hworker
    rw [hnothing] at haction
    cases haction
  · rw [hidle]
    exact nofun

/-! ### Summary -/

/-- Laws of a scan after a history of events: state transitions, single start, refused restarts,
progress of a started scan, the answer of a wait, final states, completeness of completed scans, the
effect of a cancellation before the start, and whole classes at the end. -/
structure IsReliable (tree : FileTree) (originOf : String → Origin) (roots : List Root)
    (events : List Event) (run : Run α) : Prop where
  moves : ∀ event next, Step tree originOf run event next →
    next.scheduler.state = run.scheduler.state ∨
      run.scheduler.state.MovesTo next.scheduler.state
  started : events.count .started ≤ 1
  startable : .started ∉ events → ∃ scheduler, run.scheduler.start = .ok scheduler
  restart : .started ∈ events → run.scheduler.start = .error .alreadyStarted ∧
    ∀ event next, Step tree originOf run event next →
      event ≠ .started ∧ ∀ error, event = .refused error → error = .alreadyStarted ∧ next = run
  live : .started ∈ events →
    (run.scheduler.state = .scanning ∧ ∃ next, Step tree originOf run .worked next) ∨
    (run.scheduler.state.isTerminal ∧
      Step tree originOf run (.waited run.scheduler.state) run)
  waited : .started ∈ events → ∀ state next, Step tree originOf run (.waited state) next →
    state.isTerminal ∧ ∀ later last, Steps tree originOf next later last →
      last.scheduler.state = state ∧ last.progress = run.progress
  ended : run.scheduler.state.isTerminal → ∀ later last, Steps tree originOf run later last →
    last.scheduler.state = run.scheduler.state ∧ last.progress = run.progress
  completed : run.scheduler.state = .completed → run.progress.IsScanOf tree originOf roots
  cancelledFirst : ∀ before after, events = before ++ .started :: after → .cancelled ∈ before →
    run.progress = { graph := .empty } ∧
      (run.scheduler.state.isTerminal → run.scheduler.state = .cancelled)
  whole : run.scheduler.state.isTerminal → ∃ taken, run.progress.IsPartOf tree originOf roots taken

private theorem state_cases_of_started
    (h : Steps tree originOf (Run.idle roots config) events run) (hstarted : .started ∈ events) :
    run.scheduler.state = .scanning ∨
      run.scheduler.state.isTerminal ∧ run.scheduler.state ≠ .scanning := by
  have hnot := (isSound_of_steps h).idle
  cases hstate : run.scheduler.state with
  | idle => exact absurd hstarted (hnot hstate).2.1
  | scanning => exact Or.inl rfl
  | completed => exact Or.inr ⟨rfl, nofun⟩
  | cancelled => exact Or.inr ⟨rfl, nofun⟩

/-- Every run satisfies the laws. -/
theorem Steps.isReliable (h : Steps tree originOf (Run.idle roots config) events run) :
    run.IsReliable tree originOf roots events := by
  have hsound := isSound_of_steps h
  have hcount := h.count_started
  have hended : run.scheduler.state.isTerminal → ∀ later last,
      Steps tree originOf run later last →
        last.scheduler.state = run.scheduler.state ∧ last.progress = run.progress := by
    intro hend later last hlater
    have hdone := hsound.ended (ScanState.ne_of_isTerminal hend).1
    obtain ⟨hstate, hprogress, -⟩ := hlater.of_ended hend hdone
    exact ⟨hstate, hprogress⟩
  constructor
  case moves => exact fun event next hstep => hstep.state_cases
  case started => split at hcount <;> omega
  case startable =>
    intro hnot
    have hidle : run.scheduler.state = .idle := by
      by_contra hbegun
      rw [if_neg hbegun, List.count_eq_zero_of_not_mem hnot] at hcount
      cases hcount
    exact ⟨_, Scheduler.start_eq_ok_iff.mpr ⟨hidle, rfl⟩⟩
  case restart =>
    intro hstarted
    have hbegun : run.scheduler.state ≠ .idle :=
      fun hidle => absurd hstarted (hsound.idle hidle).2.1
    refine ⟨Scheduler.start_eq_error_iff.mpr ⟨hbegun, rfl⟩, ?_⟩
    intro event next hstep
    cases hstep with
    | start hstart => exact absurd (Scheduler.start_eq_ok_iff.mp hstart).1 hbegun
    | refuse hrefuse =>
      refine ⟨nofun, ?_⟩
      rintro _ ⟨⟩
      exact ⟨(Scheduler.start_eq_error_iff.mp hrefuse).2, rfl⟩
    | cancel => exact ⟨nofun, nofun⟩
    | wait => exact ⟨nofun, nofun⟩
    | work => exact ⟨nofun, nofun⟩
    | finish => exact ⟨nofun, nofun⟩
  case live =>
    intro hstarted
    obtain hscanning | ⟨hend, hnot⟩ := state_cases_of_started h hstarted
    · exact Or.inl ⟨hscanning, exists_step hscanning⟩
    · exact Or.inr ⟨hend, .wait hnot⟩
  case waited =>
    intro hstarted state next hstep
    cases hstep with
    | wait hnot =>
      obtain hscanning | ⟨hend, -⟩ := state_cases_of_started h hstarted
      · exact absurd hscanning hnot
      · exact ⟨hend, hended hend⟩
  case ended => exact hended
  case completed => exact h.isScanOf
  case cancelledFirst =>
    rintro before after rfl hcancelled
    have hquiet := h.isQuiet hcancelled
    refine ⟨hquiet.progress, fun hend => ?_⟩
    have hstate := hquiet.state
    cases hlast : run.scheduler.state with
    | idle => simp [hlast, ScanState.isTerminal] at hend
    | scanning => simp [hlast, ScanState.isTerminal] at hend
    | completed => exact absurd hlast hstate
    | cancelled => rfl
  case whole =>
    intro hend
    obtain ⟨hnot, hbegun⟩ := ScanState.ne_of_isTerminal hend
    obtain ⟨log, taken, hlog, hwhole⟩ := exists_log h hbegun
    refine ⟨taken, ?_⟩
    rw [← hsound.roots]
    exact hwhole.isPartOf hlog (hsound.ended hnot)

/-- Start, cancellation and wait satisfy `IsReliable` under arbitrary interleaving with the workers,
and the number of worker steps is bounded by a constant that is fixed at the start. -/
theorem interruptible (tree : FileTree) (originOf : String → Origin) (roots : List Root)
    (config : ScanConfig) :
    (∃ bound, ∀ events (run : Run α), Steps tree originOf (Run.idle roots config) events run →
      events.count .worked ≤ bound) ∧
    ∀ events (run : Run α), Steps tree originOf (Run.idle roots config) events run →
      run.IsReliable tree originOf roots events :=
  ⟨⟨_, fun _ _ hsteps => (isSound_of_steps hsteps).count_worked_le⟩,
    fun _ _ hsteps => hsteps.isReliable⟩

end Scan.Run

end ClassAtlas
