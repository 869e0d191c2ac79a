import ClassAtlas.Proofs.Scan.Lifecycle
import ClassAtlas.Proofs.Scan.Sequence
import Mathlib

/-!
# Reliability of sessions

Contract of a session towards its caller, under arbitrary interleaving: the answers of start, wait
and termination, and the possibility for each blocking call to return. Specification: `SPEC_FULL.md`
§5, line 68, §6, line 73, and §10.6, lines 181–182.
-/

namespace ClassAtlas.Session

namespace Run

variable {tree : FileTree} {roots : List Root} {config : ScanConfig} {events : List Event}
  {run next last : Run} {event : Event}

/-! ### Steps of workers and of the layout -/

/-- Runs of a session compose. -/
theorem Steps.trans {before after : List Event} (h : Steps tree run before next)
    (h' : Steps tree next after last) : Steps tree run (before ++ after) last := by
  induction h' with
  | refl =>
    rw [List.append_nil]
    exact h
  | tail _ hstep ih =>
    rw [← List.append_assoc]
    exact ih.tail hstep

/-- A single step is a run. -/
theorem Steps.single (h : Step tree run event next) : Steps tree run [event] next :=
  (Steps.refl run).tail h

private theorem forall_concat {later : List Event} (h : ∀ other ∈ later, other = event) :
    ∀ other ∈ later ++ [event], other = event :=
  fun other hother => (List.mem_append.mp hother).elim (h other) List.mem_singleton.mp

/-- Worker steps of the scan lift to the session. -/
theorem steps_of_worksTo {scan : Scan.Run Float32}
    (h : run.scan.WorksTo tree (run.session.originOf tree) scan) :
    ∃ later, (∀ event ∈ later, event = .worked) ∧ Steps tree run later (run.withScan scan) := by
  obtain ⟨events, hevents, hsteps⟩ := h
  generalize hfirst : run.scan = first at hsteps
  induction hsteps with
  | refl =>
    subst hfirst
    exact ⟨[], by simp, .refl run⟩
  | @tail middle last events event _ hstep ih =>
    obtain ⟨later, hlater, hmiddle⟩ :=
      ih fun event hevent => hevents event (List.mem_append_left _ hevent)
    obtain rfl := hevents event (List.mem_append_right _ (List.mem_singleton_self _))
    have hwork : Step tree (run.withScan middle) .worked (run.withScan last) := .work hstep
    exact ⟨later ++ [.worked], forall_concat hlater, hmiddle.tail hwork⟩

/-- Steps of the layout thread lift to the session. -/
theorem steps_of_layout (tree : FileTree) {engine : LayoutEngine} {last : LayoutRun Float32}
    (hengine : run.session.layout = some engine) (h : (run.layout engine).Steps last) :
    last.dismissed = run.dismissed ∧ ∃ later, (∀ event ∈ later, event = .laidOut) ∧
      Steps tree run later (run.withLayout last) := by
  induction h with
  | refl =>
    have hrun : run.withLayout (run.layout engine) = run := by
      rw [withLayout, layout, ← hengine]
      rfl
    exact ⟨rfl, [], by simp, hrun.symm ▸ .refl run⟩
  | @tail middle last _ hstep ih =>
    obtain ⟨hdismissed, later, hlater, hmiddle⟩ := ih
    have hsame : (run.withLayout middle).layout middle.engine = middle := by
      rw [layout, withLayout, ← hdismissed]
      rfl
    have hlayOut : Step tree (run.withLayout middle) .laidOut (run.withLayout last) :=
      .layOut rfl (hsame.symm ▸ hstep)
    exact ⟨hstep.dismissed.trans hdismissed, later ++ [.laidOut], forall_concat hlater,
      hmiddle.tail hlayOut⟩

/-- The scan of a session can reach its end by worker steps. -/
theorem IsScanned.exists_end (h : run.IsScanned tree roots config events) :
    ∃ scan, run.scan.WorksTo tree (run.session.originOf tree) scan ∧
      scan.scheduler.state ≠ .scanning := by
  -- Induction on the remaining worker steps: their number is bounded, and a running scan has one.
  induction hleft : (Scan.agenda tree config.chunkSize roots).length + 1 - events.count .worked
    using Nat.strong_induction_on generalizing run events with
  | _ left ih =>
  subst hleft
  by_cases hscanning : run.session.state = .scanning
  · obtain ⟨scan, hstep⟩ : ∃ scan, Scan.Run.Step tree (run.session.originOf tree) run.scan .worked
        scan := Scan.Run.exists_step hscanning
    have hnext := h.step (.work hstep)
    have hlimit := hnext.count_worked_le
    rw [List.count_append, List.count_singleton_self] at hlimit
    obtain ⟨last, hlast, hend⟩ := ih _ (by
      rw [List.count_append, List.count_singleton_self]
      omega) hnext rfl
    exact ⟨last, (Scan.Run.WorksTo.single hstep).trans hlast, hend⟩
  · exact ⟨run.scan, .refl _, hscanning⟩

/-! ### Termination of blocking calls -/

/-- A wait can return. -/
theorem IsScanned.exists_waited (h : run.IsScanned tree roots config events)
    (hfree : run.caller = .free) :
    ∃ later last state, Steps tree run later last ∧ (∀ event ∈ later, event = .worked) ∧
      Step tree last (.waited state) last := by
  obtain ⟨scan, hworks, hend⟩ := h.exists_end
  obtain ⟨later, hlater, hsteps⟩ := steps_of_worksTo hworks
  exact ⟨later, _, _, hsteps, hlater, .wait hfree hend⟩

/-- A termination that waits for the scan can return. -/
theorem IsScanned.exists_terminated (h : run.IsScanned tree roots config events)
    (hcaller : run.caller = .awaiting) :
    ∃ later last, Steps tree run later last ∧ .terminated ∈ later := by
  obtain ⟨scan, hworks, hend⟩ := h.exists_end
  obtain ⟨later, -, hsteps⟩ := steps_of_worksTo hworks
  have hterminate : Step tree (run.withScan scan) _ _ := .terminate hcaller hend
  exact ⟨later ++ [.terminated], _, hsteps.tail hterminate, by simp⟩

/-- Runs of a session extend. -/
theorem IsScanned.steps {later : List Event} (h : run.IsScanned tree roots config events)
    (hsteps : Steps tree run later next) : next.IsScanned tree roots config (events ++ later) := by
  induction hsteps with
  | refl =>
    rw [List.append_nil]
    exact h
  | tail _ hstep ih =>
    rw [← List.append_assoc]
    exact ih.step hstep

/-- A termination that joins the layout thread can return. -/
theorem IsScanned.exists_terminated_of_joining (h : run.IsScanned tree roots config events)
    (hordered : run.IsOrdered) (hcaller : run.caller = .joining) :
    ∃ later last, Steps tree run later last ∧ .terminated ∈ later := by
  obtain ⟨before, ended, hsteps, hstage, hjoining⟩ : ∃ before ended, Steps tree run before ended ∧
      ended.stage = .ended ∧ ended.caller = .joining := by
    by_cases hstage : run.stage = .ended
    · exact ⟨[], run, .refl run, hstage, hcaller⟩
    · obtain ⟨engine, hengine⟩ := Option.isSome_iff_exists.mp (hordered.engine hstage)
      obtain ⟨last, hlast, hend⟩ : (run.layout engine).CanEnd := by
        have hcan := LayoutRun.canEnd_of_dismissed engine run.session.graph run.stage
        rwa [← hordered.dismissed hcaller] at hcan
      obtain ⟨-, later, -, hlater⟩ := steps_of_layout tree hengine hlast
      exact ⟨later, _, hlater, hend, hcaller⟩
  have hjoin := hsteps.tail (.join hjoining hstage)
  obtain ⟨later, last, hlater, hterminated⟩ := (h.steps hjoin).exists_terminated rfl
  exact ⟨_, last, hjoin.trans hlater, List.mem_append_right _ hterminated⟩

/-- A termination can return from each of its stages. -/
theorem IsScanned.exists_terminated_of_busy (h : run.IsScanned tree roots config events)
    (hordered : run.IsOrdered) (hbusy : run.caller ≠ .free) :
    ∃ later last, Steps tree run later last ∧ .terminated ∈ later := by
  cases hcaller : run.caller with
  | free => exact absurd hcaller hbusy
  | stopping =>
    have hstop : Step tree run _ _ := .stopLayout hcaller
    have hdismiss : Step tree
        { run with session := run.session.stopLayout, caller := .dismissing } .proceeded _ :=
      .dismiss rfl
    have hsteps := (Steps.single hstop).tail hdismiss
    obtain ⟨later, last, hlater, hterminated⟩ := (h.steps hsteps).exists_terminated_of_joining
      ((hordered.step hstop).step hdismiss) rfl
    exact ⟨_, last, hsteps.trans hlater, List.mem_append_right _ hterminated⟩
  | dismissing =>
    have hdismiss : Step tree run _ _ := .dismiss hcaller
    obtain ⟨later, last, hlater, hterminated⟩ :=
      (h.step hdismiss).exists_terminated_of_joining (hordered.step hdismiss) rfl
    exact ⟨_, last, (Steps.single hdismiss).trans hlater, List.mem_append_right _ hterminated⟩
  | joining => exact h.exists_terminated_of_joining hordered hcaller
  | awaiting => exact h.exists_terminated hcaller

/-! ### Contract -/

/-- Contract of a session after a history of events. A start succeeds exactly in a session that was
neither started nor terminated, and is refused without effect otherwise. A wait can return; it
answers `idle` before the start, and after it, unless the session is terminated, `completed` with
the result of the classpath up to positions. A termination can return; it leaves an unstarted
session `idle` and a started one in a terminal state, and the session is final from then on. -/
structure IsReliable (tree : FileTree) (roots : List Root) (events : List Event) (run : Run) :
    Prop where
  started : run.caller = .free →
    ((∃ next, Step tree run .started next) ↔ .started ∉ events ∧ .terminating ∉ events)
  refused : run.caller = .free →
    ((∃ error next, Step tree run (.refused error) next) ↔
      .started ∈ events ∨ .terminating ∈ events)
  unchanged : ∀ error next, Step tree run (.refused error) next →
    error = .alreadyStarted ∧ next = run
  waits : run.caller = .free → ∃ later last state, Steps tree run later last ∧
    (∀ event ∈ later, event = .worked) ∧ Step tree last (.waited state) last
  waitedIdle : .started ∉ events → ∀ state next, Step tree run (.waited state) next →
    state = .idle ∧ next = run
  waited : .started ∈ events → .terminating ∉ events →
    ∀ state next, Step tree run (.waited state) next → state = .completed ∧ next = run ∧
      ({ run.session.progress with graph := run.session.graph.recentred }).IsScanOf tree
        ((OriginResolver.ofRoots tree roots).1.resolve tree) roots
  completed : ∀ next later last, Step tree run (.waited .completed) next →
    Steps tree next later last → last.session.state = .completed
  terminates : run.caller ≠ .free → ∃ later last, Steps tree run later last ∧ .terminated ∈ later
  terminatedIdle : .started ∉ events → ∀ next later last, Step tree run .terminating next →
    Steps tree next later last → last.session.state = .idle ∧ .started ∉ later
  terminated : ∀ next later last, Step tree run .terminated next → Steps tree next later last →
    last = next ∧ Step tree last .terminated last ∧
      ∀ event ∈ later, event = .refused .alreadyStarted ∨ event = .waited next.session.state ∨
        event = .terminated
  terminal : .started ∈ events → ∀ next, Step tree run .terminated next →
    next.session.state.isTerminal

/-- A session is over when its termination returns. -/
theorem IsScanned.isOver_of_step (h : run.IsScanned tree roots config events)
    (hordered : run.IsOrdered) (hstep : Step tree run .terminated next) : next.IsOver := by
  have hnext := h.step hstep
  have hordered' := hordered.step hstep
  cases hstep with
  | terminate hcaller => exact hnext.isOver hordered' (hordered.busy (by simp [hcaller])) rfl
  | terminateAgain hfree hterminated => exact hnext.isOver hordered' hterminated hfree

/-- Every run of a session satisfies the contract. -/
theorem isReliable_of_steps (h : Steps tree (opened tree roots config) events run) :
    run.IsReliable tree roots events := by
  have hscanned := isScanned_of_steps h
  have hordered := isOrdered_of_steps h
  have hidle := hscanned.state_eq_idle_iff
  have hterminated := h.terminated_iff
  constructor
  case started =>
    intro hfree
    rw [← hidle, ← hterminated, Bool.not_eq_true]
    constructor
    · rintro ⟨next, hstep⟩
      cases hstep with
      | start _ hstart =>
        obtain ⟨hlive, hstate, -⟩ := start_eq_ok_iff.mp hstart
        exact ⟨hstate, hlive⟩
    · rintro ⟨hstate, hlive⟩
      exact ⟨_, .start hfree (start_eq_ok_iff.mpr ⟨hlive, hstate, rfl⟩)⟩
  case refused =>
    intro hfree
    have hbegun : run.session.state ≠ .idle ↔ .started ∈ events := by rw [Ne, hidle, not_not]
    rw [← hterminated, ← hbegun, or_comm]
    constructor
    · rintro ⟨error, next, hstep⟩
      cases hstep with
      | refuse _ hrefuse => exact (start_eq_error_iff.mp hrefuse).1
    · intro hused
      exact ⟨_, _, .refuse hfree (start_eq_error_iff.mpr ⟨hused, rfl⟩)⟩
  case unchanged =>
    intro error next hstep
    cases hstep with
    | refuse _ hrefuse => exact ⟨(start_eq_error_iff.mp hrefuse).2, rfl⟩
  case waits => exact hscanned.exists_waited
  case waitedIdle =>
    intro hnot state next hstep
    cases hstep with
    | wait => exact ⟨hidle.mpr hnot, rfl⟩
  case waited =>
    intro hstarted hlive state next hstep
    cases hstep with
    | wait _ hend =>
      have hcompleted : run.session.state = .completed := by
        cases hstate : run.session.state with
        | idle => exact absurd hstarted (hidle.mp hstate)
        | scanning => exact absurd hstate hend
        | completed => rfl
        | cancelled => exact absurd (hscanned.terminating hstate) hlive
      exact ⟨hcompleted, rfl, hscanned.isScanOf hcompleted⟩
  case completed =>
    intro next later last hstep hsteps
    generalize hevent : Event.waited .completed = event at hstep
    cases hstep with
    | wait =>
      exact hsteps.completed (Event.waited.inj hevent).symm
    | _ => cases hevent
  case terminates => exact hscanned.exists_terminated_of_busy hordered
  case terminatedIdle =>
    intro hnot next later last hstep hsteps
    cases hstep with
    | callOff =>
      have hstate : run.session.callOff.state = .idle := hidle.mpr hnot
      obtain ⟨hlast, -, hlater⟩ := hsteps.idle hstate rfl
      exact ⟨hlast, hlater⟩
  case terminated =>
    intro next later last hstep hsteps
    have hover := hscanned.isOver_of_step hordered hstep
    obtain ⟨rfl, hlater⟩ := hover.steps hsteps
    exact ⟨rfl, .terminateAgain hover.free hover.terminated, hlater⟩
  case terminal =>
    intro hstarted next hstep
    have hover := hscanned.isOver_of_step hordered hstep
    have hbegun : next.session.state ≠ .idle := fun hstate =>
      (hscanned.step hstep).state_eq_idle_iff.mp hstate (List.mem_append_left _ hstarted)
    cases hstate : next.session.state with
    | idle => exact absurd hstate hbegun
    | scanning => exact absurd hstate hover.state
    | completed => rfl
    | cancelled => rfl

end Run

end ClassAtlas.Session
