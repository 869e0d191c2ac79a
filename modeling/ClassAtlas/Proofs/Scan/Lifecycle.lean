import ClassAtlas.Proofs.Layout.Thread
import ClassAtlas.Proofs.Scan.Shadow
import ClassAtlas.Scan.Lifecycle
import Mathlib

/-!
# Lifecycle of sessions

Laws of a session under arbitrary interleaving of its caller, the scan workers and the layout
thread. Up to positions, the scan of a session simulates a scan without a layout; a session is
started at most once and terminated at most once, and a terminated session is final. Specification:
`SPEC_FULL.md` §5, line 68, §6, line 73, and §10.6, lines 181–182.
-/

namespace ClassAtlas.Session

/-- A session starts unless it was started or terminated. -/
theorem start_eq_ok_iff {session next : Session} :
    session.start = .ok next ↔ session.terminated = false ∧ session.state = .idle ∧
      next = { session with
        scheduler := { session.scheduler with state := .scanning }, layout := some {} } := by
  unfold start Scheduler.start state
  cases session.terminated with
  | true => simp
  | false =>
    by_cases hidle : session.scheduler.state = .idle
    · simp [hidle, bind, Except.bind, pure, Except.pure, eq_comm]
    · simp [hidle, bind, Except.bind]

/-- A session that was started or terminated refuses to start. -/
theorem start_eq_error_iff {session : Session} {error : SchedulerError} :
    session.start = .error error ↔
      (session.terminated = true ∨ session.state ≠ .idle) ∧ error = .alreadyStarted := by
  unfold start Scheduler.start state
  cases session.terminated with
  | true => simp [eq_comm]
  | false =>
    by_cases hidle : session.scheduler.state = .idle
    · simp [hidle, bind, Except.bind, pure, Except.pure]
    · simp [hidle, bind, Except.bind]

/-! ### Simulation of the scan -/

/-- Scan event of a session event; silent events have none. -/
def Event.scan? : Event → Option Scan.Event
  | .started => some .started
  | .terminating => some .cancelled
  | .worked => some .worked
  | _ => none

private theorem mem_scan_started {events : List Event} :
    .started ∈ events.filterMap Event.scan? ↔ .started ∈ events := by
  rw [List.mem_filterMap]
  constructor
  · rintro ⟨event, hmem, hevent⟩
    cases event <;> simp [Event.scan?] at hevent
    exact hmem
  · exact fun hmem => ⟨_, hmem, rfl⟩

private theorem mem_scan_cancelled {events : List Event} :
    .cancelled ∈ events.filterMap Event.scan? ↔ .terminating ∈ events := by
  rw [List.mem_filterMap]
  constructor
  · rintro ⟨event, hmem, hevent⟩
    cases event <;> simp [Event.scan?] at hevent
    exact hmem
  · exact fun hmem => ⟨_, hmem, rfl⟩

private theorem count_scan_worked (events : List Event) :
    (events.filterMap Event.scan?).count .worked = events.count .worked := by
  induction events with
  | nil => rfl
  | cons event events ih =>
    rw [List.filterMap_cons]
    cases event <;> simp [Event.scan?, ih]

namespace Run

variable {tree : FileTree} {roots : List Root} {config : ScanConfig} {events : List Event}
  {run next : Run} {event : Event}

/-- Simulation relation: up to positions, the scan of the session is a run of the scan over the same
events. -/
structure IsScanned (tree : FileTree) (roots : List Root) (config : ScanConfig)
    (events : List Event) (run : Run) : Prop where
  resolver : run.session.resolver = (OriginResolver.ofRoots tree roots).1
  shadow : ∃ shadow : Scan.Run Float32,
    Scan.Run.Steps tree ((OriginResolver.ofRoots tree roots).1.resolve tree)
      (Scan.Run.idle roots config) (events.filterMap Event.scan?) shadow ∧
    shadow.IsShadowOf run.scan

/-- The relation holds initially. -/
theorem isScanned_opened (tree : FileTree) (roots : List Root) (config : ScanConfig) :
    (opened tree roots config).IsScanned tree roots config [] where
  resolver := rfl
  shadow := ⟨_, .refl _, rfl, rfl, ⟨Graph.recentred_empty.symm, rfl⟩⟩

/-- A layout step changes positions only. -/
theorem recentred_of_layout {layout later : LayoutRun Float32} (h : layout.Step later) :
    later.graph.recentred = layout.graph.recentred := by
  cases h with
  | move => exact Graph.recentred_moveBy _ _ _
  | _ => rfl

/-- A silent step preserves the relation. -/
theorem IsScanned.silent (h : run.IsScanned tree roots config events) (hevent : event.scan? = none)
    (hresolver : next.session.resolver = run.session.resolver)
    (hscan : ∀ {shadow : Scan.Run Float32}, shadow.IsShadowOf run.scan →
      shadow.IsShadowOf next.scan) : next.IsScanned tree roots config (events ++ [event]) where
  resolver := hresolver.trans h.resolver
  shadow := by
    obtain ⟨shadow, hsteps, hshadow⟩ := h.shadow
    refine ⟨shadow, ?_, hscan hshadow⟩
    rw [List.filterMap_append, List.filterMap_cons_none hevent, List.filterMap_nil, List.append_nil]
    exact hsteps

/-- A scan step preserves the relation. -/
theorem IsScanned.heard (h : run.IsScanned tree roots config events) {heard : Scan.Event}
    (hevent : event.scan? = some heard) (hresolver : next.session.resolver = run.session.resolver)
    (hscan : ∀ {shadow : Scan.Run Float32}, shadow.IsShadowOf run.scan → ∃ later,
      Scan.Run.Step tree (run.session.originOf tree) shadow heard later ∧
        later.IsShadowOf next.scan) : next.IsScanned tree roots config (events ++ [event]) where
  resolver := hresolver.trans h.resolver
  shadow := by
    obtain ⟨shadow, hsteps, hshadow⟩ := h.shadow
    obtain ⟨later, hstep, hlater⟩ := hscan hshadow
    have horigin : run.session.originOf tree =
        (OriginResolver.ofRoots tree roots).1.resolve tree := by
      rw [← h.resolver]
      rfl
    rw [horigin] at hstep
    refine ⟨later, ?_, hlater⟩
    rw [List.filterMap_append, List.filterMap_cons_some hevent, List.filterMap_nil]
    exact hsteps.tail hstep

/-- Every step preserves the relation. -/
theorem IsScanned.step (h : run.IsScanned tree roots config events)
    (hstep : Step tree run event next) : next.IsScanned tree roots config (events ++ [event]) := by
  cases hstep with
  | start hfree hstart =>
    obtain ⟨-, hidle, rfl⟩ := start_eq_ok_iff.mp hstart
    refine h.heard rfl rfl fun hshadow => ?_
    obtain ⟨hscheduler, -, hprogress⟩ := hshadow
    refine ⟨_, .start (Scheduler.start_eq_ok_iff.mpr ⟨?_, rfl⟩), ?_, ?_, hprogress⟩
    · rw [hscheduler]
      exact hidle
    · rw [hscheduler]
      rfl
    · rw [hscheduler]
      rfl
  | refuse => exact h.silent rfl rfl id
  | wait => exact h.silent rfl rfl id
  | callOff hfree hlive =>
    refine h.heard rfl rfl fun hshadow => ⟨_, .cancel _, ?_, hshadow.workers, hshadow.progress⟩
    rw [hshadow.scheduler]
    rfl
  | stopLayout => exact h.silent rfl rfl id
  | dismiss => exact h.silent rfl rfl id
  | join => exact h.silent rfl rfl id
  | terminate => exact h.silent rfl rfl id
  | terminateAgain => exact h.silent rfl rfl id
  | work hwork => exact h.heard rfl rfl fun hshadow => hshadow.worked hwork
  | layOut hengine hlayout =>
    refine h.silent rfl rfl fun hshadow => ⟨hshadow.scheduler, hshadow.workers, ?_, ?_⟩
    · exact hshadow.progress.graph.trans (recentred_of_layout hlayout).symm
    · exact hshadow.progress.counts

/-- Every run of a session satisfies the relation. -/
theorem isScanned_of_steps (h : Steps tree (opened tree roots config) events run) :
    run.IsScanned tree roots config events := by
  induction h with
  | refl => exact isScanned_opened tree roots config
  | tail _ hstep ih => exact ih.step hstep

/-- The state of a session is `idle` exactly before its start. -/
theorem IsScanned.state_eq_idle_iff (h : run.IsScanned tree roots config events) :
    run.session.state = .idle ↔ .started ∉ events := by
  obtain ⟨shadow, hsteps, hshadow⟩ := h.shadow
  have hcount := hsteps.count_started
  rw [hshadow.scheduler] at hcount
  rw [← mem_scan_started, ← List.count_eq_zero, hcount]
  show _ ↔ (if run.session.state = .idle then 0 else 1) = 0
  split <;> simp_all

/-- Outside of the state `scanning`, no worker has remaining actions. -/
theorem IsScanned.workers (h : run.IsScanned tree roots config events)
    (hend : run.session.state ≠ .scanning) : ∀ worker ∈ run.workers, worker = [] := by
  obtain ⟨shadow, hsteps, hshadow⟩ := h.shadow
  have hworkers := (Scan.Run.isSound_of_steps hsteps).ended
  rw [hshadow.scheduler, hshadow.workers] at hworkers
  exact hworkers hend

/-- A session is cancelled only by its termination. -/
theorem IsScanned.terminating (h : run.IsScanned tree roots config events)
    (hcancelled : run.session.state = .cancelled) : .terminating ∈ events := by
  obtain ⟨shadow, hsteps, hshadow⟩ := h.shadow
  have hsound := Scan.Run.isSound_of_steps hsteps
  refine mem_scan_cancelled.mp (hsound.cancelled (hsound.interrupted ?_))
  rw [hshadow.scheduler]
  exact hcancelled

/-- A completed scan has the result of the classpath up to positions. -/
theorem IsScanned.isScanOf (h : run.IsScanned tree roots config events)
    (hcompleted : run.session.state = .completed) :
    ({ run.session.progress with graph := run.session.graph.recentred }).IsScanOf tree
      ((OriginResolver.ofRoots tree roots).1.resolve tree) roots := by
  obtain ⟨shadow, hsteps, hshadow⟩ := h.shadow
  refine hshadow.progress.isScanOf (hsteps.isScanOf ?_)
  rw [hshadow.scheduler]
  exact hcompleted

/-- The graph of a session is well-formed. -/
theorem IsScanned.isWellFormed (h : run.IsScanned tree roots config events) :
    run.session.graph.IsWellFormed ((OriginResolver.ofRoots tree roots).1.resolve tree) := by
  obtain ⟨shadow, hsteps, hshadow⟩ := h.shadow
  have hgraph := (Scan.Run.isSound_of_steps hsteps).isWellFormed
  rw [hshadow.progress.graph] at hgraph
  exact hgraph.of_recentred

/-- The number of worker steps of a session is bounded by the length of the agenda plus one. -/
theorem IsScanned.count_worked_le (h : run.IsScanned tree roots config events) :
    events.count .worked ≤ (Scan.agenda tree config.chunkSize roots).length + 1 := by
  obtain ⟨shadow, hsteps, -⟩ := h.shadow
  rw [← count_scan_worked]
  exact (Scan.Run.isSound_of_steps hsteps).count_worked_le

/-! ### Control invariant -/

/-- Control invariant of a session: the caller is blocked only during a termination, the layout
thread runs only after the start and on a present engine, and each stage of a termination implies
the completion of the stages before it. -/
structure IsOrdered (run : Run) : Prop where
  busy : run.caller ≠ .free → run.session.terminated = true
  unstarted : run.session.state = .idle → run.stage = .ended
  engine : run.stage ≠ .ended → run.session.layout.isSome
  dismissed : run.caller = .joining → run.dismissed = true
  joined : run.session.terminated = true → run.caller = .free ∨ run.caller = .awaiting →
    run.stage = .ended
  finished : run.session.terminated = true → run.caller = .free → run.session.state ≠ .scanning

/-- The invariant holds initially. -/
theorem isOrdered_opened (tree : FileTree) (roots : List Root) (config : ScanConfig) :
    (opened tree roots config).IsOrdered where
  busy h := absurd rfl h
  unstarted _ := rfl
  engine h := absurd rfl h
  dismissed := nofun
  joined := nofun
  finished := nofun

/-- A worker step preserves the state or ends the scan. -/
theorem state_of_worked {originOf : String → Origin} {scan later : Scan.Run Float32}
    (h : Scan.Run.Step tree originOf scan .worked later) :
    later.scheduler.state = scan.scheduler.state ∨
      scan.scheduler.state = .scanning ∧ later.scheduler.state.isTerminal := by
  cases h with
  | work => exact .inl rfl
  | finish hscanning =>
    refine .inr ⟨hscanning, ?_⟩
    show (if _ then ScanState.cancelled else ScanState.completed).isTerminal = true
    split <;> rfl

/-- Every step preserves the invariant. -/
theorem IsOrdered.step (h : run.IsOrdered) (hstep : Step tree run event next) :
    next.IsOrdered := by
  cases hstep with
  | start hfree hstart =>
    obtain ⟨hlive, hidle, rfl⟩ := start_eq_ok_iff.mp hstart
    constructor
    case busy => exact fun hbusy => absurd hfree hbusy
    case unstarted => exact nofun
    case engine => exact fun _ => rfl
    case dismissed => exact h.dismissed
    case joined => exact fun hover => absurd (hlive.symm.trans hover) Bool.false_ne_true
    case finished => exact fun hover => absurd (hlive.symm.trans hover) Bool.false_ne_true
  | refuse => exact h
  | wait => exact h
  | callOff => exact ⟨fun _ => rfl, h.unstarted, h.engine, nofun, nofun, nofun⟩
  | stopLayout hcaller =>
    have hover := h.busy (by simp [hcaller])
    refine ⟨fun _ => hover, h.unstarted, fun hstage => ?_, nofun, nofun, nofun⟩
    rw [stopLayout, Option.isSome_map]
    exact h.engine hstage
  | dismiss hcaller =>
    have hover := h.busy (by simp [hcaller])
    exact ⟨fun _ => hover, h.unstarted, h.engine, fun _ => rfl, nofun, nofun⟩
  | join hcaller hstage =>
    have hover := h.busy (by simp [hcaller])
    exact ⟨fun _ => hover, h.unstarted, h.engine, nofun, fun _ _ => hstage, nofun⟩
  | terminate hcaller hend =>
    have hover := h.busy (by simp [hcaller])
    exact ⟨fun _ => hover, h.unstarted, h.engine, nofun, fun _ _ => h.joined hover (.inr hcaller),
      fun _ _ => hend⟩
  | terminateAgain => exact h
  | work hwork =>
    obtain hstate | ⟨hscanning, hend⟩ := state_of_worked hwork
    · refine ⟨h.busy, fun hidle => h.unstarted (hstate.symm.trans hidle), h.engine, h.dismissed,
        h.joined, fun hover hfree hscanning => ?_⟩
      exact h.finished hover hfree (hstate.symm.trans hscanning)
    · refine ⟨h.busy, fun hidle => ?_, h.engine, h.dismissed, h.joined, fun _ _ hscanning => ?_⟩
      · exact absurd hidle (ScanState.ne_of_isTerminal hend).2
      · exact absurd hscanning (ScanState.ne_of_isTerminal hend).1
  | layOut hengine hlayout =>
    have hstage := hlayout.stage_ne
    exact {
      busy := h.busy
      unstarted := fun hidle => absurd (h.unstarted hidle) hstage
      engine := fun _ => rfl
      dismissed := h.dismissed
      joined := fun hover hcaller => absurd (h.joined hover hcaller) hstage
      finished := h.finished }

/-- Every run of a session satisfies the invariant. -/
theorem isOrdered_of_steps (h : Steps tree (opened tree roots config) events run) :
    run.IsOrdered := by
  induction h with
  | refl => exact isOrdered_opened tree roots config
  | tail _ hstep ih => exact ih.step hstep

/-- The flag of a session is set exactly if its termination has begun. -/
theorem Steps.terminated_iff (h : Steps tree (opened tree roots config) events run) :
    run.session.terminated = true ↔ .terminating ∈ events := by
  induction h with
  | refl => simp [opened, ofRoots]
  | tail _ hstep ih =>
    rw [List.mem_append, List.mem_singleton, ← ih]
    cases hstep with
    | start hfree hstart =>
      obtain ⟨hlive, -, rfl⟩ := start_eq_ok_iff.mp hstart
      simp [hlive]
    | callOff => simp [callOff]
    | _ => simp [stopLayout, withScan, withLayout]

/-! ### Final sessions -/

/-- A session is over if its termination has returned and neither its scan nor its layout has any
steps left. -/
structure IsOver (run : Run) : Prop where
  free : run.caller = .free
  terminated : run.session.terminated = true
  state : run.session.state ≠ .scanning
  workers : ∀ worker ∈ run.workers, worker = []
  stage : run.stage = .ended

/-- A terminated session whose caller is free is over. -/
theorem IsScanned.isOver (h : run.IsScanned tree roots config events) (hordered : run.IsOrdered)
    (hterminated : run.session.terminated = true) (hfree : run.caller = .free) : run.IsOver where
  free := hfree
  terminated := hterminated
  state := hordered.finished hterminated hfree
  workers := h.workers (hordered.finished hterminated hfree)
  stage := hordered.joined hterminated (.inl hfree)

/-- A step of a session that is over has no effect: it refuses a start or answers a call. -/
theorem IsOver.step (h : run.IsOver) (hstep : Step tree run event next) :
    next = run ∧ (event = .refused .alreadyStarted ∨ event = .waited run.session.state ∨
      event = .terminated) := by
  obtain ⟨hfree, hterminated, hstate, hworkers, hstage⟩ := h
  cases hstep with
  | start _ hstart =>
    have hlive := (start_eq_ok_iff.mp hstart).1
    exact absurd (hlive.symm.trans hterminated) Bool.false_ne_true
  | refuse _ hrefuse =>
    obtain ⟨-, rfl⟩ := start_eq_error_iff.mp hrefuse
    exact ⟨rfl, .inl rfl⟩
  | wait => exact ⟨rfl, .inr (.inl rfl)⟩
  | callOff _ hlive => exact absurd (hlive.symm.trans hterminated) Bool.false_ne_true
  | stopLayout hcaller => cases hfree.symm.trans hcaller
  | dismiss hcaller => cases hfree.symm.trans hcaller
  | join hcaller => cases hfree.symm.trans hcaller
  | terminate hcaller => cases hfree.symm.trans hcaller
  | terminateAgain => exact ⟨rfl, .inr (.inr rfl)⟩
  | work hwork =>
    cases hwork with
    | work before after hsplit =>
      have hmem : _ :: _ ∈ run.workers := hsplit ▸ List.mem_append_right _ List.mem_cons_self
      exact absurd (hworkers _ hmem) (List.cons_ne_nil _ _)
    | finish hscanning => exact absurd hscanning hstate
  | layOut _ hlayout => exact absurd hstage hlayout.stage_ne

/-- A session that is over is final. -/
theorem IsOver.steps {later : List Event} {last : Run} (h : run.IsOver)
    (hsteps : Steps tree run later last) :
    last = run ∧ ∀ event ∈ later, event = .refused .alreadyStarted ∨
      event = .waited run.session.state ∨ event = .terminated := by
  induction hsteps with
  | refl => exact ⟨rfl, by simp⟩
  | tail _ hstep ih =>
    obtain ⟨rfl, hevents⟩ := ih
    obtain ⟨hlast, hevent⟩ := h.step hstep
    refine ⟨hlast, fun other hother => ?_⟩
    obtain hold | hnew := List.mem_append.mp hother
    · exact hevents other hold
    · obtain rfl := List.mem_singleton.mp hnew
      exact hevent

/-- A session that is terminated before its start stays `idle`. -/
theorem Step.idle (hstep : Step tree run event next) (hidle : run.session.state = .idle)
    (hterminated : run.session.terminated = true) :
    next.session.state = .idle ∧ next.session.terminated = true ∧ event ≠ .started := by
  cases hstep with
  | start _ hstart =>
    have hlive := (start_eq_ok_iff.mp hstart).1
    exact absurd (hlive.symm.trans hterminated) Bool.false_ne_true
  | callOff => exact ⟨hidle, rfl, nofun⟩
  | work hwork =>
    obtain hstate | ⟨hscanning, -⟩ := state_of_worked hwork
    · exact ⟨hstate.trans hidle, hterminated, nofun⟩
    · cases hidle.symm.trans hscanning
  | _ => exact ⟨hidle, hterminated, nofun⟩

/-- Every run of a session that is terminated before its start stays `idle`, without a start. -/
theorem Steps.idle {later : List Event} {last : Run} (hsteps : Steps tree run later last)
    (hidle : run.session.state = .idle) (hterminated : run.session.terminated = true) :
    last.session.state = .idle ∧ last.session.terminated = true ∧ .started ∉ later := by
  induction hsteps with
  | refl => exact ⟨hidle, hterminated, List.not_mem_nil⟩
  | tail _ hstep ih =>
    obtain ⟨hidle, hterminated, hevents⟩ := ih
    obtain ⟨hidle, hterminated, hevent⟩ := hstep.idle hidle hterminated
    refine ⟨hidle, hterminated, ?_⟩
    rw [List.mem_append, List.mem_singleton]
    exact not_or.mpr ⟨hevents, hevent.symm⟩

/-- A completed scan stays completed. -/
theorem Step.completed (hstep : Step tree run event next)
    (hcompleted : run.session.state = .completed) : next.session.state = .completed := by
  cases hstep with
  | start _ hstart =>
    have hidle := (start_eq_ok_iff.mp hstart).2.1
    cases hidle.symm.trans hcompleted
  | work hwork =>
    obtain hstate | ⟨hscanning, -⟩ := state_of_worked hwork
    · exact hstate.trans hcompleted
    · cases hscanning.symm.trans hcompleted
  | _ => exact hcompleted

/-- A completed scan stays completed in every run. -/
theorem Steps.completed {later : List Event} {last : Run} (hsteps : Steps tree run later last)
    (hcompleted : run.session.state = .completed) :
    last.session.state = .completed := by
  induction hsteps with
  | refl => exact hcompleted
  | tail _ hstep ih => exact hstep.completed ih

end Run

end ClassAtlas.Session
