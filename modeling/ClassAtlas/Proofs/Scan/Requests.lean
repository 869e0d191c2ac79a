import ClassAtlas.Proofs.Scan.Session
import Mathlib

/-!
# Sequential requests

Refinement of the sequential requests by the small-step semantics: each request, served without
interleaving, is a sequence of steps with the same result and the same answer. The laws of a session
therefore also hold of sequential use. Specification: `SPEC_FULL.md` §6, line 73, and §10.6, lines
181–182.
-/

namespace ClassAtlas.Session

variable {tree : FileTree}

/-- A wait does not change the cancel flag. -/
theorem cancelRequested_wait (session : Session) (tree : FileTree) :
    (session.wait tree).scheduler.cancelRequested = session.scheduler.cancelRequested := by
  show (session.scheduler.wait tree _ session.progress).1.cancelRequested = _
  unfold Scheduler.wait
  split
  · split <;> rfl
  · rfl

/-- A stopped layout performs no ticks. -/
theorem runLayout_of_stopped {session : Session} {engine : LayoutEngine}
    (hengine : session.layout = some engine) (hstopped : engine.stopped = true) (count : Nat) :
    session.runLayout count = session := by
  have hrun := LayoutEngine.run_of_stopped hstopped session.graph count
  rw [runLayout, hengine]
  simp only [hrun]
  rw [← hengine]
  rfl

namespace Run

variable {roots : List Root} {config : ScanConfig} {events : List Event} {run : Run}

/-- State of a session between two sequential requests: the caller is free, a scan in the state
`scanning` has not performed any action, the layout rests until the termination, and all stop flags
agree with the flag of the session. -/
structure IsCalm (run : Run) : Prop where
  free : run.caller = .free
  dismissed : run.dismissed = run.session.terminated
  cancelRequested : run.session.scheduler.cancelRequested = run.session.terminated
  workers : run.session.state = .scanning →
    run.workers = [run.session.scheduler.roots.map .enter]
  stopped : ∀ engine, run.session.layout = some engine → engine.stopped = run.session.terminated
  resting : run.session.terminated = false → run.session.layout.isSome → run.stage = .resting

/-- The initial session is calm. -/
theorem isCalm_opened (tree : FileTree) (roots : List Root) (config : ScanConfig) :
    (opened tree roots config).IsCalm where
  free := rfl
  dismissed := rfl
  cancelRequested := rfl
  workers := nofun
  stopped := nofun
  resting := nofun

/-- A sequence of steps refines the request: it has the same result and the same answer, and ends in
a calm session. -/
def CanServe (tree : FileTree) (run : Run) (request : Request) : Prop :=
  ∃ later next, Steps tree run later next ∧ next.IsCalm ∧
    next.session = (request.serve tree run.session).1 ∧
    later.filter Event.isAnswer = (request.serve tree run.session).2

private theorem filter_isAnswer_eq_nil {later : List Event} {event : Event}
    (hlater : ∀ other ∈ later, other = event) (hevent : event.isAnswer = false) :
    later.filter Event.isAnswer = [] := by
  rw [List.filter_eq_nil_iff]
  intro other hother
  rw [hlater other hother, hevent]
  exact Bool.false_ne_true

/-- A start of a calm session is refined, whether it succeeds or refuses. -/
theorem IsCalm.canServe_start (h : run.IsCalm) : run.CanServe tree .start := by
  cases hstart : run.session.start with
  | error error =>
    refine ⟨[.refused error], run, .single (.refuse h.free hstart), h, ?_, ?_⟩
    · rw [Request.serve, hstart]
    · rw [Request.serve, hstart]
      rfl
  | ok session =>
    have hstep : Step tree run .started _ := .start h.free hstart
    obtain ⟨hlive, -, rfl⟩ := start_eq_ok_iff.mp hstart
    refine ⟨[.started], _, .single hstep, ?_, ?_, ?_⟩
    · constructor
      case free => exact h.free
      case dismissed => exact h.dismissed
      case cancelRequested => exact h.cancelRequested
      case workers => exact fun _ => rfl
      case stopped =>
        intro engine hengine
        obtain ⟨⟩ := hengine
        exact hlive.symm
      case resting => exact fun _ _ => rfl
    · rw [Request.serve, hstart]
    · rw [Request.serve, hstart]
      rfl

/-- The workers of a scan without performed actions refine the wait. -/
theorem steps_wait (tree : FileTree) (run : Run) (hworkers : run.session.state = .scanning →
    run.workers = [run.session.scheduler.roots.map .enter]) :
    (run.session.wait tree).state ≠ .scanning ∧ ∃ later workers,
      (∀ event ∈ later, event = .worked) ∧
      Steps tree run later { run with session := run.session.wait tree, workers } := by
  by_cases hscanning : run.session.scheduler.state = .scanning
  · cases hstop : run.session.scheduler.cancelRequested with
    | true =>
      have hwait : run.session.wait tree =
          { run.session with scheduler.state := .cancelled } := by
        simp only [wait, Scheduler.wait, if_pos hscanning, hstop, if_true]
      have hworks : run.scan.WorksTo tree (run.session.originOf tree) _ :=
        Scan.Run.worksTo_cancelled hscanning hstop (hworkers hscanning)
      obtain ⟨later, hlater, hsteps⟩ := steps_of_worksTo hworks
      rw [hwait]
      exact ⟨nofun, later, _, hlater, hsteps⟩
    | false =>
      let tasks :=
        Scan.tasks tree run.session.scheduler.config.chunkSize run.session.scheduler.roots
      have hwait : run.session.wait tree = { run.session with
          scheduler.state := .completed
          progress := run.session.progress.absorbAll (run.session.originOf tree) tasks } := by
        simp only [wait, Scheduler.wait, if_pos hscanning, hstop, Bool.false_eq_true, if_false]
        rfl
      obtain ⟨workers, -, hworks⟩ : ∃ workers : List Scan.Worker, _ ∧
          run.scan.WorksTo tree (run.session.originOf tree) _ :=
        Scan.Run.worksTo_completed hscanning hstop (hworkers hscanning)
      obtain ⟨later, hlater, hsteps⟩ := steps_of_worksTo hworks
      rw [hwait]
      exact ⟨nofun, later, _, hlater, hsteps⟩
  · have hwait : run.session.wait tree = run.session := by
      simp only [wait, Scheduler.wait, if_neg hscanning]
    rw [hwait]
    exact ⟨hscanning, [], run.workers, by simp, .refl run⟩

/-- A wait in a calm session is refined. -/
theorem IsCalm.canServe_wait (h : run.IsCalm) : run.CanServe tree .wait := by
  obtain ⟨hend, later, workers, hlater, hsteps⟩ := steps_wait tree run h.workers
  have hwait : Step tree { run with session := run.session.wait tree, workers } _ _ :=
    .wait h.free hend
  refine ⟨_, _, hsteps.tail hwait, ?_, rfl, ?_⟩
  · exact {
      free := h.free
      dismissed := h.dismissed
      cancelRequested := (cancelRequested_wait run.session tree).trans h.cancelRequested
      workers := fun hscanning => absurd hscanning hend
      stopped := h.stopped
      resting := h.resting }
  · rw [List.filter_append, filter_isAnswer_eq_nil hlater rfl]
    rfl

/-- A resting or ended layout thread ends after its dismissal. -/
theorem steps_finish (tree : FileTree) (run : Run) (hdismissed : run.dismissed = true)
    (hengine : run.stage ≠ .ended → run.session.layout.isSome)
    (hresting : run.stage ≠ .ended → run.stage = .resting) :
    ∃ later, (∀ event ∈ later, event = .laidOut) ∧
      Steps tree run later { run with stage := .ended } := by
  by_cases hstage : run.stage = .ended
  · exact ⟨[], by simp, hstage ▸ .refl run⟩
  · obtain ⟨engine, hengine⟩ := Option.isSome_iff_exists.mp (hengine hstage)
    have hfinish : Step tree run .laidOut
        (run.withLayout { run.layout engine with stage := .ended }) :=
      .layOut hengine (.finish (hresting hstage) hdismissed)
    have hsame : run.withLayout { run.layout engine with stage := .ended } =
        { run with stage := .ended } := by
      rw [withLayout, layout, ← hengine]
      rfl
    exact ⟨[.laidOut], by simp, hsame ▸ .single hfinish⟩

/-- A termination of a calm session is refined. -/
theorem IsCalm.canServe_terminate (h : run.IsCalm) (hordered : run.IsOrdered) :
    run.CanServe tree .terminate := by
  cases hover : run.session.terminated with
  | true =>
    refine ⟨[.terminated], run, .single (.terminateAgain h.free hover), h, ?_, rfl⟩
    rw [Request.serve, terminate, if_pos hover]
  | false =>
    let stopped := run.session.callOff.stopLayout
    have hcallOff : Step tree run .terminating
        { run with session := run.session.callOff, caller := .stopping } := .callOff h.free hover
    have hbegun : Steps tree run [.terminating, .proceeded, .proceeded]
        { run with session := stopped, dismissed := true, caller := .joining } :=
      ((Steps.single hcallOff).tail (.stopLayout rfl)).tail (.dismiss rfl)
    have hlayout : run.stage ≠ .ended → stopped.layout.isSome := fun hstage => by
      show (run.session.layout.map LayoutEngine.stop).isSome
      rw [Option.isSome_map]
      exact hordered.engine hstage
    obtain ⟨laidOut, hlaidOut, hended⟩ := steps_finish tree
      { run with session := stopped, dismissed := true, caller := .joining } rfl hlayout
      fun hstage => h.resting hover (hordered.engine hstage)
    have hjoined := hended.tail (.join rfl rfl)
    obtain ⟨hend, worked, workers, hworked, hwaited⟩ := steps_wait tree
      { run with session := stopped, stage := .ended, dismissed := true, caller := .awaiting }
      h.workers
    have hterminated := hwaited.tail (.terminate rfl hend)
    refine ⟨_, _, (hbegun.trans hjoined).trans hterminated, ?_, ?_, ?_⟩
    · constructor
      case free => rfl
      case dismissed => rfl
      case cancelRequested => exact cancelRequested_wait stopped tree
      case workers => exact fun hscanning => absurd hscanning hend
      case stopped =>
        intro engine hengine
        obtain ⟨before, -, rfl⟩ := Option.map_eq_some_iff.mp hengine
        rfl
      case resting => exact nofun
    · rw [Request.serve, terminate, if_neg (by simp [hover])]
    · simp only [List.filter_append, filter_isAnswer_eq_nil hlaidOut rfl,
        filter_isAnswer_eq_nil hworked rfl]
      rfl

/-- Layout ticks of a calm session are refined. -/
theorem IsCalm.canServe_layOut (h : run.IsCalm) {originOf : String → Origin}
    (hgraph : run.session.graph.IsWellFormed originOf) (count : Nat) :
    run.CanServe tree (.layOut count) := by
  cases hlayout : run.session.layout with
  | none =>
    refine ⟨[], run, .refl run, h, ?_, rfl⟩
    rw [Request.serve, runLayout, hlayout]
  | some engine =>
    have hstopped := h.stopped engine hlayout
    cases hover : run.session.terminated with
    | true =>
      refine ⟨[], run, .refl run, h, ?_, rfl⟩
      rw [Request.serve, runLayout_of_stopped hlayout (hstopped.trans hover)]
    | false =>
      have hgo := hstopped.trans hover
      let laidOut := engine.run run.session.graph count
      have hsteps : (run.layout engine).Steps ⟨laidOut.1, laidOut.2, .resting, false⟩ := by
        rw [layout, h.dismissed, hover, h.resting hover (Option.isSome_of_eq_some hlayout)]
        exact LayoutRun.steps_run hgraph hgo count
      obtain ⟨-, later, hlater, hdone⟩ := steps_of_layout tree hlayout hsteps
      refine ⟨later, _, hdone, ?_, ?_, ?_⟩
      · constructor
        case free => exact h.free
        case dismissed => exact h.dismissed
        case cancelRequested => exact h.cancelRequested
        case workers => exact h.workers
        case stopped =>
          intro next hnext
          obtain ⟨⟩ := hnext
          exact (LayoutEngine.stopped_run engine _ count).trans hstopped
        case resting => exact fun _ _ => rfl
      · rw [Request.serve, runLayout, hlayout]
        rfl
      · exact filter_isAnswer_eq_nil hlater rfl

/-- Every request to a calm session is refined. -/
theorem IsCalm.canServe (h : run.IsCalm) (hordered : run.IsOrdered) {originOf : String → Origin}
    (hgraph : run.session.graph.IsWellFormed originOf) (request : Request) :
    run.CanServe tree request := by
  cases request with
  | start => exact h.canServe_start
  | wait => exact h.canServe_wait
  | terminate => exact h.canServe_terminate hordered
  | layOut count => exact h.canServe_layOut hgraph count

/-- Every list of requests to a calm session is refined. -/
theorem IsCalm.serveAll (h : run.IsCalm)
    (hsteps : Steps tree (opened tree roots config) events run) (requests : List Request) :
    ∃ later last, Steps tree run later last ∧ last.IsCalm ∧
      last.session = (Request.serveAll tree run.session requests).1 ∧
      later.filter Event.isAnswer = (Request.serveAll tree run.session requests).2 := by
  induction requests generalizing run events with
  | nil => exact ⟨[], run, .refl run, h, rfl, rfl⟩
  | cons request requests ih =>
    obtain ⟨later, next, hserved, hcalm, hsession, hanswers⟩ := h.canServe
      (isOrdered_of_steps hsteps) (isScanned_of_steps hsteps).isWellFormed request
    obtain ⟨others, last, hrest, hend, hlast, hothers⟩ := ih hcalm (hsteps.trans hserved)
    rw [hsession] at hlast hothers
    refine ⟨later ++ others, last, hserved.trans hrest, hend, hlast, ?_⟩
    rw [List.filter_append, hanswers, hothers]
    rfl

/-- Every run of a session satisfies `IsReliable`, with a bound on its worker steps that is fixed
initially, and every list of sequential requests is refined by a run. -/
theorem reliable (tree : FileTree) (roots : List Root) (config : ScanConfig) :
    (∀ events run, Steps tree (opened tree roots config) events run →
      events.count .worked ≤ (Scan.agenda tree config.chunkSize roots).length + 1 ∧
        run.IsReliable tree roots events) ∧
    ∀ requests : List Request, ∃ events run,
      Steps tree (opened tree roots config) events run ∧ run.caller = .free ∧
        run.session = (Request.serveAll tree (ofRoots tree roots config) requests).1 ∧
        events.filter Event.isAnswer =
          (Request.serveAll tree (ofRoots tree roots config) requests).2 := by
  refine ⟨fun events run hsteps => ⟨?_, isReliable_of_steps hsteps⟩, fun requests => ?_⟩
  · exact (isScanned_of_steps hsteps).count_worked_le
  · obtain ⟨events, run, hsteps, hcalm, hsession, hanswers⟩ :=
      (isCalm_opened tree roots config).serveAll (.refl _) requests
    exact ⟨events, run, hsteps, hcalm.free, hsession, hanswers⟩

/-- A start, a wait, a termination, and a refused restart. -/
example (tree : FileTree) (config : ScanConfig) :
    (Request.serveAll tree (ofRoots tree [] config)
      [.wait, .start, .start, .wait, .terminate, .start, .wait]).2 =
      [.waited .idle, .started, .refused .alreadyStarted, .waited .completed, .terminated,
        .refused .alreadyStarted, .waited .completed] := by
  rfl

end Run

end ClassAtlas.Session
