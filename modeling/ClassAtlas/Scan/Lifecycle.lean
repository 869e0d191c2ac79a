import ClassAtlas.Layout.Thread
import ClassAtlas.Scan.Run
import ClassAtlas.Scan.Session

/-!
# Session lifecycle

Small-step semantics of a session: its caller, the scan workers and the layout thread interleave
arbitrarily. The caller executes one call at a time and blocks where it joins another thread.
Termination is a sequence of steps: the stop flag of the layout, the disconnection of its channel,
the join of its thread, and the join of the scan.

Starting is a single step, since the layout thread waits when it is created and its creation
commutes with the scan. Thread creation is assumed to succeed, as in `Scheduler.start`.
Specification: `SPEC_FULL.md` §5, lines 65–68, §6, line 73, and §10.6, lines 181–182.
-/

namespace ClassAtlas

namespace Session

/-- Program point of the caller: outside of any call, or in one of the stages of termination. -/
inductive Caller where
  | free
  | stopping
  | dismissing
  | joining
  | awaiting
  deriving DecidableEq, Repr

/-- Running session: the session, the scan workers (finished ones included), the state of the layout
thread and its channel, and the caller. -/
structure Run where
  session : Session
  workers : List Scan.Worker := []
  stage : LayoutStage Float32 := .ended
  dismissed : Bool := false
  caller : Caller := .free

/-- Observable event of a step. `started`, `refused`, `waited` and `terminated` answer a call, the
others are progress. -/
inductive Event where
  | started
  | refused (error : SchedulerError)
  | waited (state : ScanState)
  | terminating
  | proceeded
  | terminated
  | worked
  | laidOut
  deriving DecidableEq, Repr

namespace Run

/-- Scan component of a session. -/
def scan (run : Run) : Scan.Run Float32 where
  scheduler := run.session.scheduler
  progress := run.session.progress
  workers := run.workers

/-- Replace the scan component of a session. -/
def withScan (run : Run) (scan : Scan.Run Float32) : Run :=
  { run with
    session.scheduler := scan.scheduler
    session.progress := scan.progress
    workers := scan.workers }

/-- Layout component of a session. -/
def layout (run : Run) (engine : LayoutEngine) : LayoutRun Float32 where
  engine
  graph := run.session.graph
  stage := run.stage
  dismissed := run.dismissed

/-- Replace the layout component of a session. -/
def withLayout (run : Run) (layout : LayoutRun Float32) : Run :=
  { run with
    session.layout := some layout.engine
    session.progress.graph := layout.graph
    stage := layout.stage }

/-- Step of a session. `callOff` to `terminate` are the stages of a termination; `work` and `layOut`
are steps of the scan and of the layout thread. -/
inductive Step (tree : FileTree) : Run → Event → Run → Prop
  | start {run : Run} {session : Session} :
    run.caller = .free → run.session.start = .ok session →
    Step tree run .started
      { run with
        session
        workers := [run.session.scheduler.roots.map .enter]
        stage := .resting }
  | refuse {run : Run} {error : SchedulerError} :
    run.caller = .free → run.session.start = .error error → Step tree run (.refused error) run
  | wait {run : Run} :
    run.caller = .free → run.session.state ≠ .scanning →
    Step tree run (.waited run.session.state) run
  | callOff {run : Run} :
    run.caller = .free → run.session.terminated = false →
    Step tree run .terminating { run with session := run.session.callOff, caller := .stopping }
  | stopLayout {run : Run} :
    run.caller = .stopping →
    Step tree run .proceeded { run with session := run.session.stopLayout, caller := .dismissing }
  | dismiss {run : Run} :
    run.caller = .dismissing →
    Step tree run .proceeded { run with dismissed := true, caller := .joining }
  | join {run : Run} :
    run.caller = .joining → run.stage = .ended →
    Step tree run .proceeded { run with caller := .awaiting }
  | terminate {run : Run} :
    run.caller = .awaiting → run.session.state ≠ .scanning →
    Step tree run .terminated { run with caller := .free }
  | terminateAgain {run : Run} :
    run.caller = .free → run.session.terminated = true → Step tree run .terminated run
  | work {run : Run} {scan : Scan.Run Float32} :
    Scan.Run.Step tree (run.session.originOf tree) run.scan .worked scan →
    Step tree run .worked (run.withScan scan)
  | layOut {run : Run} {engine : LayoutEngine} {layout : LayoutRun Float32} :
    run.session.layout = some engine → (run.layout engine).Step layout →
    Step tree run .laidOut (run.withLayout layout)

/-- Reflexive transitive closure of `Step` with the list of observed events. -/
inductive Steps (tree : FileTree) : Run → List Event → Run → Prop
  | refl (run : Run) : Steps tree run [] run
  | tail {first middle last : Run} {events : List Event} {event : Event} :
    Steps tree first events middle → Step tree middle event last →
    Steps tree first (events ++ [event]) last

/-- Session that has been opened and not been used. -/
def opened (tree : FileTree) (roots : List Root) (config : ScanConfig) : Run where
  session := ofRoots tree roots config

end Run

/-! ### Sequential requests -/

/-- The event answers a call. -/
def Event.isAnswer : Event → Bool
  | .started | .refused _ | .waited _ | .terminated => true
  | .terminating | .proceeded | .worked | .laidOut => false

/-- Request to a session: one of its calls, or time for a number of layout ticks. -/
inductive Request where
  | start
  | wait
  | terminate
  | layOut (count : Nat)
  deriving DecidableEq, Repr

/-- Serve a request without interleaving. -/
def Request.serve (tree : FileTree) (session : Session) : Request → Session × List Event
  | .start =>
    match session.start with
    | .ok next => (next, [.started])
    | .error error => (session, [.refused error])
  | .wait => (session.wait tree, [.waited (session.wait tree).state])
  | .terminate => (session.terminate tree, [.terminated])
  | .layOut count => (session.runLayout count, [])

/-- Serve a list of requests in order. -/
def Request.serveAll (tree : FileTree) (session : Session) : List Request → Session × List Event
  | [] => (session, [])
  | request :: requests =>
    let (next, answers) := request.serve tree session
    let (last, others) := serveAll tree next requests
    (last, answers ++ others)

end Session

end ClassAtlas
