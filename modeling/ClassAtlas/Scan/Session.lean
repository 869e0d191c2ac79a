import ClassAtlas.Layout.Engine
import ClassAtlas.Scan.Scheduler

/-!
# Sessions

Control surface that owns one scan and one layout over a graph. Opening a session validates the
classpath and catalogues the archives; termination stops both activities and is idempotent.
Specification: `SPEC_FULL.md` §5, line 68, §6, lines 71–73, and §10.6, lines 181–182.
-/

namespace ClassAtlas

/-- Session configuration: the scan's, and the tick interval in milliseconds. -/
structure SessionConfig where
  scan : ScanConfig
  tickMs : Nat
  deriving DecidableEq, Repr

/-- Session; `layout` is absent before the start. -/
structure Session where
  scheduler : Scheduler
  resolver : OriginResolver
  progress : Scan.Progress Float32
  layout : Option LayoutEngine
  terminated : Bool

namespace Session

/-- Session over validated roots, with the reports of archives that cannot be catalogued. -/
def ofRoots (tree : FileTree) (roots : List Root) (config : ScanConfig) : Session :=
  let (resolver, warnings) := OriginResolver.ofRoots tree roots
  { scheduler := { roots, config }, resolver, progress := { graph := .empty, warnings },
    layout := none, terminated := false }

/-- Validate a classpath and open a session on its roots. -/
def openOn (tree : FileTree) (paths : List String) (config : ScanConfig) :
    Except ClasspathError Session := do
  let roots ← Classpath.validate tree paths
  return ofRoots tree roots config

/-- Origin classification over the session's roots. -/
def originOf (session : Session) (tree : FileTree) (name : String) : Origin :=
  session.resolver.resolve tree name

/-- Dependency graph of the session. -/
def graph (session : Session) : Graph Float32 := session.progress.graph

/-- Start the scan and the layout thread, which is assumed to be created. A session that was
terminated or started before refuses. -/
def start (session : Session) : Except SchedulerError Session := do
  if session.terminated then .error .alreadyStarted
  else
    let scheduler ← session.scheduler.start
    return { session with scheduler, layout := some {} }

/-- Block until a started scan has ended; the layout continues. -/
def wait (session : Session) (tree : FileTree) : Session :=
  let (scheduler, progress) :=
    session.scheduler.wait tree (session.originOf tree) session.progress
  { session with scheduler, progress }

/-- State of the scan. -/
def state (session : Session) : ScanState := session.scheduler.state

/-- Number of layout ticks. -/
def layoutTicks (session : Session) : Nat := (session.layout.map (·.ticks)).getD 0

/-- A number of ticks of a started layout. -/
def runLayout (session : Session) (count : Nat) : Session :=
  match session.layout with
  | none => session
  | some engine =>
    let (engine, graph) := engine.run session.graph count
    { session with layout := some engine, progress := { session.progress with graph } }

/-- Mark the session as terminated and set the cancel flag of the scan. -/
def callOff (session : Session) : Session :=
  { session with terminated := true, scheduler := session.scheduler.cancel }

/-- Set the stop flag of the layout. -/
def stopLayout (session : Session) : Session :=
  { session with layout := session.layout.map LayoutEngine.stop }

/-- Terminate scan and layout; only the first call has an effect. -/
def terminate (session : Session) (tree : FileTree) : Session :=
  if session.terminated then session else session.callOff.stopLayout.wait tree

end Session

end ClassAtlas
