import ClassAtlas.Layout.Engine

/-!
# Layout thread

Small-step semantics of the layout thread between its start and its end. A tick consists of a node
listing, a repulsion pass, an attraction pass, one translation per displaced node and the increment
of the tick count, interleaved with insertions by other threads. The stop flag is polled behind each
pass and abandons the tick. Disconnection of the channel ends the thread while it waits.

The displacements depend on the weights that the passes read at different moments and on unspecified
choices; the step relation admits any displacement of listed nodes. Specification: `SPEC_FULL.md`
§4.4, lines 53–62, §5, line 66, and §10.7, lines 189–193.
-/

namespace ClassAtlas

/-- Program point of the layout thread: waiting, in one of the two passes over the listed nodes,
applying the remaining displacements, or terminated. -/
inductive LayoutStage (α : Type) where
  | resting
  | pushing (listed : List String)
  | pulling (listed : List String)
  | moving (moves : List (String × Vec3 α))
  | ended

/-- Running layout thread with its engine, the shared graph and the state of its channel. -/
structure LayoutRun (α : Type) where
  engine : LayoutEngine
  graph : Graph α
  stage : LayoutStage α
  dismissed : Bool

/-- Step of the layout thread. @F54 The stop flag is polled behind either pass. -/
inductive LayoutRun.Step {α : Type} [Scalar α] : LayoutRun α → LayoutRun α → Prop
  | skip {run : LayoutRun α} :
    run.stage = .resting → run.dismissed = false → run.graph.nodeCount < 2 → Step run run
  | list {run : LayoutRun α} {listed : List String} :
    run.stage = .resting → run.dismissed = false → 2 ≤ run.graph.nodeCount →
    listed.Perm (run.graph.nodeList.map (·.identity)) →
    Step run { run with stage := .pushing listed }
  | push {run : LayoutRun α} {listed : List String} :
    run.stage = .pushing listed →
    Step run { run with stage := if run.engine.stopped then .resting else .pulling listed }
  | pull {run : LayoutRun α} {listed : List String} {moves : List (String × Vec3 α)} :
    run.stage = .pulling listed → (moves.map Prod.fst).Sublist listed →
    (∀ move ∈ moves, Layout.isStill move.2 = false) →
    Step run { run with stage := if run.engine.stopped then .resting else .moving moves }
  | move {run : LayoutRun α} {name : String} {delta : Vec3 α} {rest : List (String × Vec3 α)} :
    run.stage = .moving ((name, delta) :: rest) →
    Step run { run with graph := run.graph.moveBy name delta, stage := .moving rest }
  | count {run : LayoutRun α} :
    run.stage = .moving [] →
    Step run { run with engine.ticks := run.engine.ticks + 1, stage := .resting }
  | finish {run : LayoutRun α} :
    run.stage = .resting → run.dismissed = true → Step run { run with stage := .ended }

end ClassAtlas
