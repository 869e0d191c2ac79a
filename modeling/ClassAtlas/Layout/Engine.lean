import ClassAtlas.Layout.Displacement

/-!
# Layout engine

A tick computes all displacements from a snapshot and applies them at its end. Fewer than two nodes
are a no-op that is not counted. Once stopped, an engine never ticks again. Specification:
`SPEC_FULL.md` §4.4, lines 53–62, §8, line 89, and §10.7, lines 189–193.
-/

namespace ClassAtlas

namespace Layout

variable {α : Type} [Scalar α]

/-- The unit vector along the first axis for every pair. -/
def firstAxis : Directions α := fun _ _ => ⟨whole 1, 0, 0⟩

/-- Graph after one tick under given choices. -/
def relaxWith (directions : Directions α) (split : Split) (listing : List (Node α))
    (g : Graph α) : Graph α :=
  let moves := displacements directions split listing g
  ⟨g.nodes.map fun _ node => moves.apply node⟩

/-- Graph after one tick of a single accumulator over the nodes by identity. -/
def relax (g : Graph α) : Graph α := relaxWith firstAxis .whole g.nodeList g

/-- Default tick interval in milliseconds (§10.4). -/
def defaultInterval : Nat := 500

end Layout

/-- Layout engine with its tick count and its stop flag. -/
structure LayoutEngine where
  ticks : Nat := 0
  stopped : Bool := false
  deriving DecidableEq, Repr

namespace LayoutEngine

variable {α : Type} [Scalar α]

/-- One tick, with the resulting graph. -/
def tick (engine : LayoutEngine) (g : Graph α) : LayoutEngine × Graph α :=
  if g.nodeCount < 2 || engine.stopped then (engine, g)
  else ({ engine with ticks := engine.ticks + 1 }, Layout.relax g)

/-- A number of consecutive ticks. -/
def run (engine : LayoutEngine) (g : Graph α) : (count : Nat) → LayoutEngine × Graph α
  | 0 => (engine, g)
  | count + 1 =>
    let (engine, g) := engine.tick g
    engine.run g count

/-- Set the stop flag. -/
def stop (engine : LayoutEngine) : LayoutEngine := { engine with stopped := true }

/-- The engine has not been stopped. -/
def isRunning (engine : LayoutEngine) : Bool := !engine.stopped

end LayoutEngine

end ClassAtlas
