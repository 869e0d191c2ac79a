import ClassAtlas.ClassFile.Facts
import ClassAtlas.Layout.Engine

/-!
# Interleaved mutations

Mutations of a graph shared by ingestion and layout, in an arbitrary interleaving of calls. A tick
visits the nodes in an unspecified order and has further unspecified choices, which are parameters.
Specification: `SPEC_FULL.md` §3, lines 31–33, and §5, lines 65–66.
-/

namespace ClassAtlas

/-- Unspecified choices of a tick: the directions of coincident pairs, the partition of the
repulsion pass, and the order of the node listing. -/
structure Layout.Choices (α : Type) where
  directions : Layout.Directions α
  split : Layout.Split
  order : List (Node α) → List (Node α)

/-- Tick under given choices, with the resulting graph. -/
def LayoutEngine.tickWith {α : Type} [Scalar α] (choices : Layout.Choices α)
    (engine : LayoutEngine) (g : Graph α) : LayoutEngine × Graph α :=
  if g.nodeCount < 2 || engine.stopped then (engine, g)
  else
    ({ engine with ticks := engine.ticks + 1 },
      Layout.relaxWith choices.directions choices.split (choices.order g.nodeList) g)

/-- Choices of the engine that lists the nodes by identity. -/
def Layout.Choices.byName {α : Type} [Scalar α] : Layout.Choices α := ⟨firstAxis, .whole, id⟩

/-- The engine's own tick is the tick under the choices by identity. -/
theorem LayoutEngine.tick_eq {α : Type} [Scalar α] (engine : LayoutEngine) (g : Graph α) :
    engine.tick g = engine.tickWith .byName g := rfl

/-- Insert the facts of a class file given by its bytes; an undecodable one is skipped (§7). -/
def Graph.addClass {α : Type} [Zero α] (originOf : String → Origin) (bytes : List UInt8)
    (g : Graph α) : Graph α :=
  match ClassFile.extractFacts bytes with
  | .ok facts => g.addFacts originOf facts
  | .error _ => g

/-- Mutation of a graph: node creation, a recorded relationship, a class file, a translation, or a
tick of the layout. -/
inductive Change (α : Type) where
  | ensure (name : String)
  | relate (a b : String) (kind : RelationKind)
  | addClass (bytes : List UInt8)
  | move (name : String) (delta : Vec3 α)
  | tick (choices : Layout.Choices α)

namespace Change

variable {α : Type}

/-- A mutation that records facts and leaves positions alone. -/
def isRecording : Change α → Bool
  | .ensure _ | .relate .. | .addClass _ => true
  | .move .. | .tick _ => false

/-- Engine and graph after a mutation. -/
def perform [Scalar α] (originOf : String → Origin) (before : LayoutEngine × Graph α) :
    Change α → LayoutEngine × Graph α
  | .ensure name => (before.1, before.2.ensure originOf name)
  | .relate a b kind => (before.1, before.2.relate originOf a b kind)
  | .addClass bytes => (before.1, before.2.addClass originOf bytes)
  | .move name delta => (before.1, before.2.moveBy name delta)
  | .tick choices => before.1.tickWith choices before.2

/-- Engine and graph after a sequence of mutations. -/
def performAll [Scalar α] (originOf : String → Origin) (before : LayoutEngine × Graph α)
    (changes : List (Change α)) : LayoutEngine × Graph α :=
  changes.foldl (perform originOf) before

end Change

end ClassAtlas
