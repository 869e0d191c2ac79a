import ClassAtlas.ClassName
import ClassAtlas.Graph.Weight
import ClassAtlas.Origin.Basic
import ClassAtlas.Relation
import ClassAtlas.Vec3
import Std.Data.ExtTreeMap

/-!
# Dependency graph

Concurrent node store keyed by class identity, here as the value that its operations act on. The
weight of an unordered pair is stored once, on the node whose identity sorts first, and repeated
facts accumulate. Nodes are created on first mention and never removed. Operations that may create a
node take the origin classification as a parameter, since it may consult the file system.
Specification: `SPEC_FULL.md` §3, lines 24–33, §6, line 72, and §10.6, lines 166–168 and 179–180.
-/

namespace ClassAtlas

/-- Node with coordinates in `α`. `partners` holds the accumulated weights to classes whose identity
sorts behind its own (§3). -/
structure Node (α : Type) where
  identity : String
  origin : Origin
  position : Vec3 α
  partners : Std.ExtTreeMap String Weight

/-- Edge of the listing: an unordered pair in lexicographic order with its accumulated weight. -/
structure Edge where
  a : String
  b : String
  weight : Weight
  deriving DecidableEq, Repr

/-- Lexicographic order of edges by their two names. -/
def Edge.le (e f : Edge) : Bool := e.a < f.a || (e.a == f.a && e.b ≤ f.b)

namespace Node

variable {α : Type}

/-- Node as created: at the origin of coordinates, without relationships. -/
def new [Zero α] (identity : String) (origin : Origin) : Node α :=
  { identity, origin, position := 0, partners := ∅ }

/-- Renderer color of the node's origin. -/
def color (node : Node α) : Color := node.origin.color

/-- Package name of the class. -/
def package (node : Node α) : String := ClassName.package node.identity

/-- Simple name of the class. -/
def simpleName (node : Node α) : String := ClassName.simple node.identity

/-- Translate the node. -/
def moveBy [Add α] (delta : Vec3 α) (node : Node α) : Node α :=
  { node with position := node.position + delta }

/-- Accumulate weight towards a partner. -/
def strengthen (partner : String) (weight : Weight) (node : Node α) : Node α :=
  { node with
    partners := node.partners.alter partner fun
      | none => some weight
      | some known => some (known + weight) }

/-- Edges stored on the node, ordered by partner. -/
def edges (node : Node α) : List Edge :=
  node.partners.toList.map fun (partner, weight) => ⟨node.identity, partner, weight⟩

/-- Order of nodes by identity. -/
def le (n m : Node α) : Bool := n.identity ≤ m.identity

end Node

/-- Dependency graph; each node is stored under its identity. -/
structure Graph (α : Type) where
  nodes : Std.ExtTreeMap String (Node α)

namespace Graph

variable {α : Type}

/-- Empty graph. -/
def empty : Graph α := ⟨∅⟩

/-- Node of a class. -/
def find? (name : String) (g : Graph α) : Option (Node α) := g.nodes[name]?

/-- Add a node unless one with its identity exists. -/
def insertIfAbsent (node : Node α) (g : Graph α) : Graph α :=
  ⟨g.nodes.insertIfNew node.identity node⟩

/-- Update the node of a class, if it exists. -/
def modify (name : String) (f : Node α → Node α) (g : Graph α) : Graph α :=
  ⟨g.nodes.modify name f⟩

/-- Add-if-absent with origin classification of a new class (§4.3 (a)). -/
def ensure [Zero α] (originOf : String → Origin) (name : String) (g : Graph α) : Graph α :=
  match g.find? name with
  | some _ => g
  | none => g.insertIfAbsent (Node.new name (originOf name))

/-- Accumulate weight stored on one class towards another (§4.3 (b)). -/
def strengthen (owner partner : String) (weight : Weight) (g : Graph α) : Graph α :=
  g.modify owner (·.strengthen partner weight)

/-- Pair of names in lexicographic order, the normalization of every symmetric access (§3). -/
def orient (a b : String) : String × String := if a < b then (a, b) else (b, a)

/-- Record a relationship. Both endpoints are created; a self-reference or a kind without weight
stores nothing (§3, §7). -/
def relate [Zero α] (originOf : String → Origin) (a b : String) (kind : RelationKind)
    (g : Graph α) : Graph α :=
  let g := g.ensure originOf a
  if a = b then g
  else
    let g := g.ensure originOf b
    if kind.weight = 0 then g
    else
      let (owner, partner) := orient a b
      g.strengthen owner partner ⟨kind.weight⟩

/-- Record the relationship of a fact. -/
def addFact [Zero α] (originOf : String → Origin) (fact : Fact) (g : Graph α) : Graph α :=
  g.relate originOf fact.source fact.target fact.kind

/-- Record the relationships of a list of facts in order. -/
def addFacts [Zero α] (originOf : String → Origin) (facts : List Fact) (g : Graph α) : Graph α :=
  facts.foldl (fun g fact => g.addFact originOf fact) g

/-- Symmetric attraction lookup, zero for unrelated classes (§6). -/
def attraction (g : Graph α) (a b : String) : Weight :=
  let (first, second) := if a ≤ b then (a, b) else (b, a)
  match g.find? first with
  | none => 0
  | some node => node.partners[second]?.getD 0

/-- Nodes ordered by identity. -/
def nodeList (g : Graph α) : List (Node α) := g.nodes.toList.map Prod.snd

/-- Snapshot of an arbitrary listing of the nodes, ordered by identity. -/
def snapshotOf (listing : List (Node α)) : List (Node α) := listing.mergeSort Node.le

/-- Snapshot of the graph, ordered by identity. -/
def snapshot (g : Graph α) : List (Node α) := snapshotOf g.nodeList

/-- Edge listing of an arbitrary listing of the nodes, in lexicographic order. -/
def edgesOf (listing : List (Node α)) : List Edge :=
  (listing.flatMap Node.edges).mergeSort Edge.le

/-- Edge listing of the graph, in lexicographic order. -/
def edges (g : Graph α) : List Edge := edgesOf g.nodeList

/-- Number of nodes. -/
def nodeCount (g : Graph α) : Nat := g.nodes.size

/-- Number of edges. -/
def edgeCount (g : Graph α) : Nat :=
  g.nodeList.foldl (fun count node => count + node.partners.size) 0

/-- The graph has no nodes. -/
def isEmpty (g : Graph α) : Bool := g.nodes.isEmpty

/-- Translate the node of a class. -/
def moveBy [Add α] (name : String) (delta : Vec3 α) (g : Graph α) : Graph α :=
  g.modify name (·.moveBy delta)

end Graph

end ClassAtlas
