import ClassAtlas.Graph.Basic
import ClassAtlas.Layout.Force

/-!
# Per-tick displacements

The repulsion pass visits every unordered pair of nodes, the attraction pass every stored
relationship; each node of a pair takes half of the step. Pairs are visited in rows of one node and
all later ones of a listing; rows may be partitioned among accumulators that are merged afterwards.
Specification: `SPEC_FULL.md` §4.4, lines 55–62, §5, line 66, and §10.7, lines 189–191.
-/

namespace ClassAtlas.Layout

variable {α : Type} [Scalar α]

/-- Accumulated displacements by identity; an absent node is not displaced. -/
abbrev Displacements (α : Type) := Std.ExtTreeMap String (Vec3 α)

/-- Displacement of a node. -/
def Displacements.at (moves : Displacements α) (name : String) : Vec3 α := moves[name]?.getD 0

/-- Displace `a` along a direction and `b` against it, by half of the step each. A negative step
contracts the pair. -/
def push (a b : String) (direction : Vec3 α) (step : α) (moves : Displacements α) :
    Displacements α :=
  let half := direction.scale (step * Scalar.ofDecimal 5 1)
  let moves := moves.alter a fun known => some (known.getD 0 + half)
  moves.alter b fun known => some (known.getD 0 - half)

/-- Sum of two accumulators. -/
def merge (moves others : Displacements α) : Displacements α :=
  others.foldl (fun moves name move => moves.alter name fun known => some (known.getD 0 + move))
    moves

/-- Unit vectors substituted for the separation of coincident pairs (§4.4, line 60). -/
abbrev Directions (α : Type) := String → String → Vec3 α

/-- Repulsion of one pair. -/
def repel (g : Graph α) (directions : Directions α) (a b : Node α) (moves : Displacements α) :
    Displacements α :=
  let apart := separation (directions a.identity b.identity) a.position b.position
  let related := (g.attraction a.identity b.identity).units ≠ 0
  let step := repulsionStep related apart.distance
  if Scalar.less 0 step then push a.identity b.identity apart.direction step moves else moves

/-- Rows of a list: each element with all later ones. -/
def rows {β : Type} : List β → List (β × List β)
  | [] => []
  | first :: rest => (first, rest) :: rows rest

/-- Repulsion between a node and the later ones of its row. -/
def repelRow (g : Graph α) (directions : Directions α) (moves : Displacements α)
    (row : Node α × List (Node α)) : Displacements α :=
  row.2.foldl (fun moves other => repel g directions row.1 other moves) moves

/-- Partition of a list among accumulators: a single accumulator, or a division behind the first
`count` items. -/
inductive Split where
  | whole
  | divide (count : Nat) (first second : Split)

/-- Fold the parts of a partition from the empty accumulator each and merge the results. -/
def Split.collect {β δ : Type} (step : δ → β → δ) (nothing : δ) (add : δ → δ → δ) :
    Split → List β → δ
  | .whole, items => items.foldl step nothing
  | .divide count first second, items =>
    add (first.collect step nothing add (items.take count))
      (second.collect step nothing add (items.drop count))

/-- Repulsion pass over a listing. -/
def repulsion (g : Graph α) (directions : Directions α) (split : Split)
    (listing : List (Node α)) : Displacements α :=
  split.collect (repelRow g directions) ∅ merge (rows listing)

/-- Attraction of one stored relationship. -/
def attract (g : Graph α) (directions : Directions α) (node : Node α) (moves : Displacements α)
    (relation : String × Weight) : Displacements α :=
  match g.find? relation.1 with
  | none => moves
  | some partner =>
    let apart :=
      separation (directions node.identity partner.identity) node.position partner.position
    if Scalar.less attractionThreshold apart.distance then
      let step := attractionStep (whole relation.2.units) apart.distance
      push node.identity partner.identity apart.direction (-step) moves
    else moves

/-- Attraction pass over a listing. -/
def attraction (g : Graph α) (directions : Directions α) (listing : List (Node α))
    (moves : Displacements α) : Displacements α :=
  listing.foldl
    (fun moves node => node.partners.toList.foldl (attract g directions node) moves) moves

/-- Displacements of one tick. -/
def displacements (directions : Directions α) (split : Split) (listing : List (Node α))
    (g : Graph α) : Displacements α :=
  attraction g directions listing (repulsion g directions split listing)

/-- A zero displacement. -/
def isStill (move : Vec3 α) : Bool :=
  Scalar.same move.x 0 && Scalar.same move.y 0 && Scalar.same move.z 0

/-- Apply the displacement of a node; a zero displacement leaves it untouched. -/
def Displacements.apply (moves : Displacements α) (node : Node α) : Node α :=
  let move := moves.at node.identity
  if isStill move then node else node.moveBy move

end ClassAtlas.Layout
