import ClassAtlas.Graph.Basic

/-!
# Concurrent graph clients

Small-step semantics of workers that share one graph. A call is not atomic: add-if-absent consists
of a table lookup, an origin classification and an insertion that yields to a concurrent one, and a
relationship is accumulated through a node reference obtained before. Steps of different clients
interleave arbitrarily; only single steps are atomic.

Nodes live in cells and the table maps identities to cells. Clients hold cells, not identities, so
the model can express the loss of an update to a node that is not in the table. Specification:
`SPEC_FULL.md` §4.3, line 49 (a) and (b), §5, line 65, and §10.7, lines 185–187.
-/

namespace ClassAtlas

/-- Graph call of a client: node creation, a relationship, or the relationship of a fact. -/
inductive Call where
  | ensure (name : String)
  | relate (a b : String) (kind : RelationKind)
  | addFact (fact : Fact)
  deriving DecidableEq, Repr

/-- Graph after an uninterrupted call. -/
def Call.perform {α : Type} [Zero α] (originOf : String → Origin) (g : Graph α) : Call → Graph α
  | .ensure name => g.ensure originOf name
  | .relate a b kind => g.relate originOf a b kind
  | .addFact fact => g.addFact originOf fact

/-- Index of a cell. -/
abbrev CellIndex := Nat

/-- Shared graph: the cell of each identity, and every node that was ever created, by cell. -/
structure SharedGraph (α : Type) where
  table : Std.ExtTreeMap String CellIndex := ∅
  cells : List (Node α) := []

namespace SharedGraph

variable {α : Type}

/-- Atomic insertion unless the identity is occupied; returns the identity's cell. -/
def insertIfAbsent (node : Node α) (shared : SharedGraph α) : CellIndex × SharedGraph α :=
  match shared.table[node.identity]? with
  | some cell => (cell, shared)
  | none =>
    (shared.cells.length,
      { table := shared.table.insert node.identity shared.cells.length
        cells := shared.cells ++ [node] })

/-- Atomic accumulation on the node in a cell. -/
def strengthen (cell : CellIndex) (partner : String) (weight : Weight) (shared : SharedGraph α) :
    SharedGraph α :=
  { shared with cells := shared.cells.modify cell (·.strengthen partner weight) }

/-- Observable part of a shared graph: the nodes in the table. -/
def toGraph (shared : SharedGraph α) : Graph α :=
  ⟨shared.table.filterMap fun _ cell => shared.cells[cell]?⟩

end SharedGraph

/-- Continuation of a node lookup: none, the search for the second endpoint of a relationship, or
the accumulation between both endpoints, the first of which is in a cell. -/
inductive Purpose where
  | presence
  | relation (other : String) (kind : RelationKind)
  | closing (other : String) (cell : CellIndex) (kind : RelationKind)
  deriving DecidableEq, Repr

/-- Program point of a client: `seek` looks a node up, `inquire` classifies its class, `create`
inserts it, `strengthen` accumulates weight. -/
inductive Stage where
  | ready
  | seek (name : String) (purpose : Purpose)
  | inquire (name : String) (purpose : Purpose)
  | create (name : String) (origin : Origin) (purpose : Purpose)
  | strengthen (owner : CellIndex) (partner : String) (weight : Weight)
  deriving DecidableEq, Repr

/-- Client with its program point and its remaining calls. -/
structure Client where
  stage : Stage := .ready
  calls : List Call
  deriving DecidableEq, Repr

namespace Client

/-- Program point behind a resolved lookup. -/
def proceed (name : String) (cell : CellIndex) : Purpose → Stage
  | .presence => .ready
  | .relation other kind =>
    if name = other then .ready else .seek other (.closing name cell kind)
  | .closing other otherCell kind =>
    if kind.weight = 0 then .ready
    else if other < name then .strengthen otherCell name ⟨kind.weight⟩
    else .strengthen cell other ⟨kind.weight⟩

/-- Program point at the start of a call. -/
def begin : Call → Stage
  | .ensure name => .seek name .presence
  | .relate a b kind => .seek a (.relation b kind)
  | .addFact fact => .seek fact.source (.relation fact.target fact.kind)

variable {α : Type}

/-- Atomic step of a client; none for a finished one. -/
def step [Zero α] (originOf : String → Origin) (client : Client) (shared : SharedGraph α) :
    Option (Client × SharedGraph α) :=
  match client.stage with
  | .ready =>
    match client.calls with
    | [] => none
    | call :: calls => some ({ stage := begin call, calls }, shared)
  | .seek name purpose =>
    match shared.table[name]? with
    | some cell => some ({ client with stage := proceed name cell purpose }, shared)
    | none => some ({ client with stage := .inquire name purpose }, shared)
  | .inquire name purpose =>
    some ({ client with stage := .create name (originOf name) purpose }, shared)
  | .create name origin purpose =>
    let (cell, shared) := shared.insertIfAbsent (Node.new name origin)
    some ({ client with stage := proceed name cell purpose }, shared)
  | .strengthen owner partner weight =>
    some ({ client with stage := .ready }, shared.strengthen owner partner weight)

/-- The client has no further step. -/
def isFinished (client : Client) : Bool := client.stage = .ready && client.calls.isEmpty

end Client

/-- Clients with their shared graph. -/
structure Workshop (α : Type) where
  shared : SharedGraph α := {}
  clients : List Client

namespace Workshop

variable {α : Type}

/-- Initial state: each client with its calls, over an empty graph. -/
def ofCalls (calls : List (List Call)) : Workshop α :=
  { clients := calls.map fun own => { calls := own } }

/-- Step of the system: one step of one client. -/
inductive Step [Zero α] (originOf : String → Origin) : Workshop α → Workshop α → Prop
  | act {shared next : SharedGraph α} {client moved : Client} (before after : List Client) :
    client.step originOf shared = some (moved, next) →
    Step originOf ⟨shared, before ++ client :: after⟩ ⟨next, before ++ moved :: after⟩

/-- Reflexive transitive closure of `Step`, with an arbitrary schedule. -/
inductive Steps [Zero α] (originOf : String → Origin) : Workshop α → Workshop α → Prop
  | refl (w : Workshop α) : Steps originOf w w
  | tail {first middle last : Workshop α} :
    Steps originOf first middle → Step originOf middle last → Steps originOf first last

/-- All clients are finished. -/
def isFinished (w : Workshop α) : Bool := w.clients.all Client.isFinished

end Workshop

end ClassAtlas
