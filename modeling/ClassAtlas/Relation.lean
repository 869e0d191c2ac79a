/-!
# Relationship facts

A fact is a directed triple of source class, target class and relationship kind; every kind has a
fixed weight. Specification: `SPEC_FULL.md` §3, lines 23 and 27–30, and §4.2, line 41.
-/

namespace ClassAtlas

/-- Relationship kind: superclass, declared interface, member class, field type, or unknown. -/
inductive RelationKind where
  | inheritance
  | interfaceImplementation
  | innerClassNesting
  | fieldContainment
  | unknown
  deriving DecidableEq, Repr

namespace RelationKind

/-- All kinds in descending order of weight. -/
def all : List RelationKind :=
  [.inheritance, .interfaceImplementation, .innerClassNesting, .fieldContainment, .unknown]

/-- Serialized name of a kind. -/
def label : RelationKind → String
  | .inheritance => "inheritance"
  | .interfaceImplementation => "interface_implementation"
  | .innerClassNesting => "inner_class_nesting"
  | .fieldContainment => "field_containment"
  | .unknown => "unknown"

/-- Inverse of `label`. -/
def ofLabel? (label : String) : Option RelationKind := all.find? (·.label = label)

/-- Weight contributed by one fact of a kind (§3). -/
def weight : RelationKind → Nat
  | .inheritance => 4
  | .interfaceImplementation => 3
  | .innerClassNesting => 2
  | .fieldContainment => 1
  | .unknown => 0

end RelationKind

/-- Relationship fact; `source` and `target` are external class names. -/
structure Fact where
  source : String
  target : String
  kind : RelationKind
  deriving DecidableEq, Repr

end ClassAtlas
