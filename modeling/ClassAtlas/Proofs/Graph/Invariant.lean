import ClassAtlas.ClassFile.Facts
import ClassAtlas.Layout.Engine
import ClassAtlas.Origin.Resolver
import ClassAtlas.Proofs.Graph.Lookup
import Mathlib

/-!
# Graph invariants

Nodes are stored under their identity with the resolved origin; weights are positive, stored on the
lesser of two existing identities. Every operation preserves these invariants. Specification:
`SPEC_FULL.md` §3, lines 27–31, and §7, line 80.
-/

namespace ClassAtlas

namespace Graph

variable {α : Type}

/-- Well-formed graph: correct identities and origins, and positive one-sided weights between
existing nodes. -/
structure IsWellFormed (originOf : String → Origin) (g : Graph α) : Prop where
  node {name : String} {node : Node α} :
    g.find? name = some node → node.identity = name ∧ node.origin = originOf name
  weight {a b : String} {weight : Weight} :
    g.weight? a b = some weight → a < b ∧ 0 < weight.units ∧ (g.find? b).isSome

/-- The empty graph is well-formed. -/
theorem isWellFormed_empty (originOf : String → Origin) :
    (empty : Graph α).IsWellFormed originOf where
  node h := by simp [find?_empty] at h
  weight h := by simp [weight?_empty] at h

/-- The symmetric lookup of a class with itself is zero. -/
theorem IsWellFormed.attraction_self {g : Graph α} (h : g.IsWellFormed originOf) (a : String) :
    g.attraction a a = 0 := by
  rw [attraction_eq, if_pos (le_refl a)]
  cases hself : g.weight? a a with
  | none => rfl
  | some weight => exact absurd (h.weight hself).1 (lt_irrefl a)

/-! ### Normalized pairs -/

/-- The owner of a pair of distinct classes is the lesser identity. -/
theorem orient_lt {a b : String} (h : a ≠ b) : (orient a b).1 < (orient a b).2 := by
  unfold orient
  split
  · next hlt => exact hlt
  · next hlt => exact lt_of_le_of_ne (not_lt.mp hlt) (Ne.symm h)

/-- Normalization preserves the unordered pair. -/
theorem orient_pair (a b : String) : s((orient a b).1, (orient a b).2) = s(a, b) := by
  unfold orient
  split
  · rfl
  · exact Sym2.eq_swap

/-- A self-reference creates a node and stores nothing. -/
theorem relate_self [Zero α] (originOf : String → Origin) (a : String) (kind : RelationKind)
    (g : Graph α) : g.relate originOf a a kind = g.ensure originOf a := by
  simp [relate]

/-- A relationship between distinct classes creates both endpoints and accumulates its weight, if it
has any. -/
theorem relate_of_ne [Zero α] (originOf : String → Origin) {a b : String} (h : a ≠ b)
    (kind : RelationKind) (g : Graph α) :
    g.relate originOf a b kind =
      if kind.weight = 0 then (g.ensure originOf a).ensure originOf b
      else ((g.ensure originOf a).ensure originOf b).strengthen (orient a b).1 (orient a b).2
        ⟨kind.weight⟩ := by
  simp [relate, h]

/-- Both endpoints exist when the weight is accumulated (§7). -/
theorem isSome_find?_orient [Zero α] (originOf : String → Origin) (a b : String) (g : Graph α) :
    (((g.ensure originOf a).ensure originOf b).find? (orient a b).1).isSome ∧
      (((g.ensure originOf a).ensure originOf b).find? (orient a b).2).isSome := by
  simp only [isSome_find?_ensure]
  unfold orient
  split <;> simp

/-! ### Insertions -/

/-- `ensure` preserves well-formedness. -/
theorem IsWellFormed.ensure [Zero α] {originOf : String → Origin} {g : Graph α}
    (h : g.IsWellFormed originOf) (name : String) :
    (g.ensure originOf name).IsWellFormed originOf where
  node hnode := by
    rcases find?_ensure_cases hnode with hknown | ⟨rfl, rfl⟩
    · exact h.node hknown
    · exact ⟨rfl, rfl⟩
  weight hweight := by
    rw [weight?_ensure] at hweight
    obtain ⟨hlt, hpos, hsome⟩ := h.weight hweight
    exact ⟨hlt, hpos, (isSome_find?_ensure originOf name g _).mpr (Or.inr hsome)⟩

/-- Updates that keep identity and origin preserve correct nodes. -/
theorem IsWellFormed.node_modify {originOf : String → Origin} {g : Graph α}
    (h : g.IsWellFormed originOf) {f : Node α → Node α}
    (hf : ∀ node, (f node).identity = node.identity ∧ (f node).origin = node.origin)
    {name other : String} {node : Node α} (hnode : (g.modify name f).find? other = some node) :
    node.identity = other ∧ node.origin = originOf other := by
  obtain ⟨known, hknown, hcase⟩ := find?_modify_cases hnode
  rcases hcase with rfl | rfl
  · exact h.node hknown
  · rw [(hf known).1, (hf known).2]
    exact h.node hknown

/-- Accumulation between existing distinct classes preserves well-formedness. -/
theorem IsWellFormed.strengthen {originOf : String → Origin} {g : Graph α}
    (h : g.IsWellFormed originOf) {owner partner : String} (howner : (g.find? owner).isSome)
    (hpartner : (g.find? partner).isSome) (hlt : owner < partner) {added : Weight}
    (hadded : 0 < added.units) : (g.strengthen owner partner added).IsWellFormed originOf where
  node := h.node_modify (f := (·.strengthen partner added)) fun _ => ⟨rfl, rfl⟩
  weight {a b weight} hweight := by
    rw [weight?_strengthen howner] at hweight
    rw [Graph.strengthen, isSome_find?_modify]
    split at hweight
    · next heq =>
      obtain ⟨rfl, rfl⟩ := heq
      refine ⟨hlt, ?_, hpartner⟩
      cases hweight
      cases hknown : g.weight? owner partner with
      | none => exact hadded
      | some known => exact Weight.rounded_pos (Nat.add_pos_right _ hadded)
    · exact h.weight hweight

/-- `relate` preserves well-formedness. -/
theorem IsWellFormed.relate [Zero α] {originOf : String → Origin} {g : Graph α}
    (h : g.IsWellFormed originOf) (a b : String) (kind : RelationKind) :
    (g.relate originOf a b kind).IsWellFormed originOf := by
  by_cases hab : a = b
  · subst hab
    rw [relate_self]
    exact h.ensure a
  · rw [relate_of_ne originOf hab]
    split
    · exact (h.ensure a).ensure b
    · next hweight =>
      obtain ⟨howner, hpartner⟩ := isSome_find?_orient originOf a b g
      exact ((h.ensure a).ensure b).strengthen howner hpartner (orient_lt hab)
        (Nat.pos_of_ne_zero hweight)

/-- `addFacts` preserves well-formedness. -/
theorem IsWellFormed.addFacts [Zero α] {originOf : String → Origin} (facts : List Fact)
    {g : Graph α} (h : g.IsWellFormed originOf) :
    (g.addFacts originOf facts).IsWellFormed originOf := by
  induction facts generalizing g with
  | nil => exact h
  | cons fact facts ih => exact ih (h.relate fact.source fact.target fact.kind)

/-! ### Translations -/

/-- `moveBy` preserves well-formedness. -/
theorem IsWellFormed.moveBy [Add α] {originOf : String → Origin} {g : Graph α}
    (h : g.IsWellFormed originOf) (name : String) (delta : Vec3 α) :
    (g.moveBy name delta).IsWellFormed originOf where
  node := h.node_modify (f := (·.moveBy delta)) fun _ => ⟨rfl, rfl⟩
  weight hweight := by
    rw [Graph.moveBy, weight?_modify name (f := (·.moveBy delta)) fun _ => rfl] at hweight
    rw [Graph.moveBy, isSome_find?_modify]
    exact h.weight hweight

section Ticks

variable [Scalar α]

/-- Applying a displacement changes the position only. -/
theorem apply_eq (moves : Layout.Displacements α) (node : Node α) :
    ∃ position, moves.apply node = { node with position } := by
  unfold Layout.Displacements.apply
  simp only
  split
  · exact ⟨node.position, rfl⟩
  · exact ⟨_, rfl⟩

/-- A tick on node lookups. -/
theorem find?_relaxWith (directions : Layout.Directions α) (split : Layout.Split)
    (listing : List (Node α)) (g : Graph α) (name : String) :
    (Layout.relaxWith directions split listing g).find? name =
      (g.find? name).map (Layout.displacements directions split listing g).apply :=
  Std.ExtTreeMap.getElem?_map

/-- A tick on weight lookups. -/
theorem weight?_relaxWith (directions : Layout.Directions α) (split : Layout.Split)
    (listing : List (Node α)) (g : Graph α) (a b : String) :
    (Layout.relaxWith directions split listing g).weight? a b = g.weight? a b := by
  rw [weight?, weight?, find?_relaxWith]
  cases g.find? a with
  | none => rfl
  | some node =>
    obtain ⟨position, happly⟩ := apply_eq (Layout.displacements directions split listing g) node
    rw [Option.map_some, happly]
    rfl

/-- A tick preserves well-formedness under any choices. -/
theorem IsWellFormed.relaxWith {originOf : String → Origin} {g : Graph α}
    (h : g.IsWellFormed originOf) (directions : Layout.Directions α) (split : Layout.Split)
    (listing : List (Node α)) :
    (Layout.relaxWith directions split listing g).IsWellFormed originOf where
  node hnode := by
    rw [find?_relaxWith] at hnode
    obtain ⟨known, hknown, rfl⟩ := Option.map_eq_some_iff.mp hnode
    obtain ⟨position, happly⟩ := apply_eq (Layout.displacements directions split listing g) known
    obtain ⟨hidentity, horigin⟩ := h.node hknown
    rw [happly]
    exact ⟨hidentity, horigin⟩
  weight hweight := by
    rw [weight?_relaxWith] at hweight
    rw [find?_relaxWith, Option.isSome_map]
    exact h.weight hweight

/-- A tick of an engine preserves well-formedness. -/
theorem IsWellFormed.tick {originOf : String → Origin} {g : Graph α}
    (h : g.IsWellFormed originOf) (engine : LayoutEngine) :
    (engine.tick g).2.IsWellFormed originOf := by
  unfold LayoutEngine.tick
  split
  · exact h
  · exact h.relaxWith Layout.firstAxis .whole g.nodeList

/-- Graphs reachable from the empty one by insertions, translations and ticks under any choices. -/
inductive Reachable (resolver : OriginResolver) (tree : FileTree) : Graph α → Prop
  | empty : Reachable resolver tree empty
  | ensure {g : Graph α} (name : String) :
    Reachable resolver tree g → Reachable resolver tree (g.ensure (resolver.resolve tree) name)
  | relate {g : Graph α} (a b : String) (kind : RelationKind) :
    Reachable resolver tree g →
    Reachable resolver tree (g.relate (resolver.resolve tree) a b kind)
  | insert {g : Graph α} {bytes : List UInt8} {facts : List Fact} :
    ClassFile.extractFacts bytes = .ok facts → Reachable resolver tree g →
    Reachable resolver tree (g.addFacts (resolver.resolve tree) facts)
  | move {g : Graph α} (name : String) (delta : Vec3 α) :
    Reachable resolver tree g → Reachable resolver tree (g.moveBy name delta)
  | tick {g : Graph α} (engine : LayoutEngine) :
    Reachable resolver tree g → Reachable resolver tree (engine.tick g).2
  | relax {g : Graph α} (directions : Layout.Directions α) (split : Layout.Split)
    (listing : List (Node α)) :
    Reachable resolver tree g →
    Reachable resolver tree (Layout.relaxWith directions split listing g)

/-- Every reachable graph is well-formed. -/
theorem isWellFormed_of_reachable {resolver : OriginResolver} {tree : FileTree} {g : Graph α}
    (h : Reachable resolver tree g) : g.IsWellFormed (resolver.resolve tree) := by
  induction h with
  | empty => exact isWellFormed_empty _
  | ensure name _ ih => exact ih.ensure name
  | relate a b kind _ ih => exact ih.relate a b kind
  | insert _ _ ih => exact ih.addFacts _
  | move name delta _ ih => exact ih.moveBy name delta
  | tick engine _ ih => exact ih.tick engine
  | relax directions split listing _ ih => exact ih.relaxWith directions split listing

/-- In every reachable graph, nodes are stored under their identity with the resolved origin, and
stored weights are positive, belong to existing nodes with a greater identity, and have no
counterpart on that node. -/
theorem stored_of_reachable {resolver : OriginResolver} {tree : FileTree} {g : Graph α}
    (h : Reachable resolver tree g) (name : String) (node : Node α)
    (hnode : g.find? name = some node) :
    node.identity = name ∧ node.origin = resolver.resolve tree node.identity ∧
      node.partners[node.identity]? = none ∧
      ∀ partner weight, node.partners[partner]? = some weight →
        node.identity < partner ∧ 0 < weight.units ∧
          ∃ other, g.find? partner = some other ∧ other.partners[node.identity]? = none := by
  have hwf := isWellFormed_of_reachable h
  obtain ⟨hidentity, horigin⟩ := hwf.node hnode
  subst hidentity
  refine ⟨rfl, horigin, ?_, ?_⟩
  · cases hself : node.partners[node.identity]? with
    | none => rfl
    | some weight =>
      have hlt := (hwf.weight ((weight?_of_find? hnode _).trans hself)).1
      exact absurd hlt (lt_irrefl _)
  · intro partner weight hweight
    obtain ⟨hlt, hpos, hsome⟩ := hwf.weight ((weight?_of_find? hnode _).trans hweight)
    obtain ⟨other, hother⟩ := Option.isSome_iff_exists.mp hsome
    refine ⟨hlt, hpos, other, hother, ?_⟩
    cases hback : other.partners[node.identity]? with
    | none => rfl
    | some back =>
      have hgt := (hwf.weight ((weight?_of_find? hother _).trans hback)).1
      exact absurd hgt (lt_asymm hlt)

end Ticks

/-- A subclass read from its class file and translated stores its weight towards its superclass. -/
theorem stored_of_reachable_subclass :
    ∃ (g : Graph Float32) (node : Node Float32), Reachable .empty (.fresh []) g ∧
      g.find? "A" = some node ∧ node.identity = "A" ∧ node.partners["A"]? = none ∧
      node.partners["B"]? = some ⟨4⟩ ∧ "A" < "B" := by
  let bytes : List UInt8 :=
    [0xCA, 0xFE, 0xBA, 0xBE, 0, 0, 0, 0, 0, 5, 1, 0, 1, 0x41, 7, 0, 1, 1, 0, 1, 0x42, 7, 0, 3,
      0, 0, 0, 2, 0, 4, 0, 0, 0, 0, 0, 0, 0, 0]
  have hfacts : ClassFile.extractFacts bytes = .ok [⟨"A", "B", .inheritance⟩] := by cbv
  have hreach : Reachable (α := Float32) .empty (.fresh []) _ :=
    .move "A" ⟨1, 2, 3⟩ (.insert hfacts .empty)
  have horient : orient "A" "B" = ("A", "B") := by decide
  have hweight := weight?_modify (α := Float32) "A" (f := (·.moveBy ⟨1, 2, 3⟩)) (fun _ => rfl)
    (empty.relate (OriginResolver.resolve .empty (.fresh [])) "A" "B" .inheritance) "A" "B"
  rw [relate_of_ne _ (by decide), if_neg (by decide), horient,
    weight?_strengthen (by simp [isSome_find?_ensure]), if_pos ⟨rfl, rfl⟩, weight?_ensure,
    weight?_ensure, weight?_empty] at hweight
  obtain ⟨node, hnode⟩ := Option.isSome_iff_exists.mp (isSome_find?_of_weight? hweight)
  have hpartner := (weight?_of_find? hnode "B").symm.trans hweight
  obtain ⟨hidentity, -, hself, hstored⟩ := stored_of_reachable hreach "A" node hnode
  obtain ⟨hlt, -, -⟩ := hstored "B" _ hpartner
  rw [hidentity] at hself hlt
  exact ⟨_, node, hreach, hnode, hidentity, hself, hpartner, hlt⟩

end Graph

end ClassAtlas
