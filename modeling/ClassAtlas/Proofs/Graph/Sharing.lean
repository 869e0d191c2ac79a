import ClassAtlas.Graph.Client
import ClassAtlas.Proofs.Graph.Record
import Mathlib

/-!
# Shared graphs

Invariant of the cell table, and refinement of graph operations by atomic steps: while table and
cells agree, no identity has two cells, a held cell refers to the node in the table, and the two
mutating steps implement the operations on the observable graph. Specification: `SPEC_FULL.md` §4.3,
line 49 (a) and (b), and §10.7, lines 185–187.
-/

namespace ClassAtlas

namespace SharedGraph

variable {α : Type}

/-- Identity of the node in a cell. -/
def identity? (shared : SharedGraph α) (cell : CellIndex) : Option String :=
  shared.cells[cell]?.map (·.identity)

/-- The table maps an identity to a cell if and only if the cell holds its node. -/
def IsSound (shared : SharedGraph α) : Prop :=
  ∀ name cell, shared.table[name]? = some cell ↔ shared.identity? cell = some name

/-- Cells persist with their identities. -/
def Keeps (shared next : SharedGraph α) : Prop :=
  ∀ name cell, shared.identity? cell = some name → next.identity? cell = some name

/-- Persistence is reflexive. -/
theorem Keeps.refl (shared : SharedGraph α) : shared.Keeps shared := fun _ _ h => h

/-- The initial shared graph is sound. -/
theorem isSound_empty : ({} : SharedGraph α).IsSound := by
  intro name cell
  simp [identity?]

/-! ### Cells and identities -/

/-- An identified cell holds a node of that identity. -/
theorem identity?_eq_some {shared : SharedGraph α} {cell : CellIndex} {name : String} :
    shared.identity? cell = some name ↔
      ∃ node, shared.cells[cell]? = some node ∧ node.identity = name :=
  Option.map_eq_some_iff

/-- No two cells hold nodes of one identity. -/
theorem IsSound.nodup {shared : SharedGraph α} (h : shared.IsSound) :
    (shared.cells.map (·.identity)).Nodup := by
  rw [List.nodup_iff_getElem?_ne_getElem?]
  intro i j hlt hj heq
  have hsome : (shared.cells.map (·.identity))[j]? = some (shared.cells.map (·.identity))[j] :=
    List.getElem?_eq_getElem hj
  have hleft := (h _ i).mpr ((List.getElem?_map ..).symm.trans (heq.trans hsome))
  have hright := (h _ j).mpr ((List.getElem?_map ..).symm.trans hsome)
  exact absurd (Option.some.inj (hleft.symm.trans hright)) (ne_of_lt hlt)

/-- Observable node lookup through the table. -/
theorem find?_toGraph (shared : SharedGraph α) (name : String) :
    shared.toGraph.find? name = shared.table[name]?.bind fun cell => shared.cells[cell]? :=
  Std.ExtTreeMap.getElem?_filterMap'

/-- The node in the cell of an identity is observable. -/
theorem IsSound.find?_of_cell {shared : SharedGraph α} (h : shared.IsSound) {cell : CellIndex}
    {node : Node α} (hnode : shared.cells[cell]? = some node) :
    shared.toGraph.find? node.identity = some node := by
  rw [find?_toGraph, (h node.identity cell).mpr (identity?_eq_some.mpr ⟨node, hnode, rfl⟩)]
  exact hnode

/-- An observable node is in the cell of its identity. -/
theorem exists_cell_of_find? {shared : SharedGraph α} {name : String} {node : Node α}
    (h : shared.toGraph.find? name = some node) :
    ∃ cell, shared.table[name]? = some cell ∧ shared.cells[cell]? = some node := by
  rw [find?_toGraph] at h
  exact Option.bind_eq_some_iff.mp h

/-- An identity has a cell if and only if its node is observable. -/
theorem IsSound.isSome_find? {shared : SharedGraph α} (h : shared.IsSound) {name : String} :
    (shared.toGraph.find? name).isSome ↔ ∃ cell, shared.identity? cell = some name := by
  rw [Option.isSome_iff_exists]
  constructor
  · rintro ⟨node, hnode⟩
    obtain ⟨cell, hcell, -⟩ := exists_cell_of_find? hnode
    exact ⟨cell, (h name cell).mp hcell⟩
  · rintro ⟨cell, hcell⟩
    obtain ⟨node, hnode, rfl⟩ := identity?_eq_some.mp hcell
    exact ⟨node, h.find?_of_cell hnode⟩

/-! ### Insertion -/

/-- Atomic insertion implements `insertIfAbsent`. -/
theorem toGraph_insertIfAbsent [Zero α] {shared : SharedGraph α} (h : shared.IsSound)
    (originOf : String → Origin) (name : String) :
    (shared.insertIfAbsent (Node.new name (originOf name))).2.toGraph =
      shared.toGraph.ensure originOf name := by
  apply Graph.ext_find?
  intro other
  rw [Graph.find?_ensure, find?_toGraph, find?_toGraph, find?_toGraph, insertIfAbsent]
  cases hcell : shared.table[(Node.new name (originOf name) : Node α).identity]? with
  | some cell =>
    change shared.table[name]? = some cell at hcell
    obtain ⟨node, hnode, -⟩ := identity?_eq_some.mp ((h name cell).mp hcell)
    by_cases heq : name = other
    · subst heq
      simp [hcell, hnode]
    · simp [heq]
  | none =>
    change shared.table[name]? = none at hcell
    simp only [Std.ExtTreeMap.getElem?_insert, Std.compare_eq_iff_eq]
    by_cases heq : name = other
    · subst heq
      simp [hcell, Node.new]
    · simp only [Node.new, heq, if_false]
      cases hother : shared.table[other]? with
      | none => rfl
      | some cell =>
        -- The new cell is appended behind the known cells.
        obtain ⟨node, hnode, -⟩ := identity?_eq_some.mp ((h other cell).mp hother)
        have hlt : cell < shared.cells.length := (List.getElem?_eq_some_iff.mp hnode).1
        exact List.getElem?_append_left hlt

/-- Insertion preserves existing cells. -/
theorem keeps_insertIfAbsent (shared : SharedGraph α) (node : Node α) :
    shared.Keeps (shared.insertIfAbsent node).2 := by
  intro name cell hcell
  unfold insertIfAbsent
  split
  · exact hcell
  · obtain ⟨known, hknown, hidentity⟩ := identity?_eq_some.mp hcell
    have hlt : cell < shared.cells.length := (List.getElem?_eq_some_iff.mp hknown).1
    exact identity?_eq_some.mpr ⟨known, (List.getElem?_append_left hlt).trans hknown, hidentity⟩

/-- Insertion preserves soundness. -/
theorem IsSound.insertIfAbsent {shared : SharedGraph α} (h : shared.IsSound) (node : Node α) :
    (shared.insertIfAbsent node).2.IsSound := by
  unfold SharedGraph.insertIfAbsent
  split
  · exact h
  · next hnone =>
    intro name cell
    simp only [Std.ExtTreeMap.getElem?_insert, Std.compare_eq_iff_eq, identity?]
    rcases lt_trichotomy cell shared.cells.length with hlt | rfl | hgt
    · rw [List.getElem?_append_left hlt]
      by_cases heq : node.identity = name
      · subst heq
        rw [if_pos rfl, Option.some_inj]
        constructor
        · intro hcell
          exact absurd hcell (ne_of_gt hlt)
        · intro hcell
          have := (h _ cell).mpr hcell
          rw [hnone] at this
          cases this
      · rw [if_neg heq]
        exact h name cell
    · rw [List.getElem?_concat_length, Option.map_some, Option.some_inj]
      by_cases heq : node.identity = name
      · simp [heq]
      · rw [if_neg heq, h name]
        simp [heq, identity?]
    · rw [List.getElem?_eq_none (by simpa using hgt)]
      by_cases heq : node.identity = name
      · rw [if_pos heq, Option.some_inj]
        simp [ne_of_lt hgt]
      · rw [if_neg heq, h name, identity?, List.getElem?_eq_none (le_of_lt hgt)]

/-- Insertion returns the cell of its identity. -/
theorem identity?_insertIfAbsent {shared : SharedGraph α} (h : shared.IsSound) (node : Node α) :
    (shared.insertIfAbsent node).2.identity? (shared.insertIfAbsent node).1 =
      some node.identity := by
  unfold insertIfAbsent
  split
  · next cell hcell => exact (h _ cell).mp hcell
  · simp [identity?]

/-! ### Accumulation -/

/-- Accumulation preserves identities. -/
theorem identity?_strengthen (shared : SharedGraph α) (owner : CellIndex) (partner : String)
    (weight : Weight) (cell : CellIndex) :
    (shared.strengthen owner partner weight).identity? cell = shared.identity? cell := by
  rw [identity?, identity?, strengthen, List.getElem?_modify]
  cases shared.cells[cell]? with
  | none => simp
  | some node =>
    by_cases heq : owner = cell <;> simp [heq, Node.strengthen]

/-- Accumulation preserves soundness. -/
theorem IsSound.strengthen {shared : SharedGraph α} (h : shared.IsSound) (owner : CellIndex)
    (partner : String) (weight : Weight) : (shared.strengthen owner partner weight).IsSound := by
  intro name cell
  rw [identity?_strengthen]
  exact h name cell

/-- Atomic accumulation implements `strengthen` on the cell's identity. -/
theorem toGraph_strengthen {shared : SharedGraph α} (h : shared.IsSound) {owner : CellIndex}
    {name : String} (howner : shared.identity? owner = some name) (partner : String)
    (weight : Weight) :
    (shared.strengthen owner partner weight).toGraph =
      shared.toGraph.strengthen name partner weight := by
  apply Graph.ext_find?
  intro other
  rw [Graph.strengthen, Graph.find?_modify, find?_toGraph, find?_toGraph, find?_toGraph, strengthen]
  by_cases heq : name = other
  · subst heq
    simp [(h name owner).mpr howner]
  · rw [if_neg heq]
    cases hother : shared.table[other]? with
    | none => rfl
    | some cell =>
      have hne : owner ≠ cell := by
        rintro rfl
        have hname := howner.symm.trans ((h other owner).mp hother)
        exact heq (Option.some.inj hname)
      simp [List.getElem?_modify, hne]

end SharedGraph

end ClassAtlas
