import ClassAtlas.Proofs.Graph.Invariant
import Mathlib

/-!
# Graphs modulo positions

Forgetting positions commutes with every insertion and absorbs every translation. Specification:
`SPEC_FULL.md` §3, line 31.
-/

namespace ClassAtlas

variable {α : Type} [Zero α]

/-- Node at the origin of coordinates. -/
def Node.recentred (node : Node α) : Node α := { node with position := 0 }

namespace Graph

/-- Graph with all nodes at the origin of coordinates. -/
def recentred (g : Graph α) : Graph α := ⟨g.nodes.map fun _ node => node.recentred⟩

/-- Forgetting positions on node lookups. -/
theorem find?_recentred (g : Graph α) (name : String) :
    g.recentred.find? name = (g.find? name).map Node.recentred :=
  Std.ExtTreeMap.getElem?_map

/-- Forgetting positions preserves stored weights. -/
theorem weight?_recentred (g : Graph α) (a b : String) :
    g.recentred.weight? a b = g.weight? a b := by
  rw [weight?, weight?, find?_recentred]
  cases g.find? a <;> rfl

/-- A graph is well-formed if it is so modulo positions. -/
theorem IsWellFormed.of_recentred {originOf : String → Origin} {g : Graph α}
    (h : g.recentred.IsWellFormed originOf) : g.IsWellFormed originOf where
  node {name node} hnode := by
    have hcentre : g.recentred.find? name = some node.recentred := by
      rw [find?_recentred, hnode, Option.map_some]
    have hknown := h.node hcentre
    exact hknown
  weight {a b weight} hweight := by
    obtain ⟨hlt, hpos, hnode⟩ := h.weight ((weight?_recentred g a b).trans hweight)
    rw [find?_recentred, Option.isSome_map] at hnode
    exact ⟨hlt, hpos, hnode⟩

/-- The empty graph is unchanged. -/
theorem recentred_empty : (empty : Graph α).recentred = empty := by
  apply ext_find?
  intro name
  rw [find?_recentred, find?_empty]
  rfl

/-- Forgetting positions commutes with `ensure`. -/
theorem recentred_ensure (originOf : String → Origin) (name : String) (g : Graph α) :
    (g.ensure originOf name).recentred = g.recentred.ensure originOf name := by
  apply ext_find?
  intro other
  rw [find?_recentred, find?_ensure, find?_ensure, find?_recentred, find?_recentred]
  split
  · cases g.find? name <;> rfl
  · rfl

/-- Forgetting positions commutes with updates that ignore positions. -/
theorem recentred_modify (name : String) {f f' : Node α → Node α}
    (hf : ∀ node, (f node).recentred = f' node.recentred) (g : Graph α) :
    (g.modify name f).recentred = g.recentred.modify name f' := by
  apply ext_find?
  intro other
  rw [find?_recentred, find?_modify, find?_modify, find?_recentred, find?_recentred]
  split
  · rw [Option.map_map, Option.map_map]
    exact congrArg (Option.map · _) (funext hf)
  · rfl

/-- Forgetting positions commutes with `relate`. -/
theorem recentred_relate (originOf : String → Origin) (a b : String) (kind : RelationKind)
    (g : Graph α) : (g.relate originOf a b kind).recentred =
      g.recentred.relate originOf a b kind := by
  by_cases hself : a = b
  · subst hself
    rw [relate_self, relate_self, recentred_ensure]
  · rw [relate_of_ne _ hself, relate_of_ne _ hself, ← recentred_ensure, ← recentred_ensure]
    split
    · rfl
    · have hnode : ∀ node : Node α, (node.strengthen (orient a b).2 ⟨kind.weight⟩).recentred =
          node.recentred.strengthen (orient a b).2 ⟨kind.weight⟩ := fun _ => rfl
      exact recentred_modify _ hnode _

/-- Forgetting positions absorbs `moveBy`. -/
theorem recentred_moveBy [Add α] (name : String) (delta : Vec3 α) (g : Graph α) :
    (g.moveBy name delta).recentred = g.recentred := by
  apply ext_find?
  intro other
  rw [find?_recentred, find?_recentred, moveBy, find?_modify]
  split
  · next heq =>
    rw [heq, Option.map_map]
    rfl
  · rfl

end Graph

end ClassAtlas
