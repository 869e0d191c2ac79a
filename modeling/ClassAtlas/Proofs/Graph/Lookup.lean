import ClassAtlas.Graph.Basic
import ClassAtlas.Proofs.Graph.Weight

/-!
# Graph operations on lookups

A graph is determined by two lookups: the node of an identity and the weight stored on one class
towards another. Each operation is characterized by its effect on both. Specification:
`SPEC_FULL.md` §3, lines 24–30.
-/

namespace ClassAtlas

namespace Graph

variable {α : Type}

/-- Weight stored on one class towards another. -/
def weight? (g : Graph α) (a b : String) : Option Weight :=
  (g.find? a).bind fun node => node.partners[b]?

/-- Stored weights of an existing node. -/
theorem weight?_of_find? {g : Graph α} {a : String} {node : Node α} (h : g.find? a = some node)
    (b : String) : g.weight? a b = node.partners[b]? := by
  rw [weight?, h]
  rfl

/-- A stored weight implies its node. -/
theorem isSome_find?_of_weight? {g : Graph α} {a b : String} {weight : Weight}
    (h : g.weight? a b = some weight) : (g.find? a).isSome := by
  obtain ⟨node, hnode, -⟩ := Option.bind_eq_some_iff.mp h
  rw [hnode]
  rfl

/-- Graphs with the same node lookups coincide. -/
theorem ext_find? {g h : Graph α} (heq : ∀ name, g.find? name = h.find? name) : g = h := by
  cases g
  cases h
  exact congrArg Graph.mk (Std.ExtTreeMap.ext_getElem? fun {name} => heq name)

/-! ### Node lookup -/

/-- The empty graph has no nodes. -/
theorem find?_empty (name : String) : (empty : Graph α).find? name = none :=
  Std.ExtTreeMap.getElem?_empty

/-- `insertIfAbsent` on node lookups. -/
theorem find?_insertIfAbsent (node : Node α) (g : Graph α) (name : String) :
    (g.insertIfAbsent node).find? name =
      if node.identity = name then some ((g.find? name).getD node) else g.find? name := by
  simp only [insertIfAbsent, find?, Std.ExtTreeMap.getElem?_insertIfNew, Std.compare_eq_iff_eq,
    Std.ExtTreeMap.mem_iff_isSome_getElem?]
  by_cases hname : node.identity = name
  · subst hname
    cases g.nodes[node.identity]? <;> simp
  · simp [hname]

/-- `modify` on node lookups. -/
theorem find?_modify (name : String) (f : Node α → Node α) (g : Graph α) (other : String) :
    (g.modify name f).find? other =
      if name = other then (g.find? name).map f else g.find? other := by
  rw [modify, find?, Std.ExtTreeMap.getElem?_modify]
  simp only [Std.compare_eq_iff_eq]
  rfl

/-- `ensure` on node lookups. -/
theorem find?_ensure [Zero α] (originOf : String → Origin) (name : String) (g : Graph α)
    (other : String) :
    (g.ensure originOf name).find? other =
      if name = other then some ((g.find? name).getD (Node.new name (originOf name)))
      else g.find? other := by
  unfold ensure
  by_cases hname : name = other
  · subst hname
    cases hfound : g.find? name with
    | some node => simp [hfound]
    | none => simp [find?_insertIfAbsent, Node.new, hfound]
  · cases hfound : g.find? name with
    | some node => simp [hname]
    | none => simp [find?_insertIfAbsent, Node.new, hname]

/-- A node behind `ensure` existed before or is the created one. -/
theorem find?_ensure_cases [Zero α] {originOf : String → Origin} {name other : String} {g : Graph α}
    {node : Node α} (h : (g.ensure originOf name).find? other = some node) :
    g.find? other = some node ∨ other = name ∧ node = Node.new name (originOf name) := by
  rw [find?_ensure] at h
  split at h
  · next heq =>
    subst heq
    cases hfound : g.find? name with
    | some known =>
      rw [hfound, Option.getD_some] at h
      exact Or.inl h
    | none =>
      rw [hfound, Option.getD_none] at h
      exact Or.inr ⟨rfl, (Option.some.inj h).symm⟩
  · exact Or.inl h

/-- A node behind `modify` is an unchanged or an updated one. -/
theorem find?_modify_cases {name other : String} {f : Node α → Node α} {g : Graph α} {node : Node α}
    (h : (g.modify name f).find? other = some node) :
    ∃ known, g.find? other = some known ∧ (node = known ∨ node = f known) := by
  rw [find?_modify] at h
  split at h
  · next heq =>
    subst heq
    obtain ⟨known, hknown, rfl⟩ := Option.map_eq_some_iff.mp h
    exact ⟨known, hknown, Or.inr rfl⟩
  · exact ⟨node, h, Or.inl rfl⟩

/-- `ensure` extends the occupied identities by its own. -/
theorem isSome_find?_ensure [Zero α] (originOf : String → Origin) (name : String) (g : Graph α)
    (other : String) :
    ((g.ensure originOf name).find? other).isSome ↔ other = name ∨ (g.find? other).isSome := by
  rw [find?_ensure]
  by_cases hname : name = other
  · simp [hname]
  · simp [hname, Ne.symm hname]

/-- `modify` preserves the occupied identities. -/
theorem isSome_find?_modify (name : String) (f : Node α → Node α) (g : Graph α) (other : String) :
    ((g.modify name f).find? other).isSome ↔ (g.find? other).isSome := by
  rw [find?_modify]
  by_cases hname : name = other
  · subst hname
    simp
  · simp [hname]

/-! ### Weight lookup -/

/-- The empty graph stores no weights. -/
theorem weight?_empty (a b : String) : (empty : Graph α).weight? a b = none := by
  rw [weight?, find?_empty]
  rfl

/-- `ensure` preserves stored weights. -/
theorem weight?_ensure [Zero α] (originOf : String → Origin) (name : String) (g : Graph α)
    (a b : String) : (g.ensure originOf name).weight? a b = g.weight? a b := by
  rw [weight?, weight?, find?_ensure]
  by_cases hname : name = a
  · subst hname
    cases hfound : g.find? name with
    | some node => simp
    | none => simp [Node.new]
  · simp [hname]

/-- An update that keeps the partners of a node preserves stored weights. -/
theorem weight?_modify (name : String) {f : Node α → Node α}
    (hf : ∀ node, (f node).partners = node.partners) (g : Graph α) (a b : String) :
    (g.modify name f).weight? a b = g.weight? a b := by
  rw [weight?, weight?, find?_modify]
  by_cases hname : name = a
  · subst hname
    cases g.find? name with
    | some node => simp [hf]
    | none => simp
  · simp [hname]

/-- `strengthen` on stored weights. -/
theorem weight?_strengthen {owner : String} {g : Graph α} (howner : (g.find? owner).isSome)
    (partner : String) (weight : Weight) (a b : String) :
    (g.strengthen owner partner weight).weight? a b =
      if owner = a ∧ partner = b then some (weight.addTo (g.weight? a b)) else g.weight? a b := by
  rw [weight?, strengthen, find?_modify]
  by_cases hname : owner = a
  · subst hname
    obtain ⟨node, hnode⟩ := Option.isSome_iff_exists.mp howner
    rw [weight?_of_find? hnode, if_pos rfl, hnode]
    show (node.strengthen partner weight).partners[b]? = _
    rw [Node.strengthen, Std.ExtTreeMap.getElem?_alter]
    by_cases hpartner : partner = b
    · subst hpartner
      cases node.partners[partner]? <;> simp [Weight.addTo]
    · simp [hpartner]
  · simp [hname, weight?]

/-- The symmetric lookup reads the lesser identity. -/
theorem attraction_eq (g : Graph α) (a b : String) :
    g.attraction a b = if a ≤ b then (g.weight? a b).getD 0 else (g.weight? b a).getD 0 := by
  unfold attraction weight?
  by_cases h : a ≤ b
  · simp only [if_pos h]
    cases g.find? a <;> rfl
  · simp only [if_neg h]
    cases g.find? b <;> rfl

/-- The symmetric lookup is symmetric. -/
theorem attraction_comm (g : Graph α) (a b : String) : g.attraction a b = g.attraction b a := by
  rw [attraction_eq, attraction_eq]
  rcases lt_trichotomy a b with hlt | rfl | hgt
  · rw [if_pos (le_of_lt hlt), if_neg (not_le.mpr hlt)]
  · rfl
  · rw [if_neg (not_le.mpr hgt), if_pos (le_of_lt hgt)]

end Graph

end ClassAtlas
