import ClassAtlas.Proofs.Graph.Invariant
import Mathlib

/-!
# Graphs as records

A graph without translations is determined by the set of named classes and by the sequence of weight
contributions to each pair. Specification: `SPEC_FULL.md` §3, lines 29–30.
-/

namespace ClassAtlas

/-- Contribution of weight to an unordered pair. -/
structure Share where
  pair : Sym2 String
  units : Nat

namespace Share

/-- Contributions to a pair in order. -/
def between (pair : Sym2 String) (shares : List Share) : List Nat :=
  (shares.filter (·.pair = pair)).map (·.units)

/-- Contribution of a relationship. -/
def ofRelation (a b : String) (kind : RelationKind) : List Share :=
  if a = b ∨ kind.weight = 0 then [] else [⟨s(a, b), kind.weight⟩]

/-- `between` on an appended share. -/
theorem between_concat (pair : Sym2 String) (shares : List Share) (share : Share) :
    between pair (shares ++ [share]) =
      if share.pair = pair then between pair shares ++ [share.units] else between pair shares := by
  by_cases h : share.pair = pair <;> simp [between, h]

/-- `between` preserves permutations. -/
theorem between_perm (pair : Sym2 String) {shares others : List Share} (h : shares.Perm others) :
    (between pair shares).Perm (between pair others) :=
  (h.filter _).map _

/-- Membership in `between`. -/
theorem mem_between {pair : Sym2 String} {shares : List Share} {units : Nat} :
    units ∈ between pair shares ↔ ∃ share ∈ shares, share.pair = pair ∧ share.units = units := by
  simp [between, and_assoc]

end Share

namespace Graph

variable {α : Type} [Zero α] {originOf : String → Origin}

/-- The graph has nodes at the origin of coordinates for exactly the named classes, and its weights
accumulate exactly the given shares, which are positive and between named classes. -/
structure Records (originOf : String → Origin) (names : Finset String) (shares : List Share)
    (g : Graph α) : Prop where
  isSome_find? (name : String) : (g.find? name).isSome ↔ name ∈ names
  node {name : String} {node : Node α} : g.find? name = some node →
    node.identity = name ∧ node.origin = originOf name ∧ node.position = 0
  weight? (a b : String) : g.weight? a b =
    if a < b then Weight.accumulate (Share.between s(a, b) shares) else none
  share {share : Share} : share ∈ shares → 0 < share.units ∧ ∀ name ∈ share.pair, name ∈ names

/-- The empty graph records nothing. -/
theorem records_empty : Records originOf ∅ [] (empty : Graph α) where
  isSome_find? name := by simp [find?_empty]
  node h := by simp [find?_empty] at h
  weight? a b := by simp [weight?_empty, Share.between, Weight.accumulate_nil]
  share h := absurd h List.not_mem_nil

/-- `ensure` records a name. -/
theorem Records.ensure {names : Finset String} {shares : List Share} {g : Graph α}
    (h : Records originOf names shares g) (name : String) :
    Records originOf (insert name names) shares (g.ensure originOf name) where
  isSome_find? other := by rw [isSome_find?_ensure, h.isSome_find?, Finset.mem_insert]
  node hnode := by
    rcases find?_ensure_cases hnode with hknown | ⟨rfl, rfl⟩
    · exact h.node hknown
    · exact ⟨rfl, rfl, rfl⟩
  weight? a b := by rw [weight?_ensure, h.weight?]
  share hshare := by
    obtain ⟨hpos, hnamed⟩ := h.share hshare
    exact ⟨hpos, fun other hother => Finset.mem_insert_of_mem (hnamed other hother)⟩

private theorem pair_eq_iff {owner partner a b : String} (hlt : owner < partner) (hab : a < b) :
    s(owner, partner) = s(a, b) ↔ owner = a ∧ partner = b := by
  rw [Sym2.eq_iff]
  constructor
  · rintro (h | ⟨rfl, rfl⟩)
    · exact h
    · exact absurd hab (lt_asymm hlt)
  · exact Or.inl

/-- `strengthen` records a share. -/
theorem Records.strengthen {names : Finset String} {shares : List Share} {g : Graph α}
    (h : Records originOf names shares g) {owner partner : String} (howner : owner ∈ names)
    (hpartner : partner ∈ names) (hlt : owner < partner) {units : Nat} (hunits : 0 < units) :
    Records originOf names (shares ++ [⟨s(owner, partner), units⟩])
      (g.strengthen owner partner ⟨units⟩) where
  isSome_find? name := by rw [Graph.strengthen, isSome_find?_modify, h.isSome_find?]
  node hnode := by
    obtain ⟨known, hknown, hcase⟩ := find?_modify_cases hnode
    rcases hcase with rfl | rfl
    · exact h.node hknown
    · obtain ⟨hidentity, horigin, hposition⟩ := h.node hknown
      exact ⟨hidentity, horigin, hposition⟩
  weight? a b := by
    rw [weight?_strengthen ((h.isSome_find? owner).mpr howner), h.weight?, Share.between_concat]
    by_cases hab : a < b
    · rw [if_pos hab, if_pos hab]
      by_cases heq : owner = a ∧ partner = b
      · rw [if_pos heq, if_pos ((pair_eq_iff hlt hab).mpr heq), Weight.accumulate_concat]
      · rw [if_neg heq, if_neg ((pair_eq_iff hlt hab).not.mpr heq)]
    · -- Nothing is ever stored for a class whose name does not come later.
      have heq : ¬(owner = a ∧ partner = b) := fun heq => hab (heq.1 ▸ heq.2 ▸ hlt)
      rw [if_neg heq, if_neg hab, if_neg hab]
  share {share} hshare := by
    rcases List.mem_append.mp hshare with hold | hnew
    · exact h.share hold
    · obtain rfl := List.mem_singleton.mp hnew
      refine ⟨hunits, fun name hname => ?_⟩
      rcases Sym2.mem_iff.mp hname with rfl | rfl
      · exact howner
      · exact hpartner

/-- The shares of a record are positive. -/
theorem Records.between_pos {names : Finset String} {shares : List Share} {g : Graph α}
    (h : Records originOf names shares g) (pair : Sym2 String) :
    ∀ units ∈ Share.between pair shares, 0 < units := by
  intro units hunits
  obtain ⟨share, hshare, -, rfl⟩ := Share.mem_between.mp hunits
  exact (h.share hshare).1

/-- A graph with a record is well-formed. -/
theorem Records.isWellFormed {names : Finset String} {shares : List Share} {g : Graph α}
    (h : Records originOf names shares g) : g.IsWellFormed originOf where
  node hnode := ⟨(h.node hnode).1, (h.node hnode).2.1⟩
  weight {a b weight} hweight := by
    rw [h.weight?] at hweight
    split at hweight
    · next hlt =>
      have hne := Weight.accumulate_isSome.mp (Option.isSome_of_eq_some hweight)
      obtain ⟨units, hunits⟩ := List.exists_mem_of_ne_nil _ hne
      obtain ⟨share, hshare, hpair, -⟩ := Share.mem_between.mp hunits
      refine ⟨hlt, Weight.accumulate_pos (h.between_pos _) hweight, (h.isSome_find? b).mpr ?_⟩
      exact (h.share hshare).2 b (hpair ▸ Sym2.mem_mk_right a b)
    · cases hweight

/-- Graphs with the same recorded names have equal nodes up to their weights. -/
theorem Records.find?_cases {names : Finset String} {shares others : List Share} {g k : Graph α}
    (hg : Records originOf names shares g) (hk : Records originOf names others k) (name : String) :
    (g.find? name = none ∧ k.find? name = none) ∨
      ∃ node partners, g.find? name = some node ∧ k.find? name = some { node with partners } := by
  have hsome : (g.find? name).isSome ↔ (k.find? name).isSome :=
    (hg.isSome_find? name).trans (hk.isSome_find? name).symm
  cases hleft : g.find? name with
  | none =>
    cases hright : k.find? name with
    | none => exact Or.inl ⟨rfl, rfl⟩
    | some node =>
      rw [hleft, hright] at hsome
      cases hsome.mpr rfl
  | some node =>
    cases hright : k.find? name with
    | none =>
      rw [hleft, hright] at hsome
      cases hsome.mp rfl
    | some other =>
      obtain ⟨hidentity, horigin, hposition⟩ := hg.node hleft
      obtain ⟨hidentity', horigin', hposition'⟩ := hk.node hright
      refine Or.inr ⟨node, other.partners, rfl, ?_⟩
      rw [hidentity.trans hidentity'.symm, horigin.trans horigin'.symm,
        hposition.trans hposition'.symm]

/-- Graphs with the same names and the same accumulated weights coincide. -/
theorem Records.ext {names : Finset String} {shares others : List Share} {g k : Graph α}
    (hg : Records originOf names shares g) (hk : Records originOf names others k)
    (htotal : ∀ a b, a < b → Weight.accumulate (Share.between s(a, b) shares) =
      Weight.accumulate (Share.between s(a, b) others)) : g = k := by
  have hweight : ∀ a b, g.weight? a b = k.weight? a b := by
    intro a b
    rw [hg.weight?, hk.weight?]
    split
    · next hlt => exact htotal a b hlt
    · rfl
  apply ext_find?
  intro name
  rcases hg.find?_cases hk name with ⟨hleft, hright⟩ | ⟨node, partners, hleft, hright⟩
  · rw [hleft, hright]
  · have hpartners : node.partners = partners := by
      apply Std.ExtTreeMap.ext_getElem?
      intro partner
      rw [← weight?_of_find? hleft, hweight, weight?_of_find? hright]
    rw [hleft, hright, ← hpartners]

/-- Same shape: equal nodes up to their weights, and the same related pairs. -/
structure SameShape (g k : Graph α) : Prop where
  find? (name : String) :
    (g.find? name).map (fun node => (node.identity, node.origin, node.position)) =
      (k.find? name).map fun node => (node.identity, node.origin, node.position)
  weight? (a b : String) : (g.weight? a b).isSome = (k.weight? a b).isSome

/-- Graphs with permuted records have the same shape. -/
theorem Records.sameShape {names : Finset String} {shares others : List Share} {g k : Graph α}
    (hg : Records originOf names shares g) (hk : Records originOf names others k)
    (hperm : shares.Perm others) : g.SameShape k where
  find? name := by
    rcases hg.find?_cases hk name with ⟨hleft, hright⟩ | ⟨node, partners, hleft, hright⟩
    · rw [hleft, hright]
    · rw [hleft, hright]
      rfl
  weight? a b := by
    rw [hg.weight?, hk.weight?]
    split
    · have hbetween := Share.between_perm s(a, b) hperm
      rw [Bool.eq_iff_iff, Weight.accumulate_isSome, Weight.accumulate_isSome, not_iff_not]
      constructor
      · intro hnil
        exact (hnil ▸ hbetween.symm).eq_nil
      · intro hnil
        exact (hnil ▸ hbetween).eq_nil
    · rfl

end Graph

end ClassAtlas
