import ClassAtlas.Proofs.Graph.Invariant
import Mathlib

/-!
# Node and edge listings

The edge listing of a well-formed graph holds each stored weight once, in strict lexicographic
order, independently of the order in which nodes are visited. Counts are the lengths of listings.
Specification: `SPEC_FULL.md` §10.6, lines 179–180.
-/

namespace ClassAtlas

/-- Strict lexicographic order of edges by their two names. -/
def Edge.Precedes (e f : Edge) : Prop := e.a < f.a ∨ e.a = f.a ∧ e.b < f.b

namespace Edge

/-- `Edge.le` is the reflexive closure of `Precedes`. -/
theorem le_iff {e f : Edge} : e.le f = true ↔ e.a < f.a ∨ e.a = f.a ∧ e.b ≤ f.b := by
  simp only [le, Bool.or_eq_true, Bool.and_eq_true, decide_eq_true_eq, beq_iff_eq]

private theorem trans_le (e f k : Edge) (h : e.le f = true) (h' : f.le k = true) :
    e.le k = true := by
  rw [le_iff] at h h' ⊢
  rcases h with hlt | ⟨heq, hle⟩
  · rcases h' with hlt' | ⟨heq', -⟩
    · exact Or.inl (lt_trans hlt hlt')
    · exact Or.inl (heq' ▸ hlt)
  · rcases h' with hlt' | ⟨heq', hle'⟩
    · exact Or.inl (heq ▸ hlt')
    · exact Or.inr ⟨heq.trans heq', le_trans hle hle'⟩

private theorem total_le (e f : Edge) : (e.le f || f.le e) = true := by
  rw [Bool.or_eq_true, le_iff, le_iff]
  rcases lt_trichotomy e.a f.a with hlt | heq | hgt
  · exact Or.inl (Or.inl hlt)
  · exact (le_total e.b f.b).imp (fun h => Or.inr ⟨heq, h⟩) (fun h => Or.inr ⟨heq.symm, h⟩)
  · exact Or.inr (Or.inl hgt)

/-- `Precedes` is asymmetric. -/
theorem Precedes.asymm {e f : Edge} (h : e.Precedes f) : ¬ f.Precedes e := by
  rintro (hgt | ⟨heq, hgt⟩)
  · rcases h with hlt | ⟨heq, -⟩
    · exact lt_asymm hlt hgt
    · exact absurd hgt (heq ▸ lt_irrefl _)
  · rcases h with hlt | ⟨-, hlt⟩
    · exact absurd hlt (heq ▸ lt_irrefl _)
    · exact lt_asymm hlt hgt

/-- Sorting edges with distinct pairs yields a strict order. -/
theorem mergeSort_precedes {entries : List Edge}
    (h : entries.Pairwise fun e f => ¬(e.a = f.a ∧ e.b = f.b)) :
    (entries.mergeSort Edge.le).Pairwise Precedes := by
  have hle := List.pairwise_mergeSort trans_le total_le entries
  have hne := (List.mergeSort_perm entries Edge.le).symm.pairwise h
    fun {e f} hef hfe => hef ⟨hfe.1.symm, hfe.2.symm⟩
  refine (hle.and hne).imp ?_
  rintro e f ⟨hef, hneq⟩
  rcases le_iff.mp hef with hlt | ⟨heq, hleb⟩
  · exact Or.inl hlt
  · exact Or.inr ⟨heq, lt_of_le_of_ne hleb fun hb => hneq ⟨heq, hb⟩⟩

/-- Strictly ordered permutations coincide. -/
theorem eq_of_perm_of_precedes {entries others : List Edge} (hperm : entries.Perm others)
    (h : entries.Pairwise Precedes) (h' : others.Pairwise Precedes) : entries = others :=
  List.Perm.eq_of_pairwise (fun _ _ _ _ hef hfe => absurd hfe hef.asymm) h h' hperm

end Edge

namespace Graph

variable {α : Type} {originOf : String → Origin} {g : Graph α}

/-! ### Nodes -/

/-- The node listing holds the nodes under their identities. -/
theorem mem_nodeList {node : Node α} : node ∈ g.nodeList ↔ ∃ name, g.find? name = some node := by
  simp only [nodeList, List.mem_map, Prod.exists, exists_eq_right,
    Std.ExtTreeMap.mem_toList_iff_getElem?_eq_some]
  rfl

/-- Distinct listed nodes have distinct identities. -/
theorem IsWellFormed.identity_ne (h : g.IsWellFormed originOf) :
    g.nodeList.Pairwise fun node other => node.identity ≠ other.identity := by
  rw [nodeList, List.pairwise_map]
  apply List.Pairwise.imp_of_mem _ g.nodes.distinct_keys_toList
  intro p q hp hq hne heq
  have hleft := (h.node (Std.ExtTreeMap.mem_toList_iff_getElem?_eq_some.mp hp)).1
  have hright := (h.node (Std.ExtTreeMap.mem_toList_iff_getElem?_eq_some.mp hq)).1
  exact hne (Std.compare_eq_iff_eq.mpr (hleft.symm.trans (heq.trans hright)))

/-- The number of nodes is that of the occupied identities. -/
theorem nodeCount_eq_card {names : Finset String}
    (h : ∀ name, (g.find? name).isSome ↔ name ∈ names) : g.nodeCount = names.card := by
  have hnames : g.nodes.keys.toFinset = names := by
    ext name
    rw [List.mem_toFinset, Std.ExtTreeMap.mem_keys, Std.ExtTreeMap.mem_iff_isSome_getElem?]
    exact h name
  rw [nodeCount, ← hnames, List.toFinset_card_of_nodup Std.ExtTreeMap.nodup_keys,
    Std.ExtTreeMap.length_keys]

/-! ### Edges -/

/-- The edges of a node are its stored weights. -/
theorem mem_edges_node {node : Node α} {e : Edge} :
    e ∈ node.edges ↔ node.identity = e.a ∧ node.partners[e.b]? = some e.weight := by
  simp only [Node.edges, List.mem_map, Prod.exists, Std.ExtTreeMap.mem_toList_iff_getElem?_eq_some]
  constructor
  · rintro ⟨partner, weight, hweight, rfl⟩
    exact ⟨rfl, hweight⟩
  · rintro ⟨hidentity, hweight⟩
    exact ⟨e.b, e.weight, hweight, by rw [hidentity]⟩

/-- The edges of a well-formed graph are its stored weights. -/
theorem IsWellFormed.mem_edges (h : g.IsWellFormed originOf) {e : Edge} :
    e ∈ g.edges ↔ g.weight? e.a e.b = some e.weight := by
  simp only [edges, edgesOf, List.mem_mergeSort, List.mem_flatMap, mem_nodeList, mem_edges_node]
  constructor
  · rintro ⟨node, ⟨name, hnode⟩, hidentity, hweight⟩
    rw [← (h.node hnode).1, hidentity] at hnode
    exact (weight?_of_find? hnode e.b).trans hweight
  · intro hweight
    obtain ⟨node, hnode, hpartner⟩ := Option.bind_eq_some_iff.mp hweight
    exact ⟨node, ⟨e.a, hnode⟩, (h.node hnode).1, hpartner⟩

private theorem edges_node_ne (node : Node α) :
    node.edges.Pairwise fun e f => ¬(e.a = f.a ∧ e.b = f.b) := by
  rw [Node.edges, List.pairwise_map]
  apply node.partners.distinct_keys_toList.imp
  intro p q hne heq
  exact hne (Std.compare_eq_iff_eq.mpr heq.2)

/-- Nodes with distinct identities list distinct edges. -/
theorem flatMap_edges_ne {listing : List (Node α)}
    (h : listing.Pairwise fun node other => node.identity ≠ other.identity) :
    (listing.flatMap Node.edges).Pairwise fun e f => ¬(e.a = f.a ∧ e.b = f.b) := by
  rw [List.pairwise_flatMap]
  refine ⟨fun node _ => edges_node_ne node, h.imp ?_⟩
  intro node other hne e he f hf heq
  exact hne ((mem_edges_node.mp he).1.trans (heq.1.trans (mem_edges_node.mp hf).1.symm))

/-- The edges of nodes with distinct identities are strictly ordered. -/
theorem edgesOf_precedes {listing : List (Node α)}
    (h : listing.Pairwise fun node other => node.identity ≠ other.identity) :
    (edgesOf listing).Pairwise Edge.Precedes :=
  Edge.mergeSort_precedes (flatMap_edges_ne h)

/-- The edge listing is invariant under permutation of the nodes. -/
theorem edgesOf_perm {listing other : List (Node α)} (hperm : listing.Perm other)
    (h : listing.Pairwise fun node other => node.identity ≠ other.identity) :
    edgesOf listing = edgesOf other := by
  have hother := hperm.pairwise h fun hne => hne.symm
  have hedges : (edgesOf listing).Perm (edgesOf other) :=
    (List.mergeSort_perm _ _).trans
      ((hperm.flatMap_right Node.edges).trans (List.mergeSort_perm _ _).symm)
  exact Edge.eq_of_perm_of_precedes hedges (edgesOf_precedes h) (edgesOf_precedes hother)

/-- Summation of the partner counts of a listing. -/
theorem foldl_size_partners (listing : List (Node α)) (count : Nat) :
    listing.foldl (fun count node => count + node.partners.size) count =
      count + (listing.flatMap Node.edges).length := by
  induction listing generalizing count with
  | nil => rfl
  | cons node rest ih =>
    rw [List.foldl_cons, ih, List.flatMap_cons, List.length_append, Node.edges, List.length_map,
      Std.ExtTreeMap.length_toList, Nat.add_assoc]

/-- The number of edges is the length of the edge listing. -/
theorem edgeCount_eq_length (g : Graph α) : g.edgeCount = g.edges.length := by
  rw [edgeCount, foldl_size_partners, Nat.zero_add, edges, edgesOf, List.length_mergeSort]

end Graph

end ClassAtlas
