import ClassAtlas.Proofs.ClassName
import ClassAtlas.Proofs.Graph.Listing
import ClassAtlas.Report.Basic
import Mathlib

/-!
# Consistency of graph views

Snapshot, edge listing, symmetric lookup, counts and report are computed from the same tables, whose
iteration order is unspecified. Since identities and pairs are unique, sorting makes every view
independent of that order, and the views agree. Specification: `SPEC_FULL.md` §6, line 72, §8, lines
84–88, and §10.6, lines 168 and 179–180.
-/

namespace ClassAtlas

/-- Sorting by a key with distinct values is invariant under permutation. -/
theorem mergeSort_eq_of_perm {β : Type} (name : β → String) {listing sorted : List β}
    (hperm : listing.Perm sorted) (hstrict : sorted.Pairwise fun x y => name x < name y) :
    listing.mergeSort (fun x y => decide (name x ≤ name y)) = sorted := by
  set le : β → β → Bool := fun x y => decide (name x ≤ name y) with hdef
  set result := listing.mergeSort le
  have hresult : result.Perm sorted := (List.mergeSort_perm _ _).trans hperm
  have htrans : ∀ x y z, le x y = true → le y z = true → le x z = true := by
    intro x y z hxy hyz
    exact decide_eq_true (le_trans (of_decide_eq_true hxy) (of_decide_eq_true hyz))
  have htotal : ∀ x y, (le x y || le y x) = true := by
    intro x y
    rw [Bool.or_eq_true, hdef, decide_eq_true_eq, decide_eq_true_eq]
    exact le_total (name x) (name y)
  have hle := List.pairwise_mergeSort htrans htotal listing
  have hne : result.Pairwise fun x y => name x ≠ name y :=
    hresult.symm.pairwise (hstrict.imp fun hlt => ne_of_lt hlt) fun hne => hne.symm
  have hlt : result.Pairwise fun x y => name x < name y :=
    (hle.and hne).imp fun h => lt_of_le_of_ne (of_decide_eq_true h.1) h.2
  exact hresult.eq_of_pairwise (fun _ _ _ _ hxy hyx => absurd hyx (lt_asymm hxy)) hlt hstrict

/-- The edges of a node are strictly ordered. -/
theorem Node.edges_precede {α : Type} (node : Node α) : node.edges.Pairwise Edge.Precedes := by
  rw [Node.edges, List.pairwise_map]
  apply (Std.ExtTreeMap.ordered_keys_toList (t := node.partners)).imp
  intro p q hlt
  exact Or.inr ⟨rfl, compare_lt_iff_lt.mp hlt⟩

namespace Graph

variable {α : Type} {originOf : String → Origin} {g : Graph α}

/-! ### Nodes -/

/-- The nodes of a well-formed graph are strictly ordered by identity. -/
theorem IsWellFormed.nodeList_strict (h : g.IsWellFormed originOf) :
    g.nodeList.Pairwise fun node other => node.identity < other.identity := by
  rw [nodeList, List.pairwise_map]
  apply (Std.ExtTreeMap.ordered_keys_toList (t := g.nodes)).imp_of_mem
  intro p q hp hq hlt
  rw [(h.node (Std.ExtTreeMap.mem_toList_iff_getElem?_eq_some.mp hp)).1,
    (h.node (Std.ExtTreeMap.mem_toList_iff_getElem?_eq_some.mp hq)).1]
  exact compare_lt_iff_lt.mp hlt

/-- The snapshot is invariant under permutation of the listing. -/
theorem IsWellFormed.snapshotOf_perm (h : g.IsWellFormed originOf) {listing : List (Node α)}
    (hperm : listing.Perm g.nodeList) : snapshotOf listing = g.nodeList :=
  mergeSort_eq_of_perm Node.identity hperm h.nodeList_strict

/-- The snapshot of a well-formed graph is its node listing. -/
theorem IsWellFormed.snapshot_eq (h : g.IsWellFormed originOf) : g.snapshot = g.nodeList :=
  h.snapshotOf_perm (List.Perm.refl _)

/-- The snapshot holds the nodes stored under their identities. -/
theorem IsWellFormed.mem_snapshot (h : g.IsWellFormed originOf) {node : Node α} :
    node ∈ g.snapshot ↔ g.find? node.identity = some node := by
  rw [h.snapshot_eq, mem_nodeList]
  constructor
  · rintro ⟨name, hnode⟩
    rwa [(h.node hnode).1]
  · exact fun hnode => ⟨_, hnode⟩

/-! ### Edges -/

/-- The edges of all nodes in order are strictly ordered. -/
theorem IsWellFormed.flatMap_edges_precede (h : g.IsWellFormed originOf) :
    (g.nodeList.flatMap Node.edges).Pairwise Edge.Precedes := by
  rw [List.pairwise_flatMap]
  refine ⟨fun node _ => node.edges_precede, h.nodeList_strict.imp ?_⟩
  intro node other hlt e he f hf
  rw [(mem_edges_node.mp he).1, (mem_edges_node.mp hf).1] at hlt
  exact Or.inl hlt

/-- The edge listing is invariant under permutation of either table. -/
theorem IsWellFormed.mergeSort_edges (h : g.IsWellFormed originOf) {entries : List Edge}
    (hperm : entries.Perm (g.nodeList.flatMap Node.edges)) :
    entries.mergeSort Edge.le = g.nodeList.flatMap Node.edges := by
  have hne := flatMap_edges_ne h.identity_ne
  have hentries := hperm.symm.pairwise hne fun {e f} hef hfe => hef ⟨hfe.1.symm, hfe.2.symm⟩
  exact Edge.eq_of_perm_of_precedes ((List.mergeSort_perm _ _).trans hperm)
    (Edge.mergeSort_precedes hentries) h.flatMap_edges_precede

/-- The edge listing is the concatenation of the nodes' edges. -/
theorem IsWellFormed.edges_eq (h : g.IsWellFormed originOf) :
    g.edges = g.nodeList.flatMap Node.edges :=
  h.mergeSort_edges (List.Perm.refl _)

/-- The weight of a listed edge is that of the symmetric lookup. -/
theorem IsWellFormed.attraction_of_mem_edges (h : g.IsWellFormed originOf) {e : Edge}
    (he : e ∈ g.edges) : g.attraction e.a e.b = e.weight := by
  have hstored := h.mem_edges.mp he
  rw [attraction_eq, if_pos (le_of_lt (h.weight hstored).1), hstored]
  rfl

/-- Pairs without a listed edge have weight zero. -/
theorem IsWellFormed.attraction_of_unlisted (h : g.IsWellFormed originOf) {a b : String}
    (hnone : ∀ e ∈ g.edges, s(e.a, e.b) ≠ s(a, b)) : g.attraction a b = 0 := by
  have hstored : ∀ first second, s(first, second) = s(a, b) → g.weight? first second = none := by
    intro first second hpair
    cases hweight : g.weight? first second with
    | none => rfl
    | some weight => exact absurd hpair (hnone ⟨first, second, weight⟩ (h.mem_edges.mpr hweight))
  rw [attraction_eq, hstored a b rfl, hstored b a Sym2.eq_swap]
  exact ite_self _

/-! ### Agreement -/

/-- Agreement of the views: the snapshot is strictly ordered, complete and independent of the
iteration order, as is the edge listing; the edges are those of the snapshot's nodes; listed weights
are returned by the symmetric lookup and unlisted pairs have none; counts are the lengths of the
listings. -/
structure ViewsAgree (g : Graph α) : Prop where
  snapshotOf_perm {listing : List (Node α)} :
    listing.Perm g.nodeList → snapshotOf listing = g.snapshot
  snapshot_strict : g.snapshot.Pairwise fun node other => node.identity < other.identity
  mem_snapshot {node : Node α} : node ∈ g.snapshot ↔ g.find? node.identity = some node
  exists_snapshot {name : String} :
    (g.find? name).isSome ↔ ∃ node ∈ g.snapshot, node.identity = name
  partners_perm {node : Node α} {entries : List (String × Weight)} :
    entries.Perm node.partners.toList → Std.ExtTreeMap.ofList entries = node.partners
  edges_perm {listing : List (Node α)} {entries : List Edge} : listing.Perm g.nodeList →
    entries.Perm (listing.flatMap Node.edges) → entries.mergeSort Edge.le = g.edges
  edges_eq : g.edges = g.snapshot.flatMap Node.edges
  partners_strict {node : Node α} :
    (node.edges.map (·.b)).Pairwise fun partner other => partner < other
  attraction {e : Edge} : e ∈ g.edges →
    g.attraction e.a e.b = e.weight ∧ g.attraction e.b e.a = e.weight
  attraction_unlisted {a b : String} :
    (∀ e ∈ g.edges, s(e.a, e.b) ≠ s(a, b)) → g.attraction a b = 0
  nodeCount : g.nodeCount = g.snapshot.length
  edgeCount {listing : List (Node α)} : listing.Perm g.nodeList →
    listing.foldl (fun count node => count + node.partners.size) 0 = g.edges.length
  edgeCount_eq : g.edgeCount = g.edges.length

/-- A table is determined by its entries in any order. -/
theorem ofList_perm_toList {partners : Std.ExtTreeMap String Weight}
    {entries : List (String × Weight)} (hperm : entries.Perm partners.toList) :
    Std.ExtTreeMap.ofList entries = partners := by
  have hdistinct := hperm.symm.pairwise partners.distinct_keys_toList
    fun hne heq => hne (Std.OrientedCmp.eq_symm heq)
  apply Std.ExtTreeMap.ext_getElem?
  intro partner
  cases hweight : partners[partner]? with
  | some weight =>
    have hmem := Std.ExtTreeMap.mem_toList_iff_getElem?_eq_some.mpr hweight
    exact Std.ExtTreeMap.getElem?_ofList_of_mem Std.ReflCmp.compare_self hdistinct
      (hperm.mem_iff.mpr hmem)
  | none =>
    apply Std.ExtTreeMap.getElem?_ofList_of_contains_eq_false
    rw [List.contains_eq_any_beq, List.any_eq_false]
    intro key hkey heq
    obtain ⟨⟨_, weight⟩, hentry, rfl⟩ := List.mem_map.mp hkey
    obtain rfl := eq_of_beq heq
    have hstored := Std.ExtTreeMap.mem_toList_iff_getElem?_eq_some.mp (hperm.mem_iff.mp hentry)
    rw [hweight] at hstored
    cases hstored

/-- The views of a well-formed graph agree. -/
theorem IsWellFormed.viewsAgree (h : g.IsWellFormed originOf) : g.ViewsAgree where
  snapshotOf_perm hperm := (h.snapshotOf_perm hperm).trans h.snapshot_eq.symm
  snapshot_strict := h.snapshot_eq ▸ h.nodeList_strict
  mem_snapshot := h.mem_snapshot
  exists_snapshot {name} := by
    rw [Option.isSome_iff_exists]
    constructor
    · rintro ⟨node, hnode⟩
      have hidentity := (h.node hnode).1
      exact ⟨node, h.mem_snapshot.mpr (hidentity ▸ hnode), hidentity⟩
    · rintro ⟨node, hnode, rfl⟩
      exact ⟨node, h.mem_snapshot.mp hnode⟩
  partners_perm := ofList_perm_toList
  edges_perm hlisting hentries :=
    (h.mergeSort_edges (hentries.trans (hlisting.flatMap_right Node.edges))).trans h.edges_eq.symm
  edges_eq := by rw [h.snapshot_eq, h.edges_eq]
  partners_strict {node} := by
    rw [List.pairwise_map]
    apply node.edges_precede.imp_of_mem
    rintro e f he hf (hlt | ⟨-, hlt⟩)
    · rw [← (mem_edges_node.mp he).1, ← (mem_edges_node.mp hf).1] at hlt
      exact absurd hlt (lt_irrefl _)
    · exact hlt
  attraction {e} he := by
    rw [attraction_comm g e.b e.a]
    exact ⟨h.attraction_of_mem_edges he, h.attraction_of_mem_edges he⟩
  attraction_unlisted := h.attraction_of_unlisted
  nodeCount := by
    rw [h.snapshot_eq, nodeCount, nodeList, List.length_map, Std.ExtTreeMap.length_toList]
  edgeCount hperm := by
    rw [foldl_size_partners, Nat.zero_add, (hperm.flatMap_right Node.edges).length_eq, h.edges_eq]
  edgeCount_eq := edgeCount_eq_length g

end Graph

/-! ### Reports -/

/-- Order of report nodes by identity. -/
def NodeReport.le (n m : NodeReport) : Bool := n.identity ≤ m.identity

/-- A report lists a graph: its nodes and edges in the same order for any iteration order, exact
counts, and names that split at the last dot. -/
structure GraphReport.Lists (report : GraphReport) (g : Graph Float32) : Prop where
  nodes : report.nodes.map (fun node => (node.identity, node.origin, node.position)) =
    g.snapshot.map fun node => (node.identity, node.origin, node.position)
  nodes_perm {listing : List (Node Float32)} : listing.Perm g.nodeList →
    (listing.map NodeReport.ofNode).mergeSort NodeReport.le = report.nodes
  edges : report.edges = g.edges
  nodeCount : report.nodeCount = report.nodes.length ∧ report.nodeCount = g.nodeCount
  edgeCount : report.edgeCount = report.edges.length ∧ report.edgeCount = g.edgeCount
  simpleName {node : NodeReport} : node ∈ report.nodes → '.' ∉ node.simpleName.toList
  bare {node : NodeReport} : node ∈ report.nodes → '.' ∉ node.identity.toList →
    node.identity = node.simpleName ∧ node.package = ""
  dotted {node : NodeReport} : node ∈ report.nodes → '.' ∈ node.identity.toList →
    node.identity = node.package ++ "." ++ node.simpleName

/-- The report of a well-formed graph lists it. -/
theorem Graph.IsWellFormed.lists_collect {originOf : String → Origin} {g : Graph Float32}
    (h : g.IsWellFormed originOf) (classpath : List String) (state : ScanState)
    (scan : ScanCounts) (layoutTicks durationMs : Nat) :
    (GraphReport.collect classpath g state scan layoutTicks durationMs).Lists g := by
  have hnodes : (GraphReport.collect classpath g state scan layoutTicks durationMs).nodes =
    g.snapshot.map NodeReport.ofNode := rfl
  constructor
  case nodes =>
    rw [hnodes, List.map_map]
    rfl
  case nodes_perm =>
    intro listing hperm
    rw [hnodes, h.snapshot_eq]
    refine mergeSort_eq_of_perm NodeReport.identity (hperm.map _) ?_
    rw [List.pairwise_map]
    exact h.nodeList_strict
  case edges => rfl
  case nodeCount =>
    refine ⟨rfl, ?_⟩
    rw [h.viewsAgree.nodeCount]
    exact List.length_map _
  case edgeCount => exact ⟨rfl, g.edgeCount_eq_length.symm⟩
  case simpleName =>
    intro node hnode
    obtain ⟨node, -, rfl⟩ := List.mem_map.mp hnode
    exact ClassName.dot_notMem_simple node.identity
  case bare =>
    intro node hnode hbare
    obtain ⟨node, -, rfl⟩ := List.mem_map.mp hnode
    obtain ⟨hsimple, hpackage⟩ := ClassName.simple_of_dot_notMem hbare
    exact ⟨hsimple.symm, hpackage⟩
  case dotted =>
    intro node hnode hdotted
    obtain ⟨node, -, rfl⟩ := List.mem_map.mp hnode
    exact (ClassName.package_append_simple hdotted).symm

namespace Graph

/-- The views of every reachable graph agree, and every report of it lists it. -/
theorem viewsAgree_of_reachable {resolver : OriginResolver} {tree : FileTree} {g : Graph Float32}
    (h : Reachable resolver tree g) :
    g.ViewsAgree ∧ ∀ classpath state scan layoutTicks durationMs,
      (GraphReport.collect classpath g state scan layoutTicks durationMs).Lists g :=
  have hwf := isWellFormed_of_reachable h
  ⟨hwf.viewsAgree, hwf.lists_collect⟩

/-- A superclass in the default package is listed in front of its subclass, and their weight is
returned in either order. -/
theorem viewsAgree_of_reachable_subclass :
    ∃ g : Graph Float32, Reachable .empty (.fresh []) g ∧
      g.snapshot.map Node.identity = ["A", "p.B"] ∧ g.edges = [⟨"A", "p.B", ⟨4⟩⟩] ∧
      g.attraction "p.B" "A" = ⟨4⟩ ∧ g.attraction "A" "A" = 0 ∧
      (GraphReport.collect [] g .completed {} 0 0).Lists g ∧
      (g.snapshot.map fun node => (node.package, node.simpleName)) = [("", "A"), ("p", "B")] := by
  let g : Graph Float32 :=
    empty.relate (OriginResolver.resolve .empty (.fresh [])) "p.B" "A" .inheritance
  have hreach : Reachable .empty (.fresh []) g := .relate "p.B" "A" .inheritance .empty
  obtain ⟨hviews, hreports⟩ := viewsAgree_of_reachable hreach
  have hlisted : g.snapshot = g.nodeList := (isWellFormed_of_reachable hreach).snapshot_eq
  have hedges : g.edges = [⟨"A", "p.B", ⟨4⟩⟩] := by decide +kernel
  refine ⟨g, hreach, ?_, hedges, ?_, ?_, hreports _ _ _ _ _, ?_⟩
  · rw [hlisted]
    decide +kernel
  · exact (hviews.attraction (e := ⟨"A", "p.B", ⟨4⟩⟩) (by simp [hedges])).2
  · apply hviews.attraction_unlisted
    rw [hedges]
    decide
  · rw [hlisted]
    decide +kernel

end Graph

end ClassAtlas
