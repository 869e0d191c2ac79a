import ClassAtlas.Graph.Client
import ClassAtlas.Proofs.Graph.Listing
import ClassAtlas.Proofs.Graph.Record
import Mathlib

/-!
# Denotation of call sequences

The graph built by a sequence of calls has the classes that the calls name, and the weight of a pair
of distinct classes is the sum of the weights stated for it in either direction. Neither the order
of the calls nor the direction of a relationship matters while the sums are exact in single
precision. Specification: `SPEC_FULL.md` §3, lines 27–30, and §8, lines 84–88.
-/

namespace ClassAtlas

namespace Call

/-- Classes named by a call. -/
def names : Call → List String
  | .ensure name => [name]
  | .relate a b _ => [a, b]
  | .addFact fact => [fact.source, fact.target]

/-- Weight stated by a call for an unordered pair. -/
def units (pair : Sym2 String) : Call → Nat
  | .ensure _ => 0
  | .relate a b kind => if s(a, b) = pair then kind.weight else 0
  | .addFact fact => if s(fact.source, fact.target) = pair then fact.kind.weight else 0

/-- Shares contributed by a call. -/
def shares : Call → List Share
  | .ensure _ => []
  | .relate a b kind => Share.ofRelation a b kind
  | .addFact fact => Share.ofRelation fact.source fact.target fact.kind

/-- Classes named by a list of calls. -/
def allNames (calls : List Call) : Finset String := (calls.flatMap names).toFinset

/-- Sum of the weights stated for an unordered pair. -/
def total (pair : Sym2 String) (calls : List Call) : Nat := (calls.map (units pair)).sum

/-- Ordered pairs with a positive sum. -/
def relatedPairs (calls : List Call) : Finset (String × String) :=
  (allNames calls ×ˢ allNames calls).filter fun (a, b) => a < b ∧ 0 < total s(a, b) calls

/-- Graph built by a list of calls from the empty one. -/
def performAll {α : Type} [Zero α] (originOf : String → Origin) (calls : List Call) : Graph α :=
  calls.foldl (perform originOf) .empty

/-- Reversal of the direction of a relationship. -/
inductive Exchange : Call → Call → Prop
  | refl (call : Call) : Exchange call call
  | relate (a b : String) (kind : RelationKind) : Exchange (.relate a b kind) (.relate b a kind)
  | addFact (a b : String) (kind : RelationKind) :
    Exchange (.addFact ⟨a, b, kind⟩) (.addFact ⟨b, a, kind⟩)

/-! ### Stated weights -/

private theorem sum_ofRelation {pair : Sym2 String} (hpair : ¬ pair.IsDiag) (a b : String)
    (kind : RelationKind) :
    (Share.between pair (Share.ofRelation a b kind)).sum =
      if s(a, b) = pair then kind.weight else 0 := by
  unfold Share.ofRelation
  by_cases hnone : a = b ∨ kind.weight = 0
  · rw [if_pos hnone]
    rcases hnone with rfl | hzero
    · have hne : s(a, a) ≠ pair := fun heq => hpair (heq ▸ Sym2.mk_isDiag_iff.mpr rfl)
      rw [if_neg hne]
      rfl
    · simp [Share.between, hzero]
  · rw [if_neg hnone]
    by_cases heq : s(a, b) = pair <;> simp [Share.between, heq]

/-- The sum of a pair of distinct classes is that of its shares. -/
theorem total_eq_sum {pair : Sym2 String} (hpair : ¬ pair.IsDiag) (calls : List Call) :
    total pair calls = (Share.between pair (calls.flatMap shares)).sum := by
  induction calls with
  | nil => rfl
  | cons call calls ih =>
    have hcall : units pair call = (Share.between pair call.shares).sum := by
      cases call with
      | ensure name => rfl
      | relate a b kind => exact (sum_ofRelation hpair a b kind).symm
      | addFact fact => exact (sum_ofRelation hpair fact.source fact.target fact.kind).symm
    rw [total] at ih ⊢
    rw [List.map_cons, List.sum_cons, ih, hcall, List.flatMap_cons, Share.between, Share.between,
      Share.between, List.filter_append, List.map_append, List.sum_append]

/-- A positive sum is stated for named classes only. -/
theorem mem_allNames_of_total_pos {pair : Sym2 String} {calls : List Call}
    (h : 0 < total pair calls) : ∀ name ∈ pair, name ∈ allNames calls := by
  intro name hname
  obtain ⟨units', hunits, hpos⟩ : ∃ units' ∈ calls.map (units pair), 0 < units' := by
    by_contra hnone
    have hzero : total pair calls = 0 := List.sum_eq_zero fun units' hunits => by
      by_contra hne
      exact hnone ⟨units', hunits, Nat.pos_of_ne_zero hne⟩
    omega
  obtain ⟨call, hcall, rfl⟩ := List.mem_map.mp hunits
  rw [allNames, List.mem_toFinset, List.mem_flatMap]
  refine ⟨call, hcall, ?_⟩
  have hrelated : ∀ {a b : String} {weight : Nat}, 0 < (if s(a, b) = pair then weight else 0) →
      name ∈ [a, b] := by
    intro a b weight hpos
    have heq : s(a, b) = pair := by
      by_contra hne
      rw [if_neg hne] at hpos
      exact lt_irrefl 0 hpos
    rw [List.mem_cons, List.mem_singleton]
    exact Sym2.mem_iff.mp (heq ▸ hname)
  cases call with
  | ensure other => exact absurd hpos (lt_irrefl _)
  | relate a b kind => exact hrelated hpos
  | addFact fact => exact hrelated hpos

/-- Membership in `relatedPairs`. -/
theorem mem_relatedPairs {calls : List Call} {a b : String} :
    (a, b) ∈ relatedPairs calls ↔ a < b ∧ 0 < total s(a, b) calls := by
  rw [relatedPairs, Finset.mem_filter, Finset.mem_product]
  refine ⟨And.right, fun h => ⟨⟨?_, ?_⟩, h⟩⟩
  · exact mem_allNames_of_total_pos h.2 a (Sym2.mem_mk_left a b)
  · exact mem_allNames_of_total_pos h.2 b (Sym2.mem_mk_right a b)

/-- Reversed directions preserve classes and sums. -/
theorem exchange_same {calls exchanged : List Call} (h : List.Forall₂ Exchange calls exchanged) :
    allNames exchanged = allNames calls ∧ ∀ pair, total pair exchanged = total pair calls := by
  induction h with
  | nil => exact ⟨rfl, fun _ => rfl⟩
  | @cons call other _ _ hcall _ ih =>
    have hnames : ∀ name, name ∈ other.names ↔ name ∈ call.names := by
      cases hcall with
      | refl => exact fun _ => Iff.rfl
      | relate a b kind => intro name; simp [names, or_comm]
      | addFact a b kind => intro name; simp [names, or_comm]
    have hunits : ∀ pair, other.units pair = call.units pair := by
      intro pair
      cases hcall with
      | refl => rfl
      | relate a b kind => rw [units, units, Sym2.eq_swap]
      | addFact a b kind => simp only [units, Sym2.eq_swap]
    refine ⟨?_, fun pair => ?_⟩
    · ext name
      have := congrArg (name ∈ ·) ih.1
      simp only [allNames, List.mem_toFinset, eq_iff_iff] at this ⊢
      rw [List.flatMap_cons, List.flatMap_cons, List.mem_append, List.mem_append, hnames, this]
    · have := ih.2 pair
      rw [total, total] at this ⊢
      rw [List.map_cons, List.map_cons, List.sum_cons, List.sum_cons, hunits, this]

/-- Permuted calls preserve classes and sums. -/
theorem perm_same {calls order : List Call} (h : calls.Perm order) :
    allNames order = allNames calls ∧ ∀ pair, total pair order = total pair calls :=
  ⟨(List.toFinset_eq_of_perm _ _ (h.flatMap_right names)).symm,
    fun pair => ((h.map (units pair)).sum_eq).symm⟩

end Call

namespace Graph

variable {α : Type} [Zero α] {originOf : String → Origin}

/-! ### Effect of a call -/

/-- `relate` records its endpoints and its share. -/
theorem Records.relate {names : Finset String} {shares : List Share} {g : Graph α}
    (h : Records originOf names shares g) (a b : String) (kind : RelationKind) :
    Records originOf (names ∪ {a, b}) (shares ++ Share.ofRelation a b kind)
      (g.relate originOf a b kind) := by
  by_cases hself : a = b
  · subst hself
    have hnames : names ∪ {a, a} = insert a names := by
      ext name
      simp
    rw [relate_self, hnames, Share.ofRelation, if_pos (Or.inl rfl), List.append_nil]
    exact h.ensure a
  · have hnames : names ∪ {a, b} = insert b (insert a names) := by
      ext name
      simp only [Finset.mem_union, Finset.mem_insert, Finset.mem_singleton]
      tauto
    have hboth := (h.ensure a).ensure b
    rw [relate_of_ne _ hself, hnames, Share.ofRelation]
    by_cases hzero : kind.weight = 0
    · rw [if_pos hzero, if_pos (Or.inr hzero), List.append_nil]
      exact hboth
    · rw [if_neg hzero, if_neg (not_or.mpr ⟨hself, hzero⟩), ← orient_pair a b]
      obtain ⟨howner, hpartner⟩ := isSome_find?_orient originOf a b g
      exact hboth.strengthen ((hboth.isSome_find? _).mp howner) ((hboth.isSome_find? _).mp hpartner)
        (orient_lt hself) (Nat.pos_of_ne_zero hzero)

/-- A call records its classes and shares. -/
theorem Records.perform {names : Finset String} {shares : List Share} {g : Graph α}
    (h : Records originOf names shares g) (call : Call) :
    Records originOf (names ∪ call.names.toFinset) (shares ++ call.shares)
      (call.perform originOf g) := by
  cases call with
  | ensure name =>
    have hnames : names ∪ (Call.ensure name).names.toFinset = insert name names := by
      rw [Call.names, List.toFinset_cons, List.toFinset_nil, Finset.insert_empty,
        Finset.union_comm, Finset.insert_eq]
    rw [hnames, Call.shares, List.append_nil]
    exact h.ensure name
  | relate a b kind =>
    have hnames : (Call.relate a b kind).names.toFinset = {a, b} := by simp [Call.names]
    rw [hnames]
    exact h.relate a b kind
  | addFact fact =>
    have hnames : (Call.addFact fact).names.toFinset = {fact.source, fact.target} := by
      simp [Call.names]
    rw [hnames]
    exact h.relate fact.source fact.target fact.kind

/-- Calls record their classes and shares in order. -/
theorem Records.foldl_perform {names : Finset String} {shares : List Share} {g : Graph α}
    (h : Records originOf names shares g) (calls : List Call) :
    Records originOf (names ∪ Call.allNames calls) (shares ++ calls.flatMap Call.shares)
      (calls.foldl (Call.perform originOf) g) := by
  -- The earlier calls have created the record; the next one appends to it.
  induction calls generalizing names shares g with
  | nil => simpa [Call.allNames] using h
  | cons call calls ih =>
    have hnames : names ∪ Call.allNames (call :: calls) =
        names ∪ call.names.toFinset ∪ Call.allNames calls := by
      rw [Call.allNames, List.flatMap_cons, List.toFinset_append, Finset.union_assoc]
      rfl
    rw [List.foldl_cons, hnames, List.flatMap_cons, ← List.append_assoc]
    exact ih (h.perform call)

/-- The graph built by calls records their classes and shares. -/
theorem records_performAll (calls : List Call) :
    Records originOf (Call.allNames calls) (calls.flatMap Call.shares)
      (Call.performAll (α := α) originOf calls) := by
  have hempty : Records originOf ∅ [] (empty : Graph α) := records_empty
  have h := hempty.foldl_perform calls
  rwa [Finset.empty_union, List.nil_append] at h

/-- The accumulated shares of a pair equal its sum while that is exact. -/
theorem accumulate_between {pair : Sym2 String} (hpair : ¬ pair.IsDiag) {calls : List Call}
    {arrived : List Share} (harrived : arrived.Perm (calls.flatMap Call.shares))
    (hexact : Call.total pair calls ≤ 2 ^ 24) :
    Weight.accumulate (Share.between pair arrived) =
      if 0 < Call.total pair calls then some ⟨Call.total pair calls⟩ else none := by
  have hperm := Share.between_perm pair harrived
  have hsum : (Share.between pair arrived).sum = Call.total pair calls := by
    rw [Call.total_eq_sum hpair, hperm.sum_eq]
  by_cases hnone : Share.between pair arrived = []
  · rw [hnone] at hsum ⊢
    rw [← hsum]
    rfl
  · obtain ⟨units, hunits⟩ := List.exists_mem_of_ne_nil _ hnone
    have hrecords : Records (fun _ => .unknown) (Call.allNames calls) (calls.flatMap Call.shares)
      (Call.performAll (α := Nat) (fun _ => .unknown) calls) := records_performAll calls
    have hpos : 0 < units := hrecords.between_pos pair units (hperm.mem_iff.mp hunits)
    have htotal : 0 < Call.total pair calls := by
      have := List.le_sum_of_mem hunits
      omega
    rw [if_pos htotal, Weight.accumulate_of_sum_le hnone (by omega), hsum]

/-- Graphs with the same recorded classes and permuted shares coincide while sums are exact. -/
theorem Records.eq_performAll {names : Finset String} {arrived : List Share} {g : Graph α}
    {calls : List Call} (h : Records originOf names arrived g)
    (hnames : Call.allNames calls = names) (harrived : arrived.Perm (calls.flatMap Call.shares))
    (hexact : ∀ a b, a ≠ b → Call.total s(a, b) calls ≤ 2 ^ 24) :
    g = Call.performAll originOf calls := by
  subst hnames
  apply h.ext (records_performAll calls)
  intro a b hlt
  have hpair : ¬ s(a, b).IsDiag := Sym2.mk_isDiag_iff.not.mpr (ne_of_lt hlt)
  rw [accumulate_between hpair harrived (hexact a b (ne_of_lt hlt)),
    accumulate_between hpair (List.Perm.refl _) (hexact a b (ne_of_lt hlt))]

/-- The shape of the graph is invariant under permutation of the calls. -/
theorem performAll_sameShape {calls order : List Call} (h : order.Perm calls) :
    (Call.performAll (α := α) originOf order).SameShape (Call.performAll originOf calls) := by
  have horder : Records originOf (Call.allNames calls) (order.flatMap Call.shares)
      (Call.performAll (α := α) originOf order) := by
    rw [(Call.perm_same h).1]
    exact records_performAll order
  exact horder.sameShape (records_performAll calls) (h.flatMap_right Call.shares)

/-- The graph is invariant under permutation of the calls while sums are exact. -/
theorem performAll_perm {calls order : List Call} (h : order.Perm calls)
    (hexact : ∀ a b, a ≠ b → Call.total s(a, b) calls ≤ 2 ^ 24) :
    Call.performAll (α := α) originOf order = Call.performAll originOf calls :=
  (records_performAll order).eq_performAll (Call.perm_same h).1 (h.flatMap_right Call.shares) hexact

/-! ### Origins -/

variable {originOf' : String → Origin}

private theorem ensure_congr {name : String} (h : originOf name = originOf' name) (g : Graph α) :
    g.ensure originOf name = g.ensure originOf' name := by
  rw [ensure, ensure, h]

private theorem relate_congr {a b : String} (ha : originOf a = originOf' a)
    (hb : originOf b = originOf' b)
    (kind : RelationKind) (g : Graph α) :
    g.relate originOf a b kind = g.relate originOf' a b kind := by
  simp only [relate, ensure_congr ha, ensure_congr hb]

/-- The graph depends on the origins of named classes only. -/
theorem performAll_congr {calls : List Call}
    (h : ∀ name ∈ Call.allNames calls, originOf name = originOf' name) :
    Call.performAll (α := α) originOf calls = Call.performAll originOf' calls := by
  apply List.foldl_ext
  intro g call hcall
  have hnames : ∀ name ∈ call.names, originOf name = originOf' name := fun name hname =>
    h name (List.mem_toFinset.mpr (List.mem_flatMap.mpr ⟨call, hcall, hname⟩))
  cases call with
  | ensure name => exact ensure_congr (hnames name (by simp [Call.names])) g
  | relate a b kind =>
    exact relate_congr (hnames a (by simp [Call.names])) (hnames b (by simp [Call.names])) kind g
  | addFact fact =>
    exact relate_congr (hnames fact.source (by simp [Call.names]))
      (hnames fact.target (by simp [Call.names])) fact.kind g

/-! ### Observations -/

/-- Observations of a graph against its calls: nodes are the named classes, the symmetric lookup
returns the sum of a pair of distinct classes and zero otherwise, the edge listing is strictly
sorted, holds the positive sums and is independent of the node order, and the counts are exact. -/
structure Shows (calls : List Call) (g : Graph α) : Prop where
  isSome_find? (name : String) : (g.find? name).isSome ↔ name ∈ Call.allNames calls
  attraction_comm (a b : String) : g.attraction a b = g.attraction b a
  attraction {a b : String} : a ≠ b → g.attraction a b = ⟨Call.total s(a, b) calls⟩
  attraction_self (a : String) : g.attraction a a = 0
  attraction_absent {a b : String} :
    a ∉ Call.allNames calls ∨ b ∉ Call.allNames calls → g.attraction a b = 0
  mem_edges {e : Edge} : e ∈ g.edges ↔
    e.a < e.b ∧ 0 < Call.total s(e.a, e.b) calls ∧ e.weight = ⟨Call.total s(e.a, e.b) calls⟩
  edges_precede : g.edges.Pairwise Edge.Precedes
  edgesOf_perm {listing : List (Node α)} : listing.Perm g.nodeList → edgesOf listing = g.edges
  nodeCount : g.nodeCount = (Call.allNames calls).card
  edgeCount : g.edgeCount = (Call.relatedPairs calls).card

/-- Stored weights are the positive sums. -/
theorem weight?_performAll {calls : List Call} {a b : String}
    (hexact : ∀ a b, a ≠ b → Call.total s(a, b) calls ≤ 2 ^ 24) :
    (Call.performAll (α := α) originOf calls).weight? a b =
      if a < b ∧ 0 < Call.total s(a, b) calls then some ⟨Call.total s(a, b) calls⟩ else none := by
  rw [(records_performAll calls).weight?]
  by_cases hlt : a < b
  · have hpair : ¬ s(a, b).IsDiag := Sym2.mk_isDiag_iff.not.mpr (ne_of_lt hlt)
    rw [if_pos hlt, accumulate_between hpair (List.Perm.refl _) (hexact a b (ne_of_lt hlt))]
    by_cases htotal : 0 < Call.total s(a, b) calls
    · rw [if_pos htotal, if_pos ⟨hlt, htotal⟩]
    · rw [if_neg htotal, if_neg fun h => htotal h.2]
  · rw [if_neg hlt, if_neg fun h => hlt h.1]

/-- The symmetric lookup returns the sum of a pair of distinct classes. -/
theorem attraction_performAll {calls : List Call} {a b : String} (hne : a ≠ b)
    (hexact : ∀ a b, a ≠ b → Call.total s(a, b) calls ≤ 2 ^ 24) :
    (Call.performAll (α := α) originOf calls).attraction a b = ⟨Call.total s(a, b) calls⟩ := by
  wlog hlt : a < b generalizing a b
  · rw [Graph.attraction_comm, Sym2.eq_swap]
    exact this hne.symm (lt_of_le_of_ne (not_lt.mp hlt) hne.symm)
  · rw [attraction_eq, if_pos (le_of_lt hlt), weight?_performAll hexact]
    by_cases htotal : 0 < Call.total s(a, b) calls
    · rw [if_pos ⟨hlt, htotal⟩]
      rfl
    · rw [if_neg fun h => htotal h.2, Nat.eq_zero_of_not_pos htotal]
      rfl

/-- The edge listing holds the positive sums. -/
theorem mem_edges_performAll {calls : List Call} {e : Edge}
    (hexact : ∀ a b, a ≠ b → Call.total s(a, b) calls ≤ 2 ^ 24) :
    e ∈ (Call.performAll (α := α) originOf calls).edges ↔
      e.a < e.b ∧ 0 < Call.total s(e.a, e.b) calls ∧
        e.weight = ⟨Call.total s(e.a, e.b) calls⟩ := by
  rw [(records_performAll calls).isWellFormed.mem_edges, weight?_performAll hexact]
  by_cases h : e.a < e.b ∧ 0 < Call.total s(e.a, e.b) calls
  · rw [if_pos h, Option.some_inj]
    exact ⟨fun heq => ⟨h.1, h.2, heq.symm⟩, fun heq => heq.2.2.symm⟩
  · rw [if_neg h]
    exact ⟨fun heq => (Option.some_ne_none _ heq.symm).elim, fun heq => (h ⟨heq.1, heq.2.1⟩).elim⟩

/-- The number of edges is the number of related pairs. -/
theorem edgeCount_performAll {calls : List Call}
    (hexact : ∀ a b, a ≠ b → Call.total s(a, b) calls ≤ 2 ^ 24) :
    (Call.performAll (α := α) originOf calls).edgeCount = (Call.relatedPairs calls).card := by
  have hwf : (Call.performAll (α := α) originOf calls).IsWellFormed originOf :=
    (records_performAll calls).isWellFormed
  have hnodup :
      ((Call.performAll (α := α) originOf calls).edges.map fun e => (e.a, e.b)).Nodup := by
    rw [List.Nodup, List.pairwise_map]
    refine (edgesOf_precedes hwf.identity_ne).imp ?_
    intro e f hprecedes heq
    obtain ⟨ha, hb⟩ := Prod.mk.inj heq
    exact hprecedes.asymm (by
      rw [Edge.Precedes, ← ha, ← hb]
      rw [Edge.Precedes, ← ha, ← hb] at hprecedes
      exact hprecedes)
  have hpairs : ((Call.performAll (α := α) originOf calls).edges.map
      fun e => (e.a, e.b)).toFinset = Call.relatedPairs calls := by
    ext ⟨a, b⟩
    rw [List.mem_toFinset, List.mem_map, Call.mem_relatedPairs]
    constructor
    · rintro ⟨e, he, heq⟩
      cases heq
      obtain ⟨hlt, htotal, -⟩ := (mem_edges_performAll hexact).mp he
      exact ⟨hlt, htotal⟩
    · rintro ⟨hlt, htotal⟩
      exact ⟨⟨a, b, ⟨Call.total s(a, b) calls⟩⟩,
        (mem_edges_performAll hexact).mpr ⟨hlt, htotal, rfl⟩, rfl⟩
  rw [edgeCount_eq_length, ← hpairs, List.toFinset_card_of_nodup hnodup, List.length_map]

/-- Observations of the graph built by calls with exact sums. -/
theorem shows_of_exact {calls : List Call}
    (hexact : ∀ a b, a ≠ b → Call.total s(a, b) calls ≤ 2 ^ 24) :
    (Call.performAll (α := α) originOf calls).Shows calls := by
  have hrecords : Records originOf (Call.allNames calls) (calls.flatMap Call.shares)
    (Call.performAll (α := α) originOf calls) := records_performAll calls
  have hwf := hrecords.isWellFormed
  exact {
    isSome_find? := hrecords.isSome_find?
    attraction_comm := Graph.attraction_comm _
    attraction := fun hne => attraction_performAll hne hexact
    attraction_self := hwf.attraction_self
    attraction_absent := fun {a b} habsent => by
      by_cases hne : a = b
      · subst hne
        exact hwf.attraction_self a
      · rw [attraction_performAll hne hexact]
        by_contra hpos
        have htotal : 0 < Call.total s(a, b) calls :=
          Nat.pos_of_ne_zero fun hzero => hpos (by rw [hzero]; rfl)
        have hnamed := Call.mem_allNames_of_total_pos htotal
        rcases habsent with ha | hb
        · exact ha (hnamed a (Sym2.mem_mk_left a b))
        · exact hb (hnamed b (Sym2.mem_mk_right a b))
    mem_edges := mem_edges_performAll hexact
    edges_precede := edgesOf_precedes hwf.identity_ne
    edgesOf_perm := fun hperm =>
      Graph.edgesOf_perm hperm (hperm.symm.pairwise hwf.identity_ne fun hne => hne.symm)
    nodeCount := nodeCount_eq_card hrecords.isSome_find?
    edgeCount := edgeCount_performAll hexact }

/-- If no sum of two distinct classes exceeds `2 ^ 24`, the graph built by calls satisfies `Shows`
and is invariant under permutation of the calls and reversal of their directions. -/
theorem performAll_shows {calls : List Call}
    (hexact : ∀ a b, a ≠ b → Call.total s(a, b) calls ≤ 2 ^ 24) :
    (Call.performAll (α := α) originOf calls).Shows calls ∧
      ∀ exchanged order : List Call, List.Forall₂ Call.Exchange calls exchanged →
        exchanged.Perm order →
        Call.performAll (α := α) originOf order = Call.performAll originOf calls := by
  refine ⟨shows_of_exact hexact, fun exchanged order hexchange hperm => ?_⟩
  obtain ⟨hnames, htotal⟩ := Call.exchange_same hexchange
  obtain ⟨hnames', htotal'⟩ := Call.perm_same hperm
  apply (records_performAll order).ext
  · rw [hnames', hnames]
    exact records_performAll calls
  · intro a b hlt
    have hne := ne_of_lt hlt
    have hpair : ¬ s(a, b).IsDiag := Sym2.mk_isDiag_iff.not.mpr hne
    have hsame : Call.total s(a, b) order = Call.total s(a, b) calls := by rw [htotal', htotal]
    rw [accumulate_between hpair (List.Perm.refl _) (hsame ▸ hexact a b hne),
      accumulate_between hpair (List.Perm.refl _) (hexact a b hne), hsame]

/-- Facts in both directions accumulate, and facts of a class about itself store nothing. -/
theorem performAll_shows_both_directions :
    let calls : List Call := [.ensure "D", .addFact ⟨"B", "A", .inheritance⟩,
      .relate "A" "B" .fieldContainment, .relate "C" "C" .inheritance, .relate "A" "D" .unknown]
    let order : List Call := [.relate "D" "A" .unknown, .relate "C" "C" .inheritance,
      .relate "B" "A" .fieldContainment, .addFact ⟨"A", "B", .inheritance⟩, .ensure "D"]
    let g : Graph Float32 := Call.performAll (fun _ => .unknown) calls
    g.attraction "B" "A" = ⟨5⟩ ∧ g.attraction "C" "C" = 0 ∧ g.nodeCount = 4 ∧
      Call.performAll (fun _ => .unknown) order = g := by
  intro calls order g
  have hexact : ∀ a b, a ≠ b → Call.total s(a, b) calls ≤ 2 ^ 24 := by
    intro a b _
    simp only [calls, Call.total, Call.units, List.map_cons, List.map_nil, List.sum_cons,
      List.sum_nil]
    split_ifs <;> decide
  obtain ⟨hshows, hsame⟩ := @performAll_shows Float32 _ (fun _ => .unknown) calls hexact
  have hexchange : List.Forall₂ Call.Exchange calls order.reverse :=
    .cons (.refl _) (.cons (.addFact _ _ _) (.cons (.relate _ _ _) (.cons (.relate _ _ _)
      (.cons (.relate _ _ _) .nil))))
  refine ⟨?_, hshows.attraction_self "C", ?_, hsame _ order hexchange (List.reverse_perm order)⟩
  · rw [hshows.attraction (by decide)]
    decide
  · rw [hshows.nodeCount]
    decide

end Graph

end ClassAtlas
