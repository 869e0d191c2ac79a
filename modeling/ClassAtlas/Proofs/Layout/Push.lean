import ClassAtlas.Graph.Change
import ClassAtlas.Proofs.Graph.Views
import ClassAtlas.Proofs.Layout.Arithmetic
import Mathlib

/-!
# Pushes of a tick

Both passes of a tick reduce to a list of pushes of node pairs, which is determined by the graph and
separated here from its accumulation. No pass pushes a pair twice: the repulsion pass visits it in
the row of its first node, the attraction pass where its weight is stored. Specification:
`SPEC_FULL.md` §4.4, lines 55–60, §5, line 66, and §10.7, lines 189–191.
-/

namespace ClassAtlas

/-! ### Related classes -/

namespace Graph

variable {α : Type} {originOf : String → Origin} {g : Graph α}

/-- A relationship between two classes is stored. -/
def IsRelated (g : Graph α) (a b : String) : Prop := ∃ e ∈ g.edges, s(e.a, e.b) = s(a, b)

/-- Being related is decidable. -/
instance (g : Graph α) (a b : String) : Decidable (g.IsRelated a b) :=
  inferInstanceAs (Decidable (∃ e ∈ g.edges, s(e.a, e.b) = s(a, b)))

/-- Being related is symmetric. -/
theorem isRelated_comm (g : Graph α) (a b : String) : g.IsRelated a b ↔ g.IsRelated b a := by
  rw [IsRelated, IsRelated, Sym2.eq_swap]

/-- The weight of an ordered pair is that of its edge. -/
theorem IsWellFormed.attraction_of_pair (h : g.IsWellFormed originOf) {e : Edge} (he : e ∈ g.edges)
    {a b : String} (hpair : s(e.a, e.b) = s(a, b)) : g.attraction a b = e.weight := by
  rcases Sym2.eq_iff.mp hpair with ⟨rfl, rfl⟩ | ⟨rfl, rfl⟩
  · exact h.attraction_of_mem_edges he
  · exact (g.attraction_comm _ _).trans (h.attraction_of_mem_edges he)

/-- Two classes have a weight if and only if they are related. -/
theorem IsWellFormed.units_attraction_ne_zero_iff (h : g.IsWellFormed originOf) (a b : String) :
    (g.attraction a b).units ≠ 0 ↔ g.IsRelated a b := by
  constructor
  · intro hunits
    by_contra hnone
    have hpairs : ∀ e ∈ g.edges, s(e.a, e.b) ≠ s(a, b) := fun e he hpair => hnone ⟨e, he, hpair⟩
    exact hunits (by rw [h.attraction_of_unlisted hpairs, Weight.units_zero])
  · rintro ⟨e, he, hpair⟩
    rw [h.attraction_of_pair he hpair]
    exact Nat.ne_of_gt (h.weight (h.mem_edges.mp he)).2.1

/-- The endpoints of an edge are distinct. -/
theorem IsWellFormed.ne_of_mem_edges (h : g.IsWellFormed originOf) {e : Edge} (he : e ∈ g.edges) :
    e.a ≠ e.b :=
  ne_of_lt (h.weight (h.mem_edges.mp he)).1

/-- Listed nodes with equal identities are equal. -/
theorem eq_of_identity_eq {a b : Node α} (ha : g.find? a.identity = some a)
    (hb : g.find? b.identity = some b) (h : a.identity = b.identity) : a = b := by
  rw [h, hb] at ha
  exact (Option.some.inj ha).symm

/-- The nodes of a listing have distinct identities. -/
theorem IsWellFormed.nodup_identity (h : g.IsWellFormed originOf) {listing : List (Node α)}
    (hlisting : listing.Perm g.nodeList) : (listing.map (·.identity)).Nodup :=
  List.pairwise_map.mpr (hlisting.symm.pairwise h.identity_ne fun hne => hne.symm)

/-- Listed nodes are stored under their identities. -/
theorem IsWellFormed.mem_listing (h : g.IsWellFormed originOf) {listing : List (Node α)}
    (hlisting : listing.Perm g.nodeList) {node : Node α} :
    node ∈ listing ↔ g.find? node.identity = some node := by
  rw [hlisting.mem_iff, ← h.snapshot_eq, h.mem_snapshot]

/-- Nodes other than a given one. -/
def others (g : Graph α) (v : Node α) : List (Node α) :=
  g.nodeList.filter fun other => other.identity ≠ v.identity

/-- Other nodes have other identities. -/
theorem IsWellFormed.mem_others (h : g.IsWellFormed originOf) {v other : Node α} :
    other ∈ g.others v ↔ g.find? other.identity = some other ∧ other.identity ≠ v.identity := by
  rw [others, List.mem_filter, h.mem_listing (.refl _), decide_eq_true_eq]

/-- Other nodes have distinct identities. -/
theorem IsWellFormed.nodup_others (h : g.IsWellFormed originOf) (v : Node α) :
    ((g.others v).map (·.identity)).Nodup :=
  (h.nodup_identity (.refl _)).sublist (List.filter_sublist.map _)

/-- The edges of a listing are those of the graph. -/
theorem IsWellFormed.mem_flatMap_edges (h : g.IsWellFormed originOf) {listing : List (Node α)}
    (hlisting : listing.Perm g.nodeList) {e : Edge} :
    e ∈ listing.flatMap Node.edges ↔ e ∈ g.edges := by
  rw [h.edges_eq]
  exact (hlisting.flatMap_right _).mem_iff

/-- Both endpoints of an edge have nodes. -/
theorem IsWellFormed.exists_nodes (h : g.IsWellFormed originOf) {e : Edge} (he : e ∈ g.edges) :
    ∃ a b, g.find? e.a = some a ∧ g.find? e.b = some b := by
  have hweight := h.mem_edges.mp he
  obtain ⟨a, ha⟩ := Option.isSome_iff_exists.mp (isSome_find?_of_weight? hweight)
  obtain ⟨b, hb⟩ := Option.isSome_iff_exists.mp (h.weight hweight).2.2
  exact ⟨a, b, ha, hb⟩

end Graph

namespace Layout

/-! ### Pairs -/

section Pairs

variable {β γ : Type}

/-- Pairs of a list, the earlier element first. -/
def pairs (items : List β) : List (β × β) := (rows items).flatMap fun row => row.2.map (row.1, ·)

/-- Pairs of a list with a first element. -/
theorem pairs_cons (first : β) (rest : List β) :
    pairs (first :: rest) = rest.map (first, ·) ++ pairs rest := rfl

/-- The elements of a pair are distinct members of the list. -/
theorem mem_of_mem_pairs {name : β → γ} {items : List β} (h : (items.map name).Nodup) {a b : β}
    (hpair : (a, b) ∈ pairs items) : a ∈ items ∧ b ∈ items ∧ name a ≠ name b := by
  induction items with
  | nil => cases hpair
  | cons first rest ih =>
    obtain ⟨hfirst, hrest⟩ := List.nodup_cons.mp h
    rw [pairs_cons, List.mem_append, List.mem_map] at hpair
    rcases hpair with ⟨other, hother, heq⟩ | hpair
    · obtain ⟨rfl, rfl⟩ := Prod.mk.injEq .. ▸ heq
      refine ⟨List.mem_cons_self, List.mem_cons_of_mem _ hother, fun hname => hfirst ?_⟩
      exact hname ▸ List.mem_map_of_mem hother
    · obtain ⟨ha, hb, hne⟩ := ih hrest hpair
      exact ⟨List.mem_cons_of_mem _ ha, List.mem_cons_of_mem _ hb, hne⟩

/-- Two distinct members form a pair in one order. -/
theorem mem_pairs_or {items : List β} {a b : β} (ha : a ∈ items) (hb : b ∈ items) (hne : a ≠ b) :
    (a, b) ∈ pairs items ∨ (b, a) ∈ pairs items := by
  induction items with
  | nil => cases ha
  | cons first rest ih =>
    simp only [pairs_cons, List.mem_append, List.mem_map, Prod.mk.injEq]
    rcases List.mem_cons.mp ha with rfl | ha'
    · rcases List.mem_cons.mp hb with rfl | hb'
      · exact absurd rfl hne
      · exact .inl (.inl ⟨b, hb', rfl, rfl⟩)
    · rcases List.mem_cons.mp hb with rfl | hb'
      · exact .inr (.inl ⟨a, ha', rfl, rfl⟩)
      · exact (ih ha' hb').imp .inr .inr

/-- Pairs of a list without repetitions are distinct as unordered pairs. -/
theorem pairs_distinct {name : β → γ} {items : List β} (h : (items.map name).Nodup) :
    (pairs items).Pairwise fun p q => s(name p.1, name p.2) ≠ s(name q.1, name q.2) := by
  induction items with
  | nil => exact .nil
  | cons first rest ih =>
    obtain ⟨hfirst, hrest⟩ := List.nodup_cons.mp h
    rw [pairs_cons, List.pairwise_append]
    refine ⟨?_, ih hrest, ?_⟩
    · rw [List.pairwise_map]
      refine (List.pairwise_map.mp hrest).imp fun hne heq => hne ?_
      exact Sym2.congr_right.mp heq
    · rintro p hp ⟨a, b⟩ hq heq
      obtain ⟨other, -, rfl⟩ := List.mem_map.mp hp
      obtain ⟨ha, hb, -⟩ := mem_of_mem_pairs hrest hq
      rcases Sym2.eq_iff.mp heq with ⟨hname, -⟩ | ⟨hname, -⟩
      · exact hfirst (hname ▸ List.mem_map_of_mem ha)
      · exact hfirst (hname ▸ List.mem_map_of_mem hb)

end Pairs

/-! ### Partitions -/

namespace Split

variable {β γ δ : Type} {step : δ → β → δ} {nothing : δ} {add : δ → δ → δ}

/-- Collecting commutes with a map of the items. -/
theorem collect_map (split : Split) (prepare : γ → β) (items : List γ) :
    split.collect step nothing add (items.map prepare) =
      split.collect (fun found item => step found (prepare item)) nothing add items := by
  induction split generalizing items with
  | whole => exact List.foldl_map
  | divide count first second hfirst hsecond =>
    rw [collect, collect, ← List.map_take, ← List.map_drop, hfirst, hsecond]

/-- Induction principle of `Split.collect`. -/
theorem collect_induction {P : δ → Prop} (hnothing : P nothing) (split : Split) {items : List β}
    (hstep : ∀ found, ∀ item ∈ items, P found → P (step found item))
    (hadd : ∀ found more, P found → P more → P (add found more)) :
    P (split.collect step nothing add items) := by
  induction split generalizing items with
  | whole =>
    refine List.foldlRecOn items step hnothing fun found hfound item hitem => ?_
    exact hstep found item hitem hfound
  | divide count first second hfirst hsecond =>
    refine hadd _ _ (hfirst fun found item hitem => ?_) (hsecond fun found item hitem => ?_)
    · exact hstep found item (List.mem_of_mem_take hitem)
    · exact hstep found item (List.mem_of_mem_drop hitem)

/-- Collected contributions add up, independently of the partition. -/
theorem collect_sum {M : Type} [AddMonoid M] (value : δ → M) {share : β → M}
    (hnothing : value nothing = 0)
    (hstep : ∀ found item, value (step found item) = value found + share item)
    (hadd : ∀ found more, value (add found more) = value found + value more) (split : Split)
    (items : List β) : value (split.collect step nothing add items) = (items.map share).sum := by
  induction split generalizing items with
  | whole =>
    have hfold : ∀ found, value (items.foldl step found) = value found + (items.map share).sum := by
      induction items with
      | nil => simp
      | cons item items ih => simp [ih, hstep, add_assoc]
    rw [collect, hfold, hnothing, zero_add]
  | divide count first second hfirst hsecond =>
    rw [collect, hadd, hfirst, hsecond, ← List.sum_append, ← List.map_append,
      List.take_append_drop]

end Split

/-! ### Pushes -/

/-- Push of `a` along a direction and of `b` against it; a negative step contracts the pair. -/
structure Push (α : Type) where
  a : String
  b : String
  direction : Vec3 α
  step : α

variable {α : Type} [Scalar α]

namespace Push

/-- Unordered pair of a push. -/
def pair (p : Push α) : Sym2 String := s(p.a, p.b)

/-- Accumulate a push. -/
def perform (moves : Displacements α) (p : Push α) : Displacements α :=
  push p.a p.b p.direction p.step moves

/-- Accumulate a list of pushes in order. -/
def performAll (moves : Displacements α) (pushes : List (Push α)) : Displacements α :=
  pushes.foldl perform moves

/-- Push of two nodes along their separation. -/
def between (directions : Directions α) (a b : Node α) (step : α) : Push α :=
  { a := a.identity
    b := b.identity
    direction :=
      (separation (directions a.identity b.identity) a.position b.position).direction
    step }

end Push

/-- Distance of two nodes. -/
def spacing (a b : Node α) : α := (separation 0 a.position b.position).distance

/-- The distance is symmetric. -/
theorem spacing_comm [LawfulScalar α] (a b : Node α) : spacing a b = spacing b a :=
  distance_separation_comm ..

/-- Repulsion step of two nodes. -/
def repulsionOf (g : Graph α) (a b : Node α) : α :=
  repulsionStep (decide (g.IsRelated a.identity b.identity)) (spacing a b)

/-- Attraction step of two nodes with a weight. -/
def attractionOf (weight : Weight) (a b : Node α) : α :=
  attractionStep (whole weight.units) (spacing a b)

/-- Repulsive push of two nodes, if their step is positive. -/
def repulsion? (g : Graph α) (directions : Directions α) (a b : Node α) : Option (Push α) :=
  if Scalar.less 0 (repulsionOf g a b) then some (.between directions a b (repulsionOf g a b))
  else none

/-- Repulsive pushes of a row. -/
def rowPushes (g : Graph α) (directions : Directions α) (row : Node α × List (Node α)) :
    List (Push α) :=
  row.2.filterMap (repulsion? g directions row.1)

/-- Pushes of the repulsion pass. -/
def repulsions (g : Graph α) (directions : Directions α) (listing : List (Node α)) :
    List (Push α) :=
  (rows listing).flatMap (rowPushes g directions)

/-- Attractive push of a stored relationship, if its nodes are beyond the threshold. -/
def attraction? (g : Graph α) (directions : Directions α) (e : Edge) : Option (Push α) :=
  (g.find? e.a).bind fun a => (g.find? e.b).bind fun b =>
    if Scalar.less attractionThreshold (spacing a b) then
      some (.between directions a b (-attractionOf e.weight a b))
    else none

/-- Pushes of the attraction pass. -/
def attractions (g : Graph α) (directions : Directions α) (listing : List (Node α)) :
    List (Push α) :=
  (listing.flatMap Node.edges).filterMap (attraction? g directions)

/-! ### The passes -/

variable {g : Graph α} {originOf : String → Origin} {directions : Directions α}

/-- The distance is independent of the substituted direction. -/
theorem distance_eq_spacing (a b : Node α) :
    (separation (directions a.identity b.identity) a.position b.position).distance =
      spacing a b := by
  rw [spacing, separation_eq, separation_eq]
  split <;> rfl

/-- Accumulation of a concatenation. -/
theorem Push.performAll_append (moves : Displacements α) (pushes more : List (Push α)) :
    performAll moves (pushes ++ more) = performAll (performAll moves pushes) more :=
  List.foldl_append

/-- A fold over optional pushes accumulates those present. -/
theorem foldl_performAll {β : Type} (push? : β → Option (Push α)) (items : List β)
    (moves : Displacements α) :
    items.foldl (fun moves item => Push.performAll moves (push? item).toList) moves =
      Push.performAll moves (items.filterMap push?) := by
  induction items generalizing moves with
  | nil => rfl
  | cons item items ih =>
    rw [List.foldl_cons, ih, List.filterMap_cons]
    cases push? item <;> rfl

/-- `repel` accumulates the repulsive push. -/
theorem repel_eq (hg : g.IsWellFormed originOf) (a b : Node α) (moves : Displacements α) :
    repel g directions a b moves =
      Push.performAll moves (repulsion? g directions a b).toList := by
  have hrelated : decide ((g.attraction a.identity b.identity).units ≠ 0) =
      decide (g.IsRelated a.identity b.identity) :=
    decide_eq_decide.mpr (hg.units_attraction_ne_zero_iff _ _)
  simp only [repel, distance_eq_spacing, hrelated]
  rw [← repulsionOf, repulsion?]
  by_cases hless : Scalar.less 0 (repulsionOf g a b) = true
  · rw [if_pos hless, if_pos hless]
    rfl
  · rw [if_neg hless, if_neg hless]
    rfl

/-- The repulsion pass accumulates its pushes row by row. -/
theorem repulsion_eq (hg : g.IsWellFormed originOf) (split : Split) (listing : List (Node α)) :
    repulsion g directions split listing =
      split.collect Push.performAll ∅ merge ((rows listing).map (rowPushes g directions)) := by
  have hrow : repelRow g directions = fun moves row =>
      Push.performAll moves (rowPushes g directions row) := by
    funext moves row
    simp only [repelRow, repel_eq hg, foldl_performAll, rowPushes]
  rw [repulsion, hrow, Split.collect_map]

/-- `attract` accumulates the attractive push. -/
theorem attract_eq {node : Node α} (hnode : g.find? node.identity = some node)
    (moves : Displacements α) (relation : String × Weight) :
    attract g directions node moves relation =
      Push.performAll moves
        (attraction? g directions ⟨node.identity, relation.1, relation.2⟩).toList := by
  rw [attract, attraction?, hnode]
  cases hpartner : g.find? relation.1 with
  | none => rfl
  | some partner =>
    simp only [Option.bind_some, distance_eq_spacing]
    by_cases hless : Scalar.less attractionThreshold (spacing node partner) = true
    · rw [if_pos hless, if_pos hless]
      rfl
    · rw [if_neg hless, if_neg hless]
      rfl

/-- The attraction pass accumulates its pushes. -/
theorem attraction_eq {listing : List (Node α)}
    (hlisting : ∀ node ∈ listing, g.find? node.identity = some node) (moves : Displacements α) :
    attraction g directions listing moves =
      Push.performAll moves (attractions g directions listing) := by
  induction listing generalizing moves with
  | nil => rfl
  | cons node rest ih =>
    have hnode : node.partners.toList.foldl (attract g directions node) moves =
        Push.performAll moves (node.edges.filterMap (attraction? g directions)) := by
      rw [Node.edges, ← foldl_performAll, List.foldl_map]
      congr 1
      funext moves relation
      exact attract_eq (hlisting node List.mem_cons_self) moves relation
    rw [attraction, List.foldl_cons, hnode, ← attraction,
      ih fun other hother => hlisting other (List.mem_cons_of_mem _ hother), attractions,
      attractions, List.flatMap_cons, List.filterMap_append, Push.performAll_append]

/-! ### Pushed pairs -/

/-- The repulsion step is symmetric. -/
theorem repulsionOf_comm [LawfulScalar α] (g : Graph α) (a b : Node α) :
    repulsionOf g a b = repulsionOf g b a := by
  have hrelated : decide (g.IsRelated a.identity b.identity) =
      decide (g.IsRelated b.identity a.identity) :=
    decide_eq_decide.mpr (g.isRelated_comm _ _)
  rw [repulsionOf, repulsionOf, hrelated, spacing_comm]

/-- Repulsive pushes have a positive step. -/
theorem repulsion?_eq_some_iff {a b : Node α} {p : Push α} :
    repulsion? g directions a b = some p ↔
      Scalar.less 0 (repulsionOf g a b) = true ∧
        p = .between directions a b (repulsionOf g a b) := by
  rw [repulsion?, Option.ite_none_right_eq_some, Option.some.injEq, eq_comm (a := p)]

/-- Attractive pushes have distances beyond the threshold. -/
theorem attraction?_eq_some_iff {e : Edge} {p : Push α} :
    attraction? g directions e = some p ↔ ∃ a b, g.find? e.a = some a ∧ g.find? e.b = some b ∧
      Scalar.less attractionThreshold (spacing a b) = true ∧
        p = .between directions a b (-attractionOf e.weight a b) := by
  simp only [attraction?, Option.bind_eq_some_iff, Option.ite_none_right_eq_some,
    Option.some.injEq, exists_and_left, eq_comm (a := p)]

/-- The repulsion pass visits the pairs of the listing. -/
theorem repulsions_eq (listing : List (Node α)) :
    repulsions g directions listing =
      (pairs listing).filterMap fun pair => repulsion? g directions pair.1 pair.2 := by
  rw [repulsions, pairs, List.filterMap_flatMap]
  congr 1
  funext row
  rw [rowPushes, List.filterMap_map]
  rfl

/-- Repulsive pushes are between listed nodes. -/
theorem mem_repulsions {listing : List (Node α)} {p : Push α} :
    p ∈ repulsions g directions listing ↔ ∃ a b, (a, b) ∈ pairs listing ∧
      Scalar.less 0 (repulsionOf g a b) = true ∧
        p = .between directions a b (repulsionOf g a b) := by
  simp only [repulsions_eq, List.mem_filterMap, Prod.exists, repulsion?_eq_some_iff]

/-- No pair is repelled twice. -/
theorem nodup_pair_repulsions {listing : List (Node α)}
    (hlisting : (listing.map (·.identity)).Nodup) :
    ((repulsions g directions listing).map Push.pair).Nodup := by
  rw [repulsions_eq, List.Nodup, List.pairwise_map, List.pairwise_filterMap]
  refine (pairs_distinct hlisting).imp fun hne p hp q hq => ?_
  obtain ⟨-, rfl⟩ := repulsion?_eq_some_iff.mp hp
  obtain ⟨-, rfl⟩ := repulsion?_eq_some_iff.mp hq
  exact hne

/-- Attractive pushes are along stored relationships. -/
theorem mem_attractions (hg : g.IsWellFormed originOf) {listing : List (Node α)}
    (hlisting : listing.Perm g.nodeList) {p : Push α} :
    p ∈ attractions g directions listing ↔ ∃ e ∈ g.edges, ∃ a b, g.find? e.a = some a ∧
      g.find? e.b = some b ∧ Scalar.less attractionThreshold (spacing a b) = true ∧
        p = .between directions a b (-attractionOf e.weight a b) := by
  simp only [attractions, List.mem_filterMap, hg.mem_flatMap_edges hlisting,
    attraction?_eq_some_iff]

/-- No pair is attracted twice. -/
theorem nodup_pair_attractions (hg : g.IsWellFormed originOf) {listing : List (Node α)}
    (hlisting : listing.Perm g.nodeList) :
    ((attractions g directions listing).map Push.pair).Nodup := by
  have hdistinct := Graph.flatMap_edges_ne (List.pairwise_map.mp (hg.nodup_identity hlisting))
  rw [attractions, List.Nodup, List.pairwise_map, List.pairwise_filterMap]
  refine hdistinct.imp_of_mem fun {e f} he hf hne p hp q hq hpair => hne ?_
  obtain ⟨a, b, ha, hb, -, rfl⟩ := attraction?_eq_some_iff.mp hp
  obtain ⟨c, d, hc, hd, -, rfl⟩ := attraction?_eq_some_iff.mp hq
  have hnames : s(e.a, e.b) = s(f.a, f.b) := by
    rw [← (hg.node ha).1, ← (hg.node hb).1, ← (hg.node hc).1, ← (hg.node hd).1]
    exact hpair
  rcases Sym2.eq_iff.mp hnames with heq | ⟨hab, hba⟩
  · exact heq
  · -- Both relations are stored on the class whose name comes first.
    have hlt := (hg.weight (hg.mem_edges.mp ((hg.mem_flatMap_edges hlisting).mp he))).1
    have hgt := (hg.weight (hg.mem_edges.mp ((hg.mem_flatMap_edges hlisting).mp hf))).1
    rw [hab, hba] at hlt
    exact absurd hgt (lt_asymm hlt)

/-- The repelled pairs are those with a positive step. -/
theorem pair_mem_repulsions [LawfulScalar α] (hg : g.IsWellFormed originOf)
    {listing : List (Node α)} (hlisting : listing.Perm g.nodeList) {pair : Sym2 String} :
    pair ∈ (repulsions g directions listing).map Push.pair ↔
      ∃ a b, g.find? a.identity = some a ∧ g.find? b.identity = some b ∧
        a.identity ≠ b.identity ∧ pair = s(a.identity, b.identity) ∧
        Scalar.less 0 (repulsionOf g a b) = true := by
  rw [List.mem_map]
  constructor
  · rintro ⟨p, hp, rfl⟩
    obtain ⟨a, b, hpair, hless, rfl⟩ := mem_repulsions.mp hp
    obtain ⟨ha, hb, hne⟩ := mem_of_mem_pairs (hg.nodup_identity hlisting) hpair
    exact ⟨a, b, (hg.mem_listing hlisting).mp ha, (hg.mem_listing hlisting).mp hb, hne, rfl, hless⟩
  · rintro ⟨a, b, ha, hb, hne, rfl, hless⟩
    rw [← hg.mem_listing hlisting] at ha hb
    rcases mem_pairs_or ha hb (fun heq => hne (heq ▸ rfl)) with hpair | hpair
    · exact ⟨_, mem_repulsions.mpr ⟨a, b, hpair, hless, rfl⟩, rfl⟩
    · rw [repulsionOf_comm] at hless
      exact ⟨_, mem_repulsions.mpr ⟨b, a, hpair, hless, rfl⟩, Sym2.eq_swap⟩

/-- The attracted pairs are the related ones beyond the threshold. -/
theorem pair_mem_attractions (hg : g.IsWellFormed originOf) {listing : List (Node α)}
    (hlisting : listing.Perm g.nodeList) {pair : Sym2 String} :
    pair ∈ (attractions g directions listing).map Push.pair ↔
      ∃ e ∈ g.edges, ∃ a b, g.find? e.a = some a ∧ g.find? e.b = some b ∧ pair = s(e.a, e.b) ∧
        Scalar.less attractionThreshold (spacing a b) = true := by
  have hpair : ∀ {e : Edge} {a b : Node α} {step : α}, g.find? e.a = some a →
      g.find? e.b = some b → (Push.between directions a b step).pair = s(e.a, e.b) := by
    intro e a b step ha hb
    rw [← (hg.node ha).1, ← (hg.node hb).1]
    rfl
  rw [List.mem_map]
  constructor
  · rintro ⟨p, hp, rfl⟩
    obtain ⟨e, he, a, b, ha, hb, hless, rfl⟩ := (mem_attractions hg hlisting).mp hp
    exact ⟨e, he, a, b, ha, hb, hpair ha hb, hless⟩
  · rintro ⟨e, he, a, b, ha, hb, rfl, hless⟩
    exact ⟨_, (mem_attractions hg hlisting).mpr ⟨e, he, a, b, ha, hb, hless, rfl⟩, hpair ha hb⟩

/-- Pushes of a tick: each pass accumulates its pushes; no pair occurs twice in a pass; the repelled
pairs are those with a positive step and the attracted ones those related beyond the threshold, each
pushed by its step along its separation. -/
structure PushesOnce (g : Graph α) (directions : Directions α) (split : Split)
    (listing : List (Node α)) : Prop where
  repulsion_eq : repulsion g directions split listing =
    split.collect Push.performAll ∅ merge ((rows listing).map (rowPushes g directions))
  nodup_repulsions : ((repulsions g directions listing).map Push.pair).Nodup
  pair_mem_repulsions {pair : Sym2 String} :
    pair ∈ (repulsions g directions listing).map Push.pair ↔
      ∃ a b, g.find? a.identity = some a ∧ g.find? b.identity = some b ∧
        a.identity ≠ b.identity ∧ pair = s(a.identity, b.identity) ∧
        Scalar.less 0 (repulsionOf g a b) = true
  mem_repulsions {p : Push α} : p ∈ repulsions g directions listing →
    ∃ a b, g.find? a.identity = some a ∧ g.find? b.identity = some b ∧
      p = .between directions a b (repulsionOf g a b)
  attraction_eq (moves : Displacements α) : attraction g directions listing moves =
    Push.performAll moves (attractions g directions listing)
  listed {e : Edge} : e ∈ g.edges →
    ∃ a ∈ listing, ∃ b ∈ listing, a.identity = e.a ∧ b.identity = e.b
  nodup_attractions : ((attractions g directions listing).map Push.pair).Nodup
  pair_mem_attractions {pair : Sym2 String} :
    pair ∈ (attractions g directions listing).map Push.pair ↔
      ∃ e ∈ g.edges, ∃ a b, g.find? e.a = some a ∧ g.find? e.b = some b ∧ pair = s(e.a, e.b) ∧
        Scalar.less attractionThreshold (spacing a b) = true
  mem_attractions {p : Push α} : p ∈ attractions g directions listing →
    ∃ e ∈ g.edges, ∃ a b, g.find? e.a = some a ∧ g.find? e.b = some b ∧
      p = .between directions a b (-attractionOf e.weight a b)

/-- Every tick pushes each pair once for each pass that applies to it, under any choices. -/
theorem pushesOnce [LawfulScalar α] (hg : g.IsWellFormed originOf) (directions : Directions α)
    (split : Split) {listing : List (Node α)} (hlisting : listing.Perm g.nodeList) :
    PushesOnce g directions split listing where
  repulsion_eq := repulsion_eq hg split listing
  nodup_repulsions := nodup_pair_repulsions (hg.nodup_identity hlisting)
  pair_mem_repulsions := pair_mem_repulsions hg hlisting
  mem_repulsions {p} hp := by
    obtain ⟨a, b, hpair, -, rfl⟩ := mem_repulsions.mp hp
    obtain ⟨ha, hb, -⟩ := mem_of_mem_pairs (hg.nodup_identity hlisting) hpair
    exact ⟨a, b, (hg.mem_listing hlisting).mp ha, (hg.mem_listing hlisting).mp hb, rfl⟩
  attraction_eq := attraction_eq fun node hnode => (hg.mem_listing hlisting).mp hnode
  listed {e} he := by
    obtain ⟨a, b, ha, hb⟩ := hg.exists_nodes he
    obtain ⟨hea, -⟩ := hg.node ha
    obtain ⟨heb, -⟩ := hg.node hb
    rw [← hea] at ha
    rw [← heb] at hb
    exact ⟨a, (hg.mem_listing hlisting).mpr ha, b, (hg.mem_listing hlisting).mpr hb, hea, heb⟩
  nodup_attractions := nodup_pair_attractions hg hlisting
  pair_mem_attractions := pair_mem_attractions hg hlisting
  mem_attractions hp := by
    obtain ⟨e, he, a, b, ha, hb, -, rfl⟩ := (mem_attractions hg hlisting).mp hp
    exact ⟨e, he, a, b, ha, hb, rfl⟩

end Layout

end ClassAtlas
