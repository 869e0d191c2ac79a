import ClassAtlas.Proofs.Layout.Push
import Mathlib

/-!
# Balance of a tick

Over exact scalars, a tick displaces each node by the sum of the contributions of all other nodes,
independently of the order of the pushes and of their partition. The contributions of a pair are
opposite, so all displacements cancel and the centroid is preserved. Specification: `SPEC_FULL.md`
§4.4, lines 55–62, and §5, line 66.
-/

namespace ClassAtlas

namespace Graph

variable {α : Type}

/-- Centroid of the nodes of a graph. -/
def centroid [Scalar α] (g : Graph α) : Vec3 α :=
  (g.nodeList.map Node.position).sum.map (· / Layout.whole g.nodeCount)

/-- A tick preserves the node listing up to displacement. -/
theorem nodeList_relaxWith [Scalar α] (directions : Layout.Directions α) (split : Layout.Split)
    (listing : List (Node α)) (g : Graph α) :
    (Layout.relaxWith directions split listing g).nodeList =
      g.nodeList.map (Layout.displacements directions split listing g).apply := by
  rw [nodeList, Layout.relaxWith, Std.ExtTreeMap.toList_map, nodeList, List.map_map, List.map_map]
  rfl

end Graph

namespace Layout

variable {α : Type} [Scalar α]

/-! ### Finite sums -/

section Sums

variable {β γ M : Type} [AddCommMonoid M]

private theorem sum_map_sub {G : Type} [AddCommGroup G] (items : List β) (value other : β → G) :
    (items.map fun item => value item - other item).sum =
      (items.map value).sum - (items.map other).sum := by
  simpa using Multiset.sum_map_sub (m := (items : Multiset β)) (f := value) (g := other)

private theorem sum_sum_comm (items : List β) (others : List γ) (value : β → γ → M) :
    (items.map fun item => (others.map (value item)).sum).sum =
      (others.map fun other => (items.map fun item => value item other).sum).sum := by
  simpa using Multiset.sum_map_sum_map (items : Multiset β) (others : Multiset γ)

variable [DecidableEq γ] {name : β → γ} {items : List β}

private theorem sum_eq_zero_of_absent {key : γ} (h : key ∉ items.map name) (value : β → M) :
    (items.map fun item => if name item = key then value item else 0).sum = 0 := by
  apply List.sum_eq_zero
  intro x hx
  obtain ⟨item, hitem, rfl⟩ := List.mem_map.mp hx
  refine if_neg fun heq => h ?_
  rw [← heq]
  exact List.mem_map_of_mem hitem

private theorem sum_eq_of_mem (h : (items.map name).Nodup) {item : β} (hitem : item ∈ items)
    (value : β → M) :
    (items.map fun other => if name other = name item then value other else 0).sum =
      value item := by
  induction items with
  | nil => cases hitem
  | cons first rest ih =>
    obtain ⟨hfirst, hrest⟩ := List.nodup_cons.mp h
    rw [List.map_cons, List.sum_cons]
    rcases List.mem_cons.mp hitem with rfl | hitem'
    · rw [if_pos rfl, sum_eq_zero_of_absent hfirst, add_zero]
    · have hne : name first ≠ name item := fun heq => hfirst (heq ▸ List.mem_map_of_mem hitem')
      rw [if_neg hne, ih hrest hitem', zero_add]

end Sums

/-! ### Displacements -/

private theorem Displacements.at_alter (moves : Displacements α) (key : String)
    (change : Vec3 α → Vec3 α) (name : String) :
    Displacements.at (moves.alter key fun known => some (change (known.getD 0))) name =
      if key = name then change (moves.at name) else moves.at name := by
  rw [Displacements.at, Std.ExtTreeMap.getElem?_alter]
  simp only [Std.compare_eq_iff_eq]
  split
  · next heq => rw [heq]; rfl
  · rfl

private theorem Displacements.at_empty (name : String) :
    Displacements.at (∅ : Displacements α) name = 0 := by
  rw [Displacements.at, Std.ExtTreeMap.getElem?_empty]
  rfl

namespace Push

/-- Contribution of a push to the displacement of a node. -/
def share (p : Push α) (name : String) : Vec3 α :=
  (if p.a = name then p.direction.scale (p.step * Scalar.ofDecimal 5 1) else 0) -
    if p.b = name then p.direction.scale (p.step * Scalar.ofDecimal 5 1) else 0

variable [ExactScalar α]

private theorem at_perform (moves : Displacements α) (p : Push α) (name : String) :
    (perform moves p).at name = moves.at name + p.share name := by
  rw [perform, push, Displacements.at_alter _ p.b (· - _), Displacements.at_alter _ p.a (· + _),
    share]
  split_ifs <;> abel

/-- Performed pushes contribute additively. -/
theorem at_performAll (moves : Displacements α) (pushes : List (Push α)) (name : String) :
    (performAll moves pushes).at name = moves.at name + (pushes.map (·.share name)).sum := by
  induction pushes generalizing moves with
  | nil => simp [performAll]
  | cons p pushes ih =>
    rw [performAll, List.foldl_cons, ← performAll, ih, at_perform, List.map_cons, List.sum_cons,
      add_assoc]

end Push

variable [ExactScalar α]

private theorem at_foldl_alter (entries : List (String × Vec3 α)) (moves : Displacements α)
    (name : String) :
    Displacements.at (entries.foldl (fun moves entry =>
        moves.alter entry.1 fun known => some (known.getD 0 + entry.2)) moves) name =
      moves.at name + (entries.map fun entry => if entry.1 = name then entry.2 else 0).sum := by
  induction entries generalizing moves with
  | nil => simp
  | cons entry entries ih =>
    rw [List.foldl_cons, ih, Displacements.at_alter _ entry.1 (· + entry.2), List.map_cons,
      List.sum_cons, ← add_assoc]
    split <;> simp

private theorem sum_entries (moves : Displacements α) (name : String) :
    (moves.toList.map fun entry => if entry.1 = name then entry.2 else 0).sum = moves.at name := by
  have hnodup : (moves.toList.map Prod.fst).Nodup := by
    rw [Std.ExtTreeMap.map_fst_toList_eq_keys]
    exact Std.ExtTreeMap.nodup_keys
  cases hmove : moves[name]? with
  | none =>
    have habsent : name ∉ moves.toList.map Prod.fst := by
      rw [Std.ExtTreeMap.map_fst_toList_eq_keys, Std.ExtTreeMap.mem_keys,
        Std.ExtTreeMap.mem_iff_isSome_getElem?, hmove]
      exact Bool.false_ne_true
    rw [sum_eq_zero_of_absent habsent Prod.snd, Displacements.at, hmove]
    rfl
  | some move =>
    have hmem := Std.ExtTreeMap.mem_toList_iff_getElem?_eq_some.mpr hmove
    rw [sum_eq_of_mem hnodup hmem Prod.snd, Displacements.at, hmove]
    rfl

/-- Merging accumulators is addition. -/
theorem at_merge (moves others : Displacements α) (name : String) :
    (merge moves others).at name = moves.at name + others.at name := by
  rw [merge, Std.ExtTreeMap.foldl_eq_foldl_toList, at_foldl_alter, sum_entries]

/-- The displacement of a node is the sum of the contributions of all pushes. -/
theorem at_displacements {g : Graph α} {originOf : String → Origin} (hg : g.IsWellFormed originOf)
    (directions : Directions α) (split : Split) {listing : List (Node α)}
    (hlisting : listing.Perm g.nodeList) (name : String) :
    (displacements directions split listing g).at name =
      ((repulsions g directions listing).map (·.share name)).sum +
        ((attractions g directions listing).map (·.share name)).sum := by
  have hrows := Split.collect_sum (fun moves : Displacements α => moves.at name)
    (Displacements.at_empty name) (fun moves pushes => Push.at_performAll moves pushes name)
    (fun moves others => at_merge moves others name) split
    ((rows listing).map (rowPushes g directions))
  rw [displacements, attraction_eq fun node hnode => (hg.mem_listing hlisting).mp hnode,
    Push.at_performAll, repulsion_eq hg, hrows, List.map_map, repulsions, List.map_flatMap,
    List.flatMap_def, List.sum_flatten, List.map_map]
  rfl

/-! ### Pairwise contributions -/

/-- Displacement of a node for a push away from another one. -/
def impulse (v other : Node α) (step : α) : Vec3 α :=
  (separation 0 v.position other.position).direction.scale (step * Scalar.ofDecimal 5 1)

/-- Contribution of the repulsion by another node. -/
def repulsionShare (g : Graph α) (v other : Node α) : Vec3 α :=
  if Scalar.less 0 (repulsionOf g v other) then impulse v other (repulsionOf g v other) else 0

/-- Contribution of the attraction by another node. -/
def attractionShare (g : Graph α) (v other : Node α) : Vec3 α :=
  if g.IsRelated v.identity other.identity ∧ Scalar.less attractionThreshold (spacing v other) then
    impulse v other (-attractionOf (g.attraction v.identity other.identity) v other)
  else 0

/-- The contribution of a push between two nodes, from either endpoint. -/
theorem share_between (directions : Directions α) {a b : Node α} (hne : a.identity ≠ b.identity)
    (hapart : Scalar.less 0 (spacing a b) = true) (step : α) :
    (Push.between directions a b step).share a.identity = impulse a b step ∧
      (Push.between directions a b step).share b.identity = impulse b a step := by
  constructor
  · rw [Push.share, Push.between, if_pos rfl, if_neg hne.symm, sub_zero, impulse,
      separation_of_apart hapart, separation_of_apart hapart]
  · rw [Push.share, Push.between, if_neg hne, if_pos rfl, zero_sub, impulse,
      direction_separation_comm hapart 0 (directions a.identity b.identity), Vec3.scale_neg]

/-- A push contributes nothing to other nodes. -/
theorem share_of_notMem {p : Push α} {name : String} (h : name ∉ p.pair) : p.share name = 0 := by
  have hname : ¬p.a = name ∧ ¬p.b = name := by
    rw [Push.pair, Sym2.mem_iff, not_or] at h
    exact ⟨Ne.symm h.1, Ne.symm h.2⟩
  rw [Push.share, if_neg hname.1, if_neg hname.2, sub_zero]

/-- Pushes with distinct pairs contribute, to each node, the sum over all other nodes. -/
theorem sum_share {pushes : List (Push α)} (hpushes : (pushes.map Push.pair).Nodup)
    {others : List (Node α)} (hothers : (others.map (·.identity)).Nodup) {name : String}
    {part : Node α → Vec3 α}
    (hpushed : ∀ p ∈ pushes, name ∈ p.pair → ∃ other ∈ others,
      p.pair = s(name, other.identity) ∧ p.share name = part other)
    (hunpushed : ∀ other ∈ others, s(name, other.identity) ∉ pushes.map Push.pair →
      part other = 0) :
    (pushes.map (·.share name)).sum = (others.map part).sum := by
  have hpairs : (others.map fun other => s(name, other.identity)).Nodup := by
    have hinjective : Function.Injective fun other : String => s(name, other) :=
      fun _ _ heq => Sym2.congr_right.mp heq
    simpa [Function.comp_def] using hothers.map hinjective
  -- Double sum over pushes and partners: each push is the summand of exactly one partner.
  calc (pushes.map (·.share name)).sum
      = (pushes.map fun p => (others.map fun other =>
          if s(name, other.identity) = p.pair then part other else 0).sum).sum := by
        congr 1
        refine List.map_congr_left fun p hp => ?_
        by_cases hname : name ∈ p.pair
        · obtain ⟨other, hother, hpair, hshare⟩ := hpushed p hp hname
          rw [hshare, hpair]
          exact (sum_eq_of_mem hpairs hother part).symm
        · rw [share_of_notMem hname]
          refine (sum_eq_zero_of_absent (fun hmem => hname ?_) part).symm
          obtain ⟨other, -, hpair⟩ := List.mem_map.mp hmem
          exact hpair ▸ Sym2.mem_mk_left name other.identity
    _ = (others.map fun other => (pushes.map fun p =>
          if s(name, other.identity) = p.pair then part other else 0).sum).sum :=
        sum_sum_comm ..
    _ = (others.map part).sum := by
        congr 1
        refine List.map_congr_left fun other hother => ?_
        simp only [eq_comm (a := s(name, other.identity))]
        by_cases hpair : s(name, other.identity) ∈ pushes.map Push.pair
        · obtain ⟨p, hp, heq⟩ := List.mem_map.mp hpair
          rw [← heq]
          exact sum_eq_of_mem hpushes hp fun _ => part other
        · rw [hunpushed other hother hpair]
          exact sum_eq_zero_of_absent hpair _

/-! ### Influence -/

/-- Contribution of another node in both passes. -/
def influence (g : Graph α) (v other : Node α) : Vec3 α :=
  repulsionShare g v other + attractionShare g v other

/-- No two nodes coincide. -/
def Apart (g : Graph α) : Prop :=
  ∀ ⦃a b : Node α⦄, g.find? a.identity = some a → g.find? b.identity = some b →
    a.identity ≠ b.identity → Scalar.less 0 (spacing a b) = true

variable {g : Graph α} {originOf : String → Origin} {directions : Directions α}
  {listing : List (Node α)} {v : Node α}

private theorem exists_other (hg : g.IsWellFormed originOf) (hapart : Apart g)
    (hv : g.find? v.identity = some v) {a b : Node α} (ha : g.find? a.identity = some a)
    (hb : g.find? b.identity = some b) (hne : a.identity ≠ b.identity) {step : α}
    (hmem : v.identity ∈ (Push.between directions a b step).pair) :
    ∃ other ∈ g.others v, s(a, b) = s(v, other) ∧
      (Push.between directions a b step).share v.identity = impulse v other step := by
  obtain ⟨hshare, hshare'⟩ := share_between directions hne (hapart ha hb hne) step
  rcases Sym2.mem_iff.mp hmem with hname | hname
  · obtain rfl := Graph.eq_of_identity_eq hv ha hname
    exact ⟨b, hg.mem_others.mpr ⟨hb, hne.symm⟩, rfl, hshare⟩
  · obtain rfl := Graph.eq_of_identity_eq hv hb hname
    exact ⟨a, hg.mem_others.mpr ⟨ha, hne⟩, Sym2.eq_swap, hshare'⟩

/-- The repulsion step of a pair is symmetric. -/
theorem repulsionOf_congr {a b other : Node α} (h : s(a, b) = s(v, other)) :
    repulsionOf g a b = repulsionOf g v other := by
  rcases Sym2.eq_iff.mp h with ⟨rfl, rfl⟩ | ⟨rfl, rfl⟩
  · rfl
  · exact repulsionOf_comm g _ _

/-- The distance of a pair is symmetric. -/
theorem spacing_congr {a b other : Node α} (h : s(a, b) = s(v, other)) :
    spacing a b = spacing v other := by
  rcases Sym2.eq_iff.mp h with ⟨rfl, rfl⟩ | ⟨rfl, rfl⟩
  · rfl
  · exact spacing_comm _ _

/-- The repulsion pass contributes the sum over all other nodes. -/
theorem sum_repulsions (hg : g.IsWellFormed originOf) (hapart : Apart g)
    (hlisting : listing.Perm g.nodeList) (hv : g.find? v.identity = some v) :
    ((repulsions g directions listing).map (·.share v.identity)).sum =
      ((g.others v).map (repulsionShare g v)).sum := by
  have hnodup := hg.nodup_identity hlisting
  refine sum_share (nodup_pair_repulsions hnodup) (hg.nodup_others v) ?_ ?_
  · intro p hp hmem
    obtain ⟨a, b, hpair, hless, rfl⟩ := mem_repulsions.mp hp
    obtain ⟨ha, hb, hne⟩ := mem_of_mem_pairs hnodup hpair
    rw [hg.mem_listing hlisting] at ha hb
    obtain ⟨other, hother, hnodes, hshare⟩ := exists_other hg hapart hv ha hb hne hmem
    refine ⟨other, hother, congrArg (Sym2.map Node.identity) hnodes, ?_⟩
    rw [repulsionOf_congr hnodes] at hless hshare ⊢
    rw [hshare, repulsionShare, if_pos hless]
  · intro other hother hunpushed
    obtain ⟨hfound, hne⟩ := hg.mem_others.mp hother
    refine if_neg fun hless => hunpushed ?_
    exact (pair_mem_repulsions hg hlisting).mpr ⟨v, other, hv, hfound, hne.symm, rfl, hless⟩

/-- The attraction pass contributes the sum over all other nodes. -/
theorem sum_attractions (hg : g.IsWellFormed originOf) (hapart : Apart g)
    (hlisting : listing.Perm g.nodeList) (hv : g.find? v.identity = some v) :
    ((attractions g directions listing).map (·.share v.identity)).sum =
      ((g.others v).map (attractionShare g v)).sum := by
  refine sum_share (nodup_pair_attractions hg hlisting) (hg.nodup_others v) ?_ ?_
  · intro p hp hmem
    obtain ⟨e, he, a, b, ha, hb, hless, rfl⟩ := (mem_attractions hg hlisting).mp hp
    have hea := (hg.node ha).1
    have heb := (hg.node hb).1
    have hne : a.identity ≠ b.identity := hea ▸ heb ▸ hg.ne_of_mem_edges he
    obtain ⟨other, hother, hnodes, hshare⟩ :=
      exists_other hg hapart hv (hea ▸ ha) (heb ▸ hb) hne hmem
    have hnames : s(a.identity, b.identity) = s(v.identity, other.identity) :=
      congrArg (Sym2.map Node.identity) hnodes
    have hpair : s(e.a, e.b) = s(v.identity, other.identity) := by rw [← hnames, hea, heb]
    refine ⟨other, hother, hnames, ?_⟩
    rw [attractionOf, spacing_congr hnodes] at hshare ⊢
    rw [spacing_congr hnodes] at hless
    rw [hshare, attractionShare, if_pos ⟨⟨e, he, hpair⟩, hless⟩, hg.attraction_of_pair he hpair,
      attractionOf]
  · intro other hother hunpushed
    obtain ⟨hfound, hne⟩ := hg.mem_others.mp hother
    refine if_neg fun ⟨⟨e, he, hpair⟩, hless⟩ => hunpushed ?_
    obtain ⟨a, b, ha, hb⟩ := hg.exists_nodes he
    have hea := (hg.node ha).1
    have heb := (hg.node hb).1
    refine (pair_mem_attractions hg hlisting).mpr ⟨e, he, a, b, ha, hb, hpair.symm, ?_⟩
    rw [← hea] at ha hpair
    rw [← heb] at hb hpair
    rcases Sym2.eq_iff.mp hpair with ⟨hav, hbo⟩ | ⟨hao, hbv⟩
    · obtain rfl := Graph.eq_of_identity_eq ha hv hav
      obtain rfl := Graph.eq_of_identity_eq hb hfound hbo
      exact hless
    · obtain rfl := Graph.eq_of_identity_eq ha hfound hao
      obtain rfl := Graph.eq_of_identity_eq hb hv hbv
      rwa [spacing_comm]

/-- The displacement of a node is the sum of the influences of all other nodes. -/
theorem at_displacements_eq (hg : g.IsWellFormed originOf) (hapart : Apart g) (split : Split)
    (hlisting : listing.Perm g.nodeList) (hv : g.find? v.identity = some v) :
    (displacements directions split listing g).at v.identity =
      ((g.others v).map (influence g v)).sum := by
  rw [at_displacements hg directions split hlisting, sum_repulsions hg hapart hlisting hv,
    sum_attractions hg hapart hlisting hv, ← List.sum_map_add]
  rfl

/-! ### Cancellation -/

/-- The contributions of a push between listed nodes cancel. -/
theorem Push.sum_share_eq_zero {items : List (Node α)} (hitems : (items.map (·.identity)).Nodup)
    {a b : Node α} (ha : a ∈ items) (hb : b ∈ items) (step : α) :
    (items.map fun v => (between directions a b step).share v.identity).sum = 0 := by
  have hsum : ∀ node ∈ items, ∀ move : Vec3 α,
      (items.map fun v => if node.identity = v.identity then move else 0).sum = move := by
    intro node hnode move
    simp only [eq_comm (a := node.identity)]
    exact sum_eq_of_mem hitems hnode fun _ => move
  simp only [share, sum_map_sub]
  rw [between, hsum a ha, hsum b hb, sub_self]

/-- All displacements cancel. -/
theorem sum_displacements (hg : g.IsWellFormed originOf) (split : Split)
    (hlisting : listing.Perm g.nodeList) :
    (g.nodeList.map fun v => (displacements directions split listing g).at v.identity).sum = 0 := by
  have hsum : ∀ pushes : List (Push α),
      (∀ p ∈ pushes, (g.nodeList.map fun v => p.share v.identity).sum = 0) →
      (g.nodeList.map fun v => (pushes.map (·.share v.identity)).sum).sum = 0 := by
    intro pushes hpushes
    -- Summed over the nodes first, each push cancels.
    refine (sum_sum_comm g.nodeList pushes fun v p => p.share v.identity).trans ?_
    exact List.sum_eq_zero (List.forall_mem_map.mpr hpushes)
  have hnodup := hg.nodup_identity (.refl g.nodeList)
  have hmem : ∀ {name : String} {node : Node α}, g.find? name = some node → node ∈ g.nodeList :=
    fun hnode => Graph.mem_nodeList.mpr ⟨_, hnode⟩
  simp only [at_displacements hg directions split hlisting, List.sum_map_add]
  rw [hsum, hsum, add_zero]
  · intro p hp
    obtain ⟨e, -, a, b, ha, hb, -, rfl⟩ := (mem_attractions hg hlisting).mp hp
    exact Push.sum_share_eq_zero hnodup (hmem ha) (hmem hb) _
  · intro p hp
    obtain ⟨a, b, hpair, -, rfl⟩ := mem_repulsions.mp hp
    obtain ⟨ha, hb, -⟩ := mem_of_mem_pairs (hg.nodup_identity hlisting) hpair
    exact Push.sum_share_eq_zero hnodup (hlisting.subset ha) (hlisting.subset hb) _

/-! ### Ticks -/

/-- Applying a displacement is a translation, also for the zero displacement. -/
theorem Displacements.apply_eq_moveBy (moves : Displacements α) (node : Node α) :
    moves.apply node = node.moveBy (moves.at node.identity) := by
  rw [apply]
  by_cases hstill : isStill (moves.at node.identity) = true
  · have hzero : moves.at node.identity = 0 := by
      simp only [isStill, Bool.and_eq_true] at hstill
      obtain ⟨⟨hx, hy⟩, hz⟩ := hstill
      exact Vec3.ext (ExactScalar.eq_of_same hx) (ExactScalar.eq_of_same hy)
        (ExactScalar.eq_of_same hz)
    rw [if_pos hstill, hzero, Node.moveBy, add_zero]
  · exact if_neg hstill

/-- A tick preserves the centroid. -/
theorem centroid_relaxWith (hg : g.IsWellFormed originOf) (split : Split)
    (hlisting : listing.Perm g.nodeList) :
    (relaxWith directions split listing g).centroid = g.centroid := by
  have hcount : (relaxWith directions split listing g).nodeCount = g.nodeCount :=
    Std.ExtTreeMap.size_map
  rw [Graph.centroid, Graph.nodeList_relaxWith, List.map_map, hcount]
  simp only [Function.comp_def, Displacements.apply_eq_moveBy, Node.moveBy, List.sum_map_add]
  rw [sum_displacements hg split hlisting, add_zero, Graph.centroid]

/-- A tick is independent of its choices. -/
theorem relaxWith_eq (hg : g.IsWellFormed originOf) (hapart : Apart g) (split : Split)
    (hlisting : listing.Perm g.nodeList) :
    relaxWith directions split listing g = relax g := by
  apply Graph.ext_find?
  intro name
  rw [relax, Graph.find?_relaxWith, Graph.find?_relaxWith]
  cases hnode : g.find? name with
  | none =>
    -- `rfl` would unfold and compare the two displacements.
    rw [Option.map_none, Option.map_none]
  | some v =>
    obtain ⟨rfl, -⟩ := hg.node hnode
    have hmove : (displacements directions split listing g).at v.identity =
        (displacements firstAxis .whole g.nodeList g).at v.identity :=
      (at_displacements_eq hg hapart split hlisting hnode).trans
        (at_displacements_eq hg hapart .whole (.refl _) hnode).symm
    simp only [Option.map_some, Displacements.apply_eq_moveBy, hmove]

/-- Balance of a tick over exact scalars: displacements are sums of influences, they cancel, and the
tick is independent of its choices and preserves the centroid. -/
structure Balances (g : Graph α) (engine : LayoutEngine) (choices : Choices α) : Prop where
  at_eq {v : Node α} : g.find? v.identity = some v →
    (displacements choices.directions choices.split (choices.order g.nodeList) g).at v.identity =
      ((g.others v).map (influence g v)).sum
  sum_eq_zero : (g.nodeList.map fun v =>
    (displacements choices.directions choices.split (choices.order g.nodeList) g).at
      v.identity).sum = 0
  tickWith_eq : engine.tickWith choices g = engine.tick g
  centroid_eq : (engine.tickWith choices g).2.centroid = g.centroid

/-- Every tick without coincident nodes balances. -/
theorem balances (hg : g.IsWellFormed originOf) (hapart : Apart g) (engine : LayoutEngine)
    {choices : Choices α} (horder : (choices.order g.nodeList).Perm g.nodeList) :
    Balances g engine choices where
  at_eq := at_displacements_eq hg hapart choices.split horder
  sum_eq_zero := sum_displacements hg choices.split horder
  tickWith_eq := by
    rw [LayoutEngine.tickWith, relaxWith_eq hg hapart choices.split horder, LayoutEngine.tick]
  centroid_eq := by
    rw [LayoutEngine.tickWith]
    split
    · rfl
    · exact centroid_relaxWith hg choices.split horder

/-! ### Two nodes -/

section Pair

variable {g : Graph ℝ} {p q : Node ℝ}

/-- Nodes coincide if and only if their positions are equal. -/
theorem less_spacing_iff {a b : Node ℝ} :
    Scalar.less 0 (spacing a b) = true ↔ a.position ≠ b.position := by
  rw [spacing, distance_separation, ← sub_ne_zero, ← length_pos_iff]
  exact decide_eq_true_iff

/-- `p` and `q` are all nodes of the graph and have distinct positions. -/
structure IsPair (g : Graph ℝ) (p q : Node ℝ) : Prop where
  nodeCount_eq : g.nodeCount = 2
  find?_left : g.find? p.identity = some p
  find?_right : g.find? q.identity = some q
  position_ne : p.position ≠ q.position

namespace IsPair

/-- The two nodes may be exchanged. -/
theorem symm (h : IsPair g p q) : IsPair g q p :=
  ⟨h.nodeCount_eq, h.find?_right, h.find?_left, h.position_ne.symm⟩

/-- The two nodes have distinct identities. -/
theorem identity_ne (h : IsPair g p q) : p.identity ≠ q.identity := fun hname =>
  h.position_ne
    (congrArg Node.position (Graph.eq_of_identity_eq h.find?_left h.find?_right hname))

/-- The two nodes are the listing. -/
theorem nodeList_perm (h : IsPair g p q) : [p, q].Perm g.nodeList := by
  have hsubset : [p, q] ⊆ g.nodeList := by
    intro node hnode
    rcases List.mem_pair.mp hnode with rfl | rfl
    · exact Graph.mem_nodeList.mpr ⟨_, h.find?_left⟩
    · exact Graph.mem_nodeList.mpr ⟨_, h.find?_right⟩
  have hnodup : [p, q].Nodup :=
    List.pairwise_pair.mpr fun heq => h.identity_ne (congrArg Node.identity heq)
  have hlength : g.nodeList.length = 2 := by
    rw [Graph.nodeList, List.length_map, Std.ExtTreeMap.length_toList]
    exact h.nodeCount_eq
  exact (hnodup.subperm hsubset).perm_of_length_le hlength.le

/-- Each node is the only other one. -/
theorem others_eq (h : IsPair g p q) : g.others p = [q] := by
  have hfilter := h.nodeList_perm.filter fun other => decide (other.identity ≠ p.identity)
  rw [List.filter_cons_of_neg (by simp),
    List.filter_cons_of_pos (by simpa using h.identity_ne.symm), List.filter_nil] at hfilter
  exact List.perm_singleton.mp hfilter.symm

/-- The two nodes do not coincide. -/
theorem apart (h : IsPair g p q) : Apart g := by
  have hnodes : ∀ {node : Node ℝ}, g.find? node.identity = some node → node = p ∨ node = q :=
    fun hnode => List.mem_pair.mp (h.nodeList_perm.mem_iff.mpr (Graph.mem_nodeList.mpr ⟨_, hnode⟩))
  intro a b ha hb hne
  rw [less_spacing_iff]
  rcases hnodes ha with rfl | rfl
  · rcases hnodes hb with rfl | rfl
    · exact absurd rfl hne
    · exact h.position_ne
  · rcases hnodes hb with rfl | rfl
    · exact h.position_ne.symm
    · exact absurd rfl hne

end IsPair

end Pair

/-- Graph of a class at the origin of coordinates and its translated subclass. -/
noncomputable def subclassAt (position : Vec3 ℝ) : Graph ℝ :=
  (Graph.empty.relate (OriginResolver.resolve .empty (.fresh [])) "A" "B" .inheritance).moveBy "B"
    position

/-- The class stores the weight of its subclass. -/
theorem find?_subclassAt (position : Vec3 ℝ) (name : String) :
    (subclassAt position).find? name =
      if name = "A" then some ((Node.new "A" .unknown).strengthen "B" ⟨4⟩)
      else if name = "B" then some ((Node.new "B" .unknown).moveBy position) else none := by
  have horient : Graph.orient "A" "B" = ("A", "B") := by decide
  have hA : OriginResolver.resolve .empty (.fresh []) "A" = .unknown := by decide +kernel
  have hB : OriginResolver.resolve .empty (.fresh []) "B" = .unknown := by decide +kernel
  rw [subclassAt, Graph.relate_of_ne _ (by decide), if_neg (by decide), horient, Graph.moveBy,
    Graph.strengthen]
  simp only [Graph.find?_modify, Graph.find?_ensure, Graph.find?_empty, hA, hB, Option.getD_none]
  by_cases hname : name = "A"
  · subst hname
    simp
    rfl
  · by_cases hname' : name = "B"
    · subst hname'
      simp
    · simp [hname, hname', eq_comm]

/-- The graph is reachable. -/
theorem reachable_subclassAt (position : Vec3 ℝ) :
    Graph.Reachable .empty (.fresh []) (subclassAt position) :=
  .move "B" position (.relate "A" "B" .inheritance .empty)

/-- The graph consists of the two nodes. -/
theorem isPair_subclassAt {position : Vec3 ℝ} (h : position ≠ 0) :
    IsPair (subclassAt position) ((Node.new "A" .unknown).strengthen "B" ⟨4⟩)
      ((Node.new "B" .unknown).moveBy position) where
  nodeCount_eq := by
    have hnames : ∀ name, ((subclassAt position).find? name).isSome ↔
        name ∈ ({"A", "B"} : Finset String) := by
      intro name
      rw [find?_subclassAt, Finset.mem_insert, Finset.mem_singleton]
      split_ifs <;> simp_all
    rw [Graph.nodeCount_eq_card hnames, Finset.card_pair (by decide)]
  find?_left := find?_subclassAt position "A"
  find?_right := find?_subclassAt position "B"
  position_ne := by
    show (0 : Vec3 ℝ) ≠ 0 + position
    rw [zero_add]
    exact h.symm

/-- The weight is that of an inheritance fact. -/
theorem attraction_subclassAt (position : Vec3 ℝ) :
    (subclassAt position).attraction "A" "B" = ⟨4⟩ := by
  have hfound : (subclassAt position).find? "A" =
      some ((Node.new "A" .unknown).strengthen "B" ⟨4⟩) := find?_subclassAt position "A"
  rw [Graph.attraction_eq, if_pos (by decide), Graph.weight?_of_find? hfound, Node.strengthen,
    Std.ExtTreeMap.getElem?_alter_self]
  simp [Node.new]

/-! ### Reachable graphs -/

/-- In every reachable graph, a tick pushes each pair once for each pass that applies to it; over
exact scalars and without coincident nodes, its pushes balance. -/
theorem pushes_of_reachable {α : Type} [Scalar α] [LawfulScalar α] {resolver : OriginResolver}
    {tree : FileTree} {g : Graph α} (h : Graph.Reachable resolver tree g) (engine : LayoutEngine)
    (choices : Choices α) (horder : (choices.order g.nodeList).Perm g.nodeList) :
    PushesOnce g choices.directions choices.split (choices.order g.nodeList) ∧
      ∀ [ExactScalar α], Apart g → Balances g engine choices :=
  have hwf := Graph.isWellFormed_of_reachable h
  ⟨pushesOnce hwf choices.directions choices.split horder,
    fun hapart => balances hwf hapart engine horder⟩

/-- A class and its subclass are pushed once in each pass, and the pushes balance. -/
theorem pushes_of_reachable_subclass :
    let g : Graph ℝ := subclassAt ⟨1, 0, 0⟩
    Graph.Reachable .empty (.fresh []) g ∧ Apart g ∧ PushesOnce g firstAxis .whole g.nodeList ∧
      Balances g {} .byName := by
  intro g
  have hreach := reachable_subclassAt (⟨1, 0, 0⟩ : Vec3 ℝ)
  have hplace : (⟨1, 0, 0⟩ : Vec3 ℝ) ≠ 0 := fun heq => one_ne_zero (congrArg Vec3.x heq)
  have hapart : Apart g := (isPair_subclassAt hplace).apart
  obtain ⟨hpushes, hbalances⟩ := pushes_of_reachable hreach {} .byName (.refl g.nodeList)
  exact ⟨hreach, hapart, hpushes, hbalances hapart⟩

end Layout

end ClassAtlas
