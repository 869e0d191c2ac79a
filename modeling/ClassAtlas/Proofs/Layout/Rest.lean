import ClassAtlas.Proofs.Graph.Growth
import ClassAtlas.Proofs.Layout.Push
import Mathlib

/-!
# Equilibria

A node without relationships and without nodes in range takes part in no push, hence a tick assigns
it no displacement and leaves its node unchanged as a value. A graph of such nodes is an
equilibrium. Specification: `SPEC_FULL.md` §4.4, lines 55–60, and §8, line 89.
-/

namespace ClassAtlas

variable {α : Type} [Scalar α]

/-- The node has no relationships, and all other nodes are out of range. -/
def Graph.IsRemote (g : Graph α) (v : Node α) : Prop :=
  (∀ e ∈ g.edges, e.a ≠ v.identity ∧ e.b ≠ v.identity) ∧
    ∀ other ∈ g.others v, Scalar.less (Layout.spacing v other) Layout.longThreshold = false

/-- Being remote is decidable. -/
instance (g : Graph α) (v : Node α) : Decidable (g.IsRemote v) :=
  inferInstanceAs (Decidable (_ ∧ _))

/-- No classes are related, and all pairs of nodes are out of range. -/
def Graph.AtRest (g : Graph α) : Prop :=
  g.edges = [] ∧ ∀ v ∈ g.nodeList, ∀ other ∈ g.others v,
    Scalar.less (Layout.spacing v other) Layout.longThreshold = false

/-- Being an equilibrium is decidable. -/
instance (g : Graph α) : Decidable g.AtRest := inferInstanceAs (Decidable (_ ∧ _))

/-- All nodes of an equilibrium are remote. -/
theorem Graph.AtRest.isRemote {g : Graph α} (h : g.AtRest) {v : Node α} (hv : v ∈ g.nodeList) :
    g.IsRemote v := by
  refine ⟨?_, h.2 v hv⟩
  rw [h.1]
  exact List.forall_mem_nil _

namespace Layout

/-! ### Absent displacements -/

/-- A push assigns displacements to its two nodes only. -/
theorem Push.getElem?_perform {p : Push α} {name : String} (h : name ∉ p.pair)
    (moves : Displacements α) : (perform moves p)[name]? = moves[name]? := by
  rw [pair, Sym2.mem_iff, not_or] at h
  simp only [perform, push, Std.ExtTreeMap.getElem?_alter, Std.compare_eq_iff_eq,
    if_neg (Ne.symm h.1), if_neg (Ne.symm h.2)]

/-- Pushes assign displacements to their nodes only. -/
theorem Push.getElem?_performAll {pushes : List (Push α)} {name : String}
    (h : ∀ p ∈ pushes, name ∉ p.pair) (moves : Displacements α) :
    (performAll moves pushes)[name]? = moves[name]? := by
  induction pushes generalizing moves with
  | nil => rfl
  | cons p pushes ih =>
    obtain ⟨hp, hpushes⟩ := List.forall_mem_cons.mp h
    rw [performAll, List.foldl_cons, ← performAll, ih hpushes, getElem?_perform hp]

/-- Merging assigns no displacement to a node without one. -/
theorem getElem?_merge_eq_none {moves others : Displacements α} {name : String}
    (h : moves[name]? = none) (hothers : others[name]? = none) :
    (merge moves others)[name]? = none := by
  have hnames : ∀ entry ∈ others.toList, entry.1 ≠ name := by
    rintro entry hentry rfl
    rw [Std.ExtTreeMap.mem_toList_iff_getElem?_eq_some.mp hentry] at hothers
    cases hothers
  rw [merge, Std.ExtTreeMap.foldl_eq_foldl_toList]
  refine List.foldlRecOn (motive := fun moves : Displacements α => moves[name]? = none) _ _ h ?_
  intro moves hmoves entry hentry
  rw [Std.ExtTreeMap.getElem?_alter]
  simp only [Std.compare_eq_iff_eq, if_neg (hnames entry hentry), hmoves]

variable {g : Graph α} {originOf : String → Origin} {directions : Directions α}
  {listing : List (Node α)} {v : Node α}

/-- A node without displacement is unchanged. -/
theorem Displacements.apply_of_getElem?_eq_none [LawfulScalar α] {moves : Displacements α}
    (h : moves[v.identity]? = none) : moves.apply v = v := by
  have hzero : moves.at v.identity = 0 := by
    rw [Displacements.at, h]
    rfl
  have hstill : isStill (0 : Vec3 α) = true := by
    show (Scalar.same (0 : α) 0 && Scalar.same (0 : α) 0 && Scalar.same (0 : α) 0) = true
    rw [LawfulScalar.same_zero]
    rfl
  rw [apply, hzero]
  exact if_pos hstill

/-! ### Remote nodes -/

/-- The repulsion step of a remote node is zero. -/
theorem repulsionOf_of_isRemote (hv : g.IsRemote v) {other : Node α} (hother : other ∈ g.others v) :
    repulsionOf g v other = 0 := by
  have hunrelated : ¬g.IsRelated v.identity other.identity := by
    rintro ⟨e, he, hpair⟩
    obtain ⟨ha, hb⟩ := hv.1 e he
    have hmem : v.identity ∈ s(e.a, e.b) := hpair ▸ Sym2.mem_mk_left _ _
    rcases Sym2.mem_iff.mp hmem with heq | heq
    · exact ha heq.symm
    · exact hb heq.symm
  rw [repulsionOf, repulsionStep, decide_eq_false hunrelated, hv.2 other hother]
  rfl

/-- No attractive push involves a remote node. -/
theorem notMem_pair_of_mem_attractions (hg : g.IsWellFormed originOf)
    (hlisting : listing.Perm g.nodeList) (hv : g.IsRemote v) {p : Push α}
    (hp : p ∈ attractions g directions listing) : v.identity ∉ p.pair := by
  obtain ⟨e, he, a, b, -, -, hpair, -⟩ :=
    (pair_mem_attractions hg hlisting).mp (List.mem_map_of_mem hp)
  obtain ⟨ha, hb⟩ := hv.1 e he
  rw [hpair, Sym2.mem_iff]
  rintro (hname | hname)
  · exact ha hname.symm
  · exact hb hname.symm

variable [LawfulScalar α]

/-- No repulsive push involves a remote node. -/
theorem notMem_pair_of_mem_repulsions (hg : g.IsWellFormed originOf)
    (hlisting : listing.Perm g.nodeList) (hfound : g.find? v.identity = some v)
    (hv : g.IsRemote v) {p : Push α} (hp : p ∈ repulsions g directions listing) :
    v.identity ∉ p.pair := by
  have hpositive := (pair_mem_repulsions hg hlisting).mp (List.mem_map_of_mem hp)
  obtain ⟨a, b, ha, hb, hne, hpair, hless⟩ := hpositive
  have hzero : ∀ other, other ∈ g.others v → ¬Scalar.less 0 (repulsionOf g v other) = true := by
    intro other hother
    rw [repulsionOf_of_isRemote hv hother, LawfulScalar.less_zero]
    exact Bool.false_ne_true
  rw [hpair, Sym2.mem_iff]
  rintro (hname | hname)
  · obtain rfl := Graph.eq_of_identity_eq hfound ha hname
    exact hzero b (hg.mem_others.mpr ⟨hb, hne.symm⟩) hless
  · obtain rfl := Graph.eq_of_identity_eq hfound hb hname
    rw [repulsionOf_comm] at hless
    exact hzero a (hg.mem_others.mpr ⟨ha, hne⟩) hless

/-- A tick assigns no displacement to a remote node. -/
theorem getElem?_displacements_of_isRemote (hg : g.IsWellFormed originOf)
    (directions : Directions α) (split : Split) (hlisting : listing.Perm g.nodeList)
    (hfound : g.find? v.identity = some v) (hv : g.IsRemote v) :
    (displacements directions split listing g)[v.identity]? = none := by
  have hrows : ∀ pushes ∈ (rows listing).map (rowPushes g directions), ∀ p ∈ pushes,
      v.identity ∉ p.pair := by
    intro pushes hpushes p hp
    obtain ⟨row, hrow, rfl⟩ := List.mem_map.mp hpushes
    exact notMem_pair_of_mem_repulsions hg hlisting hfound hv (List.mem_flatMap.mpr ⟨row, hrow, hp⟩)
  rw [displacements, attraction_eq fun node hnode => (hg.mem_listing hlisting).mp hnode,
    Push.getElem?_performAll fun p => notMem_pair_of_mem_attractions hg hlisting hv,
    repulsion_eq hg]
  -- No collector has an entry for the node, so neither has their sum.
  refine Split.collect_induction (P := fun moves : Displacements α => moves[v.identity]? = none)
    Std.ExtTreeMap.getElem?_empty split ?_ fun _ _ => getElem?_merge_eq_none
  intro moves pushes hpushes hmoves
  rw [Push.getElem?_performAll (hrows pushes hpushes), hmoves]

/-- A tick leaves a remote node unchanged. -/
theorem find?_tickWith_of_isRemote (hg : g.IsWellFormed originOf) (engine : LayoutEngine)
    {choices : Choices α} (horder : (choices.order g.nodeList).Perm g.nodeList)
    (hfound : g.find? v.identity = some v) (hv : g.IsRemote v) :
    (engine.tickWith choices g).2.find? v.identity = some v := by
  rw [LayoutEngine.tickWith]
  split
  · exact hfound
  · have hnone := getElem?_displacements_of_isRemote hg choices.directions choices.split horder
      hfound hv
    rw [Graph.find?_relaxWith, hfound, Option.map_some,
      Displacements.apply_of_getElem?_eq_none hnone]

/-! ### Equilibria -/

/-- A tick preserves an equilibrium. -/
theorem tickWith_of_atRest (h : g.AtRest) (hg : g.IsWellFormed originOf) (engine : LayoutEngine)
    {choices : Choices α} (horder : (choices.order g.nodeList).Perm g.nodeList) :
    engine.tickWith choices g =
      (if g.nodeCount < 2 || engine.stopped then engine
        else { engine with ticks := engine.ticks + 1 }, g) := by
  have hgraph : (engine.tickWith choices g).2 = g := by
    apply Graph.ext_find?
    intro name
    cases hnode : g.find? name with
    | none => exact (Graph.movesTo_tickWith engine choices g).absent hnode
    | some v =>
      have hremote := h.isRemote (Graph.mem_nodeList.mpr ⟨name, hnode⟩)
      obtain ⟨rfl, -⟩ := hg.node hnode
      exact find?_tickWith_of_isRemote hg engine horder hnode hremote
  refine Prod.ext ?_ hgraph
  rw [LayoutEngine.tickWith]
  split <;> rfl

/-- Any number of ticks preserve an equilibrium. -/
theorem performAll_of_atRest (h : g.AtRest) (hg : g.IsWellFormed originOf) (engine : LayoutEngine)
    {ticks : List (Choices α)}
    (hticks : ∀ choices ∈ ticks, (choices.order g.nodeList).Perm g.nodeList) :
    Change.performAll originOf (engine, g) (ticks.map .tick) =
      (if g.nodeCount < 2 || engine.stopped then engine
        else { engine with ticks := engine.ticks + ticks.length }, g) := by
  induction ticks generalizing engine with
  | nil => simp [Change.performAll]
  | cons choices ticks ih =>
    obtain ⟨horder, hrest⟩ := List.forall_mem_cons.mp hticks
    have hstep : Change.performAll originOf (engine, g) ((choices :: ticks).map .tick) =
        Change.performAll originOf (engine.tickWith choices g) (ticks.map .tick) := rfl
    rw [hstep, tickWith_of_atRest h hg engine horder, ih _ hrest]
    by_cases hquiet : (g.nodeCount < 2 || engine.stopped) = true
    · simp only [if_pos hquiet]
    · simp only [if_neg hquiet, List.length_cons, Nat.add_assoc, Nat.add_comm 1]

/-- A tick leaves remote nodes unchanged under any choices; any number of ticks leave an equilibrium
unchanged and are counted. -/
structure KeepsStill (originOf : String → Origin) (g : Graph α) (engine : LayoutEngine) :
    Prop where
  remote {v : Node α} {choices : Choices α} : g.find? v.identity = some v → g.IsRemote v →
    (choices.order g.nodeList).Perm g.nodeList →
    (engine.tickWith choices g).2.find? v.identity = some v
  graph_eq {ticks : List (Choices α)} : g.AtRest →
    (∀ choices ∈ ticks, (choices.order g.nodeList).Perm g.nodeList) →
    (Change.performAll originOf (engine, g) (ticks.map .tick)).2 = g
  ticks_eq {ticks : List (Choices α)} : g.AtRest →
    (∀ choices ∈ ticks, (choices.order g.nodeList).Perm g.nodeList) → 2 ≤ g.nodeCount →
    engine.stopped = false →
    (Change.performAll originOf (engine, g) (ticks.map .tick)).1.ticks =
      engine.ticks + ticks.length

/-- In every reachable graph, ticks satisfy `KeepsStill`. -/
theorem keepsStill_of_reachable {resolver : OriginResolver} {tree : FileTree}
    (h : Graph.Reachable resolver tree g) (engine : LayoutEngine) :
    KeepsStill (resolver.resolve tree) g engine where
  remote hfound hv horder :=
    find?_tickWith_of_isRemote (Graph.isWellFormed_of_reachable h) engine horder hfound hv
  graph_eq hrest hticks := by
    rw [performAll_of_atRest hrest (Graph.isWellFormed_of_reachable h) engine hticks]
  ticks_eq hrest hticks hcount hgo := by
    have hticking : (g.nodeCount < 2 || engine.stopped) = false := by
      rw [hgo, Bool.or_false, decide_eq_false (Nat.not_lt.mpr hcount)]
    rw [performAll_of_atRest hrest (Graph.isWellFormed_of_reachable h) engine hticks, hticking]
    rfl

/-- A class out of range of two coincident ones is unchanged by a tick, and two classes out of range
are unchanged by two ticks. -/
theorem keepsStill_of_reachable_far :
    let originOf := OriginResolver.resolve .empty (.fresh [])
    let choices : Choices Float32 := ⟨fun _ _ => ⟨0, 1, 0⟩, .divide 1 .whole .whole, List.reverse⟩
    let g : Graph Float32 :=
      ((Graph.empty.relate originOf "A" "B" .inheritance).ensure originOf "C").moveBy "C"
        ⟨1000, 0, 0⟩
    let k : Graph Float32 :=
      ((Graph.empty.ensure originOf "A").ensure originOf "B").moveBy "B" ⟨1000, 0, 0⟩
    (∃ v, g.find? "C" = some v ∧ g.IsRemote v ∧
      (LayoutEngine.tickWith choices {} g).2.find? "C" = some v) ∧
      k.AtRest ∧
      (Change.performAll originOf ({}, k) ([choices, .byName].map .tick)).2 = k ∧
      (Change.performAll originOf ({}, k) ([choices, .byName].map .tick)).1.ticks = 2 := by
  intro originOf choices g k
  have hg : Graph.Reachable .empty (.fresh []) g :=
    .move "C" _ (.ensure "C" (.relate "A" "B" .inheritance .empty))
  have hk : Graph.Reachable .empty (.fresh []) k := .move "B" _ (.ensure "B" (.ensure "A" .empty))
  have hremote : (g.find? "C").isSome ∧ ∀ v ∈ g.find? "C", g.IsRemote v := by decide +kernel
  have hrest : k.AtRest ∧ 2 ≤ k.nodeCount := by decide +kernel
  clear_value g k
  constructor
  · obtain ⟨v, hfound⟩ := Option.isSome_iff_exists.mp hremote.1
    have hname := ((Graph.isWellFormed_of_reachable hg).node hfound).1
    have hv := hremote.2 v hfound
    have horder : (choices.order g.nodeList).Perm g.nodeList := List.reverse_perm _
    have hkept := (keepsStill_of_reachable hg {}).remote (by rw [hname, hfound]) hv horder
    rw [hname] at hkept
    exact ⟨v, hfound, hv, hkept⟩
  · have hstill := keepsStill_of_reachable hk {}
    have horders : ∀ tick ∈ [choices, .byName], (tick.order k.nodeList).Perm k.nodeList := by
      simp only [List.forall_mem_cons, List.not_mem_nil]
      exact ⟨List.reverse_perm _, .refl _, fun _ h => h.elim⟩
    exact ⟨hrest.1, hstill.graph_eq hrest.1 horders, hstill.ticks_eq hrest.1 horders hrest.2 rfl⟩

end Layout

end ClassAtlas
