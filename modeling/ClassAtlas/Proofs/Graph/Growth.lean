import ClassAtlas.Graph.Change
import ClassAtlas.Proofs.Graph.Listing
import Mathlib

/-!
# Frame laws of ingestion and layout

Insertions extend the graph and leave positions alone; the layout changes positions and nothing
else. Hence nodes, origins and edges persist, and weights grow monotonically. Specification:
`SPEC_FULL.md` §3, lines 31–33, and §5, lines 65–67.
-/

namespace ClassAtlas

namespace Graph

variable {α : Type} {originOf : String → Origin} {g k m : Graph α}

/-! ### Representable weights -/

/-- All weights of the graph are representable in single precision. -/
def IsKept (g : Graph α) : Prop :=
  ∀ a b weight, g.weight? a b = some weight → Weight.IsKept weight.units

/-- The empty graph has no weights. -/
theorem isKept_empty : (empty : Graph α).IsKept := by
  intro a b weight hweight
  rw [weight?_empty] at hweight
  cases hweight

/-- `ensure` preserves representable weights. -/
theorem IsKept.ensure [Zero α] (h : g.IsKept) (name : String) :
    (g.ensure originOf name).IsKept := by
  intro a b weight hweight
  rw [weight?_ensure] at hweight
  exact h a b weight hweight

/-- Accumulation yields a representable weight. -/
theorem IsKept.strengthen (h : g.IsKept) {owner partner : String}
    (howner : (g.find? owner).isSome) {added : Weight} (hadded : Weight.IsKept added.units) :
    (g.strengthen owner partner added).IsKept := by
  intro a b weight hweight
  rw [weight?_strengthen howner] at hweight
  split at hweight
  · cases hweight
    cases g.weight? a b with
    | none => exact hadded
    | some known => exact Weight.isKept_rounded _
  · exact h a b weight hweight

/-- `relate` preserves representable weights. -/
theorem IsKept.relate [Zero α] (h : g.IsKept) (a b : String) (kind : RelationKind) :
    (g.relate originOf a b kind).IsKept := by
  by_cases hab : a = b
  · subst hab
    rw [relate_self]
    exact h.ensure a
  · rw [relate_of_ne originOf hab]
    split
    · exact (h.ensure a).ensure b
    · exact ((h.ensure a).ensure b).strengthen (isSome_find?_orient originOf a b g).1
        (Weight.isKept_weight kind)

/-- `addFacts` preserves representable weights. -/
theorem IsKept.addFacts [Zero α] (h : g.IsKept) (facts : List Fact) :
    (g.addFacts originOf facts).IsKept := by
  induction facts generalizing g with
  | nil => exact h
  | cons fact facts ih => exact ih (h.relate fact.source fact.target fact.kind)

/-! ### Growth -/

/-- Growth of a graph: nodes persist with identity and origin, and stored weights do not
decrease. -/
structure GrowsTo (g k : Graph α) : Prop where
  node {name : String} {node : Node α} : g.find? name = some node →
    ∃ later, k.find? name = some later ∧ later.identity = node.identity ∧
      later.origin = node.origin
  weight {a b : String} {weight : Weight} : g.weight? a b = some weight →
    ∃ later, k.weight? a b = some later ∧ weight.units ≤ later.units

/-- Growth is reflexive. -/
theorem GrowsTo.refl (g : Graph α) : g.GrowsTo g where
  node {_ node} hnode := ⟨node, hnode, rfl, rfl⟩
  weight {_ _ weight} hweight := ⟨weight, hweight, Nat.le_refl _⟩

/-- Growth is transitive. -/
theorem GrowsTo.trans (h : g.GrowsTo k) (h' : k.GrowsTo m) : g.GrowsTo m where
  node hnode := by
    obtain ⟨between, hbetween, hidentity, horigin⟩ := h.node hnode
    obtain ⟨later, hlater, hidentity', horigin'⟩ := h'.node hbetween
    exact ⟨later, hlater, hidentity'.trans hidentity, horigin'.trans horigin⟩
  weight hweight := by
    obtain ⟨between, hbetween, hle⟩ := h.weight hweight
    obtain ⟨later, hlater, hle'⟩ := h'.weight hbetween
    exact ⟨later, hlater, hle.trans hle'⟩

/-- Listed edges persist under growth, with weights that do not decrease. -/
theorem GrowsTo.edge (h : g.GrowsTo k) (hg : g.IsWellFormed originOf) (hk : k.IsWellFormed originOf)
    {e : Edge} (he : e ∈ g.edges) :
    ∃ later ∈ k.edges, later.a = e.a ∧ later.b = e.b ∧ e.weight.units ≤ later.weight.units := by
  obtain ⟨later, hlater, hle⟩ := h.weight (hg.mem_edges.mp he)
  exact ⟨⟨e.a, e.b, later⟩, hk.mem_edges.mpr hlater, rfl, rfl, hle⟩

/-- The symmetric lookup is monotone under growth. -/
theorem GrowsTo.attraction_le (h : g.GrowsTo k) (a b : String) :
    (g.attraction a b).units ≤ (k.attraction a b).units := by
  have hstored : ∀ first second,
      ((g.weight? first second).getD 0).units ≤ ((k.weight? first second).getD 0).units := by
    intro first second
    cases hweight : g.weight? first second with
    | none => exact Nat.zero_le _
    | some weight =>
      obtain ⟨later, hlater, hle⟩ := h.weight hweight
      rw [hlater]
      exact hle
  rw [attraction_eq, attraction_eq]
  split
  · exact hstored a b
  · exact hstored b a

/-! ### Insertions -/

/-- Growth by insertion: existing positions are unchanged, new nodes are at the origin of
coordinates. -/
structure RecordsTo [Zero α] (g k : Graph α) : Prop extends g.GrowsTo k where
  place {name : String} {node later : Node α} : g.find? name = some node →
    k.find? name = some later → later.position = node.position
  centre {name : String} {later : Node α} : g.find? name = none →
    k.find? name = some later → later.position = 0

/-- Insertion growth is reflexive. -/
theorem RecordsTo.refl [Zero α] (g : Graph α) : g.RecordsTo g where
  toGrowsTo := .refl g
  place hnode hlater := by
    rw [hnode] at hlater
    cases hlater
    rfl
  centre hnone hlater := by
    rw [hnone] at hlater
    cases hlater

/-- Insertion growth is transitive. -/
theorem RecordsTo.trans [Zero α] (h : g.RecordsTo k) (h' : k.RecordsTo m) : g.RecordsTo m where
  toGrowsTo := h.toGrowsTo.trans h'.toGrowsTo
  place hnode hlater := by
    obtain ⟨between, hbetween, -⟩ := h.node hnode
    exact (h'.place hbetween hlater).trans (h.place hnode hbetween)
  centre {name _} hnone hlater := by
    cases hbetween : k.find? name with
    | none => exact h'.centre hbetween hlater
    | some between => exact (h'.place hbetween hlater).trans (h.centre hnone hbetween)

/-- `ensure` is an insertion. -/
theorem recordsTo_ensure [Zero α] (originOf : String → Origin) (name : String) (g : Graph α) :
    g.RecordsTo (g.ensure originOf name) where
  node {other node} hnode := by
    refine ⟨node, ?_, rfl, rfl⟩
    rw [find?_ensure]
    split
    · next heq => rw [heq, hnode, Option.getD_some]
    · exact hnode
  weight {a b weight} hweight :=
    ⟨weight, (weight?_ensure originOf name g a b).trans hweight, Nat.le_refl _⟩
  place hnode hlater := by
    rcases find?_ensure_cases hlater with hknown | ⟨rfl, rfl⟩
    · rw [hnode] at hknown
      cases hknown
      rfl
    · rw [find?_ensure, if_pos rfl, hnode] at hlater
      cases hlater
      rfl
  centre hnone hlater := by
    rcases find?_ensure_cases hlater with hknown | ⟨rfl, rfl⟩
    · rw [hnone] at hknown
      cases hknown
    · rfl

/-- `strengthen` is an insertion. -/
theorem recordsTo_strengthen [Zero α] (hkept : g.IsKept) {owner : String}
    (howner : (g.find? owner).isSome) (partner : String) (added : Weight) :
    g.RecordsTo (g.strengthen owner partner added) where
  node {name node} hnode := by
    rw [Graph.strengthen, find?_modify]
    split
    · next heq =>
      rw [heq, hnode]
      exact ⟨_, rfl, rfl, rfl⟩
    · exact ⟨node, hnode, rfl, rfl⟩
  weight {a b weight} hweight := by
    rw [weight?_strengthen howner]
    split
    · refine ⟨_, rfl, ?_⟩
      rw [hweight]
      exact Weight.le_rounded (hkept a b weight hweight) (Nat.le_add_right _ _)
    · exact ⟨weight, hweight, Nat.le_refl _⟩
  place hnode hlater := by
    obtain ⟨known, hknown, rfl | rfl⟩ := find?_modify_cases hlater
    · rw [hnode] at hknown
      cases hknown
      rfl
    · rw [hnode] at hknown
      cases hknown
      rfl
  centre hnone hlater := by
    obtain ⟨known, hknown, -⟩ := find?_modify_cases hlater
    rw [hnone] at hknown
    cases hknown

/-- `relate` is an insertion. -/
theorem recordsTo_relate [Zero α] (originOf : String → Origin) (hkept : g.IsKept) (a b : String)
    (kind : RelationKind) : g.RecordsTo (g.relate originOf a b kind) := by
  by_cases hab : a = b
  · subst hab
    rw [relate_self]
    exact recordsTo_ensure originOf a g
  · have hboth := (recordsTo_ensure originOf a g).trans (recordsTo_ensure originOf b _)
    rw [relate_of_ne originOf hab]
    split
    · exact hboth
    · exact hboth.trans (recordsTo_strengthen ((hkept.ensure a).ensure b)
        (isSome_find?_orient originOf a b g).1 _ _)

/-- `addFacts` is an insertion. -/
theorem recordsTo_addFacts [Zero α] (originOf : String → Origin) (hkept : g.IsKept)
    (facts : List Fact) : g.RecordsTo (g.addFacts originOf facts) := by
  induction facts generalizing g with
  | nil => exact .refl g
  | cons fact facts ih =>
    exact (recordsTo_relate originOf hkept fact.source fact.target fact.kind).trans
      (ih (hkept.relate fact.source fact.target fact.kind))

/-! ### Translations -/

/-- Change of positions only, restricted to the nodes for which `moved` holds. -/
structure MovesTo (g k : Graph α) (moved : String → Prop) : Prop where
  absent {name : String} : g.find? name = none → k.find? name = none
  node {name : String} {node : Node α} : g.find? name = some node →
    ∃ position, k.find? name = some { node with position }
  still {name : String} : ¬ moved name → k.find? name = g.find? name

/-- A graph differs from itself by no translation. -/
theorem MovesTo.refl (g : Graph α) (moved : String → Prop) : g.MovesTo g moved where
  absent hnone := hnone
  node {_ node} hnode := ⟨node.position, hnode⟩
  still _ := rfl

/-- Translations preserve stored weights. -/
theorem MovesTo.weight? {moved : String → Prop} (h : g.MovesTo k moved) (a b : String) :
    k.weight? a b = g.weight? a b := by
  rw [Graph.weight?, Graph.weight?]
  cases hnode : g.find? a with
  | none => rw [h.absent hnode]
  | some node =>
    obtain ⟨position, hlater⟩ := h.node hnode
    rw [hlater]
    rfl

/-- Translations preserve the symmetric lookup. -/
theorem MovesTo.attraction {moved : String → Prop} (h : g.MovesTo k moved) (a b : String) :
    k.attraction a b = g.attraction a b := by
  rw [attraction_eq, attraction_eq, h.weight?, h.weight?]

/-- Translations preserve the edge listing. -/
theorem MovesTo.edges {moved : String → Prop} (h : g.MovesTo k moved)
    (hg : g.IsWellFormed originOf) (hk : k.IsWellFormed originOf) : k.edges = g.edges := by
  have hnodup : ∀ {m : Graph α}, m.IsWellFormed originOf → m.edges.Nodup := by
    intro m hm
    refine (edgesOf_precedes hm.identity_ne).imp ?_
    rintro e _ hprecedes rfl
    exact hprecedes.asymm hprecedes
  refine Edge.eq_of_perm_of_precedes ?_ (edgesOf_precedes hk.identity_ne)
    (edgesOf_precedes hg.identity_ne)
  refine (List.perm_ext_iff_of_nodup (hnodup hk) (hnodup hg)).mpr fun e => ?_
  rw [hk.mem_edges, hg.mem_edges, h.weight?]

/-- A translation is a growth. -/
theorem MovesTo.growsTo {moved : String → Prop} (h : g.MovesTo k moved) : g.GrowsTo k where
  node hnode := by
    obtain ⟨position, hlater⟩ := h.node hnode
    exact ⟨_, hlater, rfl, rfl⟩
  weight {a b weight} hweight := ⟨weight, (h.weight? a b).trans hweight, Nat.le_refl _⟩

/-- Translations preserve representable weights. -/
theorem MovesTo.isKept {moved : String → Prop} (h : g.MovesTo k moved) (hkept : g.IsKept) :
    k.IsKept := by
  intro a b weight hweight
  rw [h.weight?] at hweight
  exact hkept a b weight hweight

/-- `moveBy` translates one node. -/
theorem movesTo_moveBy [Add α] (g : Graph α) (name : String) (delta : Vec3 α) :
    g.MovesTo (g.moveBy name delta) (· = name) where
  absent hnone := by
    rw [Graph.moveBy, find?_modify]
    split
    · next heq => rw [heq, hnone, Option.map_none]
    · exact hnone
  node {other node} hnode := by
    rw [Graph.moveBy, find?_modify]
    split
    · next heq =>
      rw [heq, hnode]
      exact ⟨_, rfl⟩
    · exact ⟨node.position, hnode⟩
  still hother := by
    rw [Graph.moveBy, find?_modify, if_neg fun heq => hother heq.symm]

/-- A tick translates nodes. -/
theorem movesTo_tickWith [Scalar α] (engine : LayoutEngine) (choices : Layout.Choices α)
    (g : Graph α) : g.MovesTo (engine.tickWith choices g).2 fun _ => True := by
  unfold LayoutEngine.tickWith
  split
  · exact .refl g _
  · constructor
    case absent =>
      intro name hnone
      rw [find?_relaxWith, hnone, Option.map_none]
    case node =>
      intro name node hnode
      obtain ⟨position, happly⟩ := apply_eq (Layout.displacements choices.directions choices.split
        (choices.order g.nodeList) g) node
      exact ⟨position, by rw [find?_relaxWith, hnode, Option.map_some, happly]⟩
    case still => exact fun hnot => absurd trivial hnot

end Graph

/-- A tick on fewer than two nodes is a no-op. -/
theorem LayoutEngine.tickWith_of_few {α : Type} [Scalar α] (engine : LayoutEngine)
    (choices : Layout.Choices α) {g : Graph α} (h : g.nodeCount < 2) :
    engine.tickWith choices g = (engine, g) := by
  rw [LayoutEngine.tickWith, decide_eq_true h, Bool.true_or, if_pos rfl]

/-! ### Mutation sequences -/

namespace Change

variable {α : Type} [Scalar α] {originOf : String → Origin} {before : LayoutEngine × Graph α}

/-- Invariant of engine and graph between mutations: a well-formed graph with representable
weights. -/
structure IsSound (originOf : String → Origin) (state : LayoutEngine × Graph α) : Prop where
  wellFormed : state.2.IsWellFormed originOf
  kept : state.2.IsKept

/-- An insertion leaves the engine unchanged and grows the graph by insertion. -/
theorem IsSound.recording (h : IsSound originOf before) {change : Change α}
    (hrecording : change.isRecording) :
    (change.perform originOf before).1 = before.1 ∧
      before.2.RecordsTo (change.perform originOf before).2 := by
  cases change with
  | ensure name => exact ⟨rfl, Graph.recordsTo_ensure originOf name before.2⟩
  | relate a b kind => exact ⟨rfl, Graph.recordsTo_relate originOf h.kept a b kind⟩
  | addClass bytes =>
    refine ⟨rfl, ?_⟩
    show before.2.RecordsTo (before.2.addClass originOf bytes)
    unfold Graph.addClass
    split
    · exact Graph.recordsTo_addFacts originOf h.kept _
    · exact .refl before.2
  | move name delta => cases hrecording
  | tick choices => cases hrecording

/-- Any other mutation translates nodes. -/
theorem movesTo_perform (originOf : String → Origin) (before : LayoutEngine × Graph α)
    {change : Change α} (hmoving : change.isRecording = false) :
    before.2.MovesTo (change.perform originOf before).2 fun _ => True := by
  cases change with
  | move name delta =>
    have hmoves := Graph.movesTo_moveBy before.2 name delta
    exact ⟨hmoves.absent, hmoves.node, fun hnot => absurd trivial hnot⟩
  | tick choices => exact Graph.movesTo_tickWith before.1 choices before.2
  | ensure name => cases hmoving
  | relate a b kind => cases hmoving
  | addClass bytes => cases hmoving

/-- Every mutation preserves the invariant. -/
theorem IsSound.perform (h : IsSound originOf before) (change : Change α) :
    IsSound originOf (change.perform originOf before) := by
  cases change with
  | ensure name => exact ⟨h.wellFormed.ensure name, h.kept.ensure name⟩
  | relate a b kind => exact ⟨h.wellFormed.relate a b kind, h.kept.relate a b kind⟩
  | addClass bytes =>
    show IsSound originOf (before.1, before.2.addClass originOf bytes)
    unfold Graph.addClass
    split
    · exact ⟨h.wellFormed.addFacts _, h.kept.addFacts _⟩
    · exact h
  | move name delta =>
    exact ⟨h.wellFormed.moveBy name delta,
      (Graph.movesTo_moveBy before.2 name delta).isKept h.kept⟩
  | tick choices =>
    refine ⟨?_, (Graph.movesTo_tickWith before.1 choices before.2).isKept h.kept⟩
    show (before.1.tickWith choices before.2).2.IsWellFormed originOf
    unfold LayoutEngine.tickWith
    split
    · exact h.wellFormed
    · exact h.wellFormed.relaxWith _ _ _

/-- Mutation sequences preserve the invariant. -/
theorem IsSound.performAll (h : IsSound originOf before) (changes : List (Change α)) :
    IsSound originOf (performAll originOf before changes) := by
  induction changes generalizing before with
  | nil => exact h
  | cons change changes ih => exact ih (h.perform change)

/-- Every mutation grows the graph. -/
theorem IsSound.growsTo_perform (h : IsSound originOf before) (change : Change α) :
    before.2.GrowsTo (change.perform originOf before).2 := by
  cases hrecording : change.isRecording with
  | true => exact (h.recording hrecording).2.toGrowsTo
  | false => exact (movesTo_perform originOf before hrecording).growsTo

/-- Mutation sequences grow the graph. -/
theorem IsSound.growsTo_performAll (h : IsSound originOf before) (changes : List (Change α)) :
    before.2.GrowsTo (Change.performAll originOf before changes).2 := by
  induction changes generalizing before with
  | nil => exact .refl before.2
  | cons change changes ih => exact (h.growsTo_perform change).trans (ih (h.perform change))

/-- Frame laws behind a mutation sequence: growth along every continuation, monotone edges and
lookups, insertions that leave engine and positions alone, translations of a single node by the
requested vector, ticks that change positions only, no effect of rejected class files on either, and
no effect of a tick on fewer than two nodes. -/
structure Undisturbed (originOf : String → Origin) (before : LayoutEngine × Graph α) : Prop where
  grows (later : List (Change α)) : before.2.GrowsTo (performAll originOf before later).2
  edge (later : List (Change α)) {e : Edge} : e ∈ before.2.edges →
    ∃ f ∈ (performAll originOf before later).2.edges,
      f.a = e.a ∧ f.b = e.b ∧ e.weight.units ≤ f.weight.units
  attraction_le (later : List (Change α)) (a b : String) :
    (before.2.attraction a b).units ≤ ((performAll originOf before later).2.attraction a b).units
  recording {change : Change α} : change.isRecording →
    (change.perform originOf before).1 = before.1 ∧
      before.2.RecordsTo (change.perform originOf before).2
  move (name : String) (delta : Vec3 α) :
    (perform originOf before (.move name delta)).1 = before.1 ∧
      before.2.MovesTo (perform originOf before (.move name delta)).2 (· = name)
  moved {name : String} {node : Node α} (delta : Vec3 α) : before.2.find? name = some node →
    (perform originOf before (.move name delta)).2.find? name =
      some { node with position := node.position + delta }
  tick (choices : Layout.Choices α) :
    before.2.MovesTo (perform originOf before (.tick choices)).2 fun _ => True
  moving {change : Change α} : change.isRecording = false →
    (change.perform originOf before).2.edges = before.2.edges ∧
      ∀ a b, (change.perform originOf before).2.attraction a b = before.2.attraction a b
  rejected {bytes : List UInt8} {cause : ClassFileError} :
    ClassFile.extractFacts bytes = .error cause →
    perform originOf before (.addClass bytes) = before
  few (choices : Layout.Choices α) : before.2.nodeCount < 2 →
    perform originOf before (.tick choices) = before ∧ before.1.tick before.2 = before

/-- The frame laws hold behind every mutation sequence from the empty graph. -/
theorem undisturbed (resolver : OriginResolver) (tree : FileTree) (engine : LayoutEngine)
    (earlier : List (Change α)) :
    Undisturbed (resolver.resolve tree)
      (performAll (resolver.resolve tree) (engine, .empty) earlier) := by
  have hempty : IsSound (resolver.resolve tree) (engine, (.empty : Graph α)) :=
    ⟨Graph.isWellFormed_empty _, Graph.isKept_empty⟩
  have h := hempty.performAll earlier
  set before := performAll (resolver.resolve tree) (engine, (.empty : Graph α)) earlier
  constructor
  case grows => exact h.growsTo_performAll
  case edge =>
    intro later e he
    exact (h.growsTo_performAll later).edge h.wellFormed (h.performAll later).wellFormed he
  case attraction_le => exact fun later => (h.growsTo_performAll later).attraction_le
  case recording => exact h.recording
  case move => exact fun name delta => ⟨rfl, Graph.movesTo_moveBy before.2 name delta⟩
  case moved =>
    intro name node delta hnode
    show (before.2.moveBy name delta).find? name = _
    rw [Graph.moveBy, Graph.find?_modify, if_pos rfl, hnode]
    rfl
  case tick => exact fun choices => Graph.movesTo_tickWith before.1 choices before.2
  case moving =>
    intro change hmoving
    have hmoves := movesTo_perform (resolver.resolve tree) before hmoving
    exact ⟨hmoves.edges h.wellFormed (h.perform change).wellFormed, hmoves.attraction⟩
  case rejected =>
    intro bytes cause hcause
    show (before.1, before.2.addClass _ bytes) = before
    rw [Graph.addClass, hcause]
  case few =>
    intro choices hfew
    refine ⟨before.1.tickWith_of_few choices hfew, ?_⟩
    rw [LayoutEngine.tick_eq]
    exact before.1.tickWith_of_few _ hfew

end Change

end ClassAtlas
