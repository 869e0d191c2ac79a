import ClassAtlas.Proofs.Graph.Denotation
import ClassAtlas.Proofs.Graph.Sharing
import Mathlib

/-!
# Interleaved clients

Safety of the small-step semantics of clients: at every point of every schedule, the recorded calls
and the remaining obligations of the clients amount to the requested calls. The invariant covers
every program point; clients hold only cells in the table, and the obligation of a program point is
the remainder of its call. Specification: `SPEC_FULL.md` §4.3, line 49 (a) and (b), §5, line 65, and
§7, line 80.
-/

namespace ClassAtlas

variable {α : Type}

/-! ### Obligations -/

namespace Purpose

/-- Classes that a lookup continuation has yet to create. -/
def names (name : String) : Purpose → List String
  | .presence => [name]
  | .relation other _ => [name, other]
  | .closing _ _ _ => [name]

/-- Shares that a lookup continuation has yet to contribute. -/
def shares (name : String) : Purpose → List Share
  | .presence => []
  | .relation other kind => Share.ofRelation name other kind
  | .closing other _ kind => Share.ofRelation other name kind

/-- Cells held by a lookup continuation. -/
def handles : Purpose → List CellIndex
  | .presence => []
  | .relation _ _ => []
  | .closing _ cell _ => [cell]

/-- A continuation is sound if the cell it holds is that of its first endpoint. -/
def IsSound (shared : SharedGraph α) (name : String) : Purpose → Prop
  | .presence => True
  | .relation _ _ => True
  | .closing other cell _ => shared.identity? cell = some other ∧ other ≠ name

end Purpose

namespace Stage

/-- Cells held at a program point. -/
def handles : Stage → List CellIndex
  | .ready => []
  | .seek _ purpose => purpose.handles
  | .inquire _ purpose => purpose.handles
  | .create _ _ purpose => purpose.handles
  | .strengthen owner _ _ => [owner]

/-- Classes yet to be created from a program point. -/
def names : Stage → List String
  | .ready => []
  | .seek name purpose => purpose.names name
  | .inquire name purpose => purpose.names name
  | .create name _ purpose => purpose.names name
  | .strengthen _ _ _ => []

/-- Shares yet to be contributed from a program point. -/
def shares (shared : SharedGraph α) : Stage → List Share
  | .ready => []
  | .seek name purpose => purpose.shares name
  | .inquire name purpose => purpose.shares name
  | .create name _ purpose => purpose.shares name
  | .strengthen owner partner weight =>
    (shared.identity? owner).toList.map fun name => ⟨s(name, partner), weight.units⟩

/-- A program point is sound if the origin to be inserted is correct, and the accumulation to be
done has a positive weight, an owner and a partner in the table, and is stored on the lesser
identity. -/
def IsSound (originOf : String → Origin) (shared : SharedGraph α) : Stage → Prop
  | .ready => True
  | .seek name purpose => purpose.IsSound shared name
  | .inquire name purpose => purpose.IsSound shared name
  | .create name origin purpose => origin = originOf name ∧ purpose.IsSound shared name
  | .strengthen owner partner weight =>
    0 < weight.units ∧ (∃ cell, shared.identity? cell = some partner) ∧
      ∃ name, shared.identity? owner = some name ∧ name < partner

end Stage

namespace Client

/-- Classes yet to be created by a client. -/
def names (client : Client) : List String :=
  client.stage.names ++ client.calls.flatMap Call.names

/-- Shares yet to be contributed by a client. -/
def shares (shared : SharedGraph α) (client : Client) : List Share :=
  client.stage.shares shared ++ client.calls.flatMap Call.shares

end Client

/-! ### Stability under interference -/

/-- Sound continuations are stable under steps of other clients. -/
theorem Purpose.IsSound.mono {shared next : SharedGraph α} (hkeeps : shared.Keeps next)
    {name : String} {purpose : Purpose} (h : purpose.IsSound shared name) :
    purpose.IsSound next name := by
  cases purpose with
  | presence => trivial
  | relation other kind => trivial
  | closing other cell kind => exact ⟨hkeeps _ _ h.1, h.2⟩

/-- Sound program points are stable under steps of other clients. -/
theorem Stage.IsSound.mono {originOf : String → Origin} {shared next : SharedGraph α}
    (hkeeps : shared.Keeps next) {stage : Stage} (h : stage.IsSound originOf shared) :
    stage.IsSound originOf next := by
  cases stage with
  | ready => trivial
  | seek name purpose => exact Purpose.IsSound.mono hkeeps h
  | inquire name purpose => exact Purpose.IsSound.mono hkeeps h
  | create name origin purpose => exact ⟨h.1, h.2.mono hkeeps⟩
  | strengthen owner partner weight =>
    obtain ⟨hpos, ⟨cell, hcell⟩, name, hname, hlt⟩ := h
    exact ⟨hpos, ⟨cell, hkeeps _ _ hcell⟩, name, hkeeps _ _ hname, hlt⟩

/-- Obligations are stable under steps of other clients. -/
theorem Client.shares_eq {originOf : String → Origin} {shared next : SharedGraph α}
    (hkeeps : shared.Keeps next) {client : Client} (h : client.stage.IsSound originOf shared) :
    client.shares next = client.shares shared := by
  have hstage : client.stage.shares next = client.stage.shares shared := by
    cases hcase : client.stage with
    | ready => rfl
    | seek name purpose => rfl
    | inquire name purpose => rfl
    | create name origin purpose => rfl
    | strengthen owner partner weight =>
      rw [hcase] at h
      obtain ⟨-, -, name, hname, -⟩ := h
      rw [Stage.shares, Stage.shares, hname, hkeeps _ _ hname]
  rw [Client.shares, Client.shares, hstage]

/-- The cells held by a sound continuation are in the table. -/
theorem Purpose.IsSound.handle {shared : SharedGraph α} {name : String} {purpose : Purpose}
    (h : purpose.IsSound shared name) {cell : CellIndex} (hcell : cell ∈ purpose.handles) :
    ∃ other, shared.identity? cell = some other := by
  cases purpose with
  | presence => exact absurd hcell List.not_mem_nil
  | relation other kind => exact absurd hcell List.not_mem_nil
  | closing other held kind =>
    obtain rfl := List.mem_singleton.mp hcell
    exact ⟨other, h.1⟩

/-- The cells held at a sound program point are in the table. -/
theorem Stage.IsSound.handle {originOf : String → Origin} {shared : SharedGraph α} {stage : Stage}
    (h : stage.IsSound originOf shared) {cell : CellIndex} (hcell : cell ∈ stage.handles) :
    ∃ name, shared.identity? cell = some name := by
  cases stage with
  | ready => exact absurd hcell List.not_mem_nil
  | seek name purpose => exact Purpose.IsSound.handle h hcell
  | inquire name purpose => exact Purpose.IsSound.handle h hcell
  | create name origin purpose => exact h.2.handle hcell
  | strengthen owner partner weight =>
    obtain rfl := List.mem_singleton.mp hcell
    obtain ⟨-, -, name, hname, -⟩ := h
    exact ⟨name, hname⟩

/-- A finished client has no obligations. -/
theorem Client.nothing_left {client : Client} (h : client.isFinished) (shared : SharedGraph α) :
    client.names = [] ∧ client.shares shared = [] := by
  obtain ⟨stage, calls⟩ := client
  simp only [Client.isFinished, Bool.and_eq_true, decide_eq_true_eq, List.isEmpty_iff] at h
  obtain ⟨rfl, rfl⟩ := h
  exact ⟨rfl, rfl⟩

/-! ### Steps of a client -/

private theorem Client.begin_left (originOf : String → Origin) (shared : SharedGraph α)
    (call : Call) :
    (Client.begin call).names = call.names ∧ (Client.begin call).shares shared = call.shares ∧
      (Client.begin call).IsSound originOf shared := by
  cases call with
  | ensure name => exact ⟨rfl, rfl, trivial⟩
  | relate a b kind => exact ⟨rfl, rfl, trivial⟩
  | addFact fact => exact ⟨rfl, rfl, trivial⟩

private theorem Client.proceed_left {originOf : String → Origin} {shared : SharedGraph α}
    {name : String}
    {cell : CellIndex} {purpose : Purpose} (hcell : shared.identity? cell = some name)
    (hpurpose : purpose.IsSound shared name) :
    (Client.proceed name cell purpose).IsSound originOf shared ∧
      insert name (Client.proceed name cell purpose).names.toFinset =
        (purpose.names name).toFinset ∧
      (Client.proceed name cell purpose).shares shared = purpose.shares name := by
  cases purpose with
  | presence => exact ⟨trivial, by simp [proceed, Stage.names, Purpose.names], rfl⟩
  | relation other kind =>
    rw [proceed, Purpose.shares, Purpose.names]
    by_cases heq : name = other
    · subst heq
      rw [if_pos rfl, Share.ofRelation, if_pos (Or.inl rfl)]
      exact ⟨trivial, by simp [Stage.names], rfl⟩
    · rw [if_neg heq]
      exact ⟨⟨hcell, heq⟩, by simp [Stage.names, Purpose.names], rfl⟩
  | closing other held kind =>
    obtain ⟨hheld, hne⟩ := hpurpose
    rw [proceed, Purpose.shares, Purpose.names, Share.ofRelation]
    by_cases hzero : kind.weight = 0
    · rw [if_pos hzero, if_pos (Or.inr hzero)]
      exact ⟨trivial, by simp [Stage.names], rfl⟩
    · rw [if_neg hzero, if_neg (not_or.mpr ⟨hne, hzero⟩)]
      by_cases hlt : other < name
      · rw [if_pos hlt, Stage.shares, hheld]
        exact ⟨⟨Nat.pos_of_ne_zero hzero, ⟨cell, hcell⟩, other, hheld, hlt⟩,
          by simp [Stage.names], rfl⟩
      · have hgt : name < other := lt_of_le_of_ne (not_lt.mp hlt) hne.symm
        rw [if_neg hlt, Stage.shares, hcell, Sym2.eq_swap]
        exact ⟨⟨Nat.pos_of_ne_zero hzero, ⟨held, hheld⟩, name, hcell, hgt⟩,
          by simp [Stage.names], rfl⟩

section Steps

variable [Zero α] {originOf : String → Origin}

/-- Effect of a client step: the shared graph stays sound, other clients' knowledge stays valid, the
client's new program point is sound, and records and obligations together are unchanged. -/
structure Client.Leaves (originOf : String → Origin) (names : Finset String) (arrived : List Share)
    (client : Client) (shared : SharedGraph α) (moved : Client) (next : SharedGraph α) : Prop where
  isSound : next.IsSound
  keeps : shared.Keeps next
  stage : moved.stage.IsSound originOf next
  records : ∃ names' arrived', Graph.Records originOf names' arrived' next.toGraph ∧
    names' ∪ moved.names.toFinset = names ∪ client.names.toFinset ∧
    (arrived' ++ moved.shares next).Perm (arrived ++ client.shares shared)

private theorem Client.leaves_of_stage {names names' : Finset String}
    {arrived arrived' : List Share}
    {shared next : SharedGraph α} (stage stage' : Stage) (calls : List Call)
    (hnext : next.IsSound) (hkeeps : shared.Keeps next) (hstage : stage'.IsSound originOf next)
    (hrecords : Graph.Records originOf names' arrived' next.toGraph)
    (hnames : names' ∪ stage'.names.toFinset = names ∪ stage.names.toFinset)
    (hshares : (arrived' ++ stage'.shares next).Perm (arrived ++ stage.shares shared)) :
    Client.Leaves originOf names arrived ⟨stage, calls⟩ shared ⟨stage', calls⟩ next where
  isSound := hnext
  keeps := hkeeps
  stage := hstage
  records := by
    refine ⟨names', arrived', hrecords, ?_, ?_⟩
    · rw [Client.names, Client.names, List.toFinset_append, List.toFinset_append,
        ← Finset.union_assoc, ← Finset.union_assoc, hnames]
    · rw [Client.shares, Client.shares, ← List.append_assoc, ← List.append_assoc]
      exact hshares.append_right _

section Stages

variable {names : Finset String} {arrived : List Share} {shared : SharedGraph α}

private theorem Client.leaves_of_found {name : String} {cell : CellIndex} {purpose : Purpose}
    (hcell : shared.table[name]? = some cell) (hshared : shared.IsSound)
    (hpurpose : purpose.IsSound shared name)
    (hrecords : Graph.Records originOf names arrived shared.toGraph) (calls : List Call) :
    Client.Leaves originOf names arrived ⟨.seek name purpose, calls⟩ shared
      ⟨proceed name cell purpose, calls⟩ shared := by
  have hidentity := (hshared name cell).mp hcell
  obtain ⟨hsound, hnames, hshares⟩ := Client.proceed_left hidentity hpurpose
  -- The class already has a node, so it may be dropped from the list of pending classes.
  have hname : name ∈ names :=
    (hrecords.isSome_find? name).mp (hshared.isSome_find?.mpr ⟨cell, hidentity⟩)
  apply Client.leaves_of_stage (.seek name purpose) (proceed name cell purpose) calls hshared
    (.refl shared) hsound hrecords
  · rw [Stage.names, ← hnames, Finset.union_insert,
      Finset.insert_eq_of_mem (Finset.mem_union_left _ hname)]
  · rw [hshares]
    exact List.Perm.refl _

private theorem Client.leaves_of_create {name : String} {purpose : Purpose}
    (hshared : shared.IsSound)
    (hpurpose : purpose.IsSound shared name)
    (hrecords : Graph.Records originOf names arrived shared.toGraph) (calls : List Call) :
    Client.Leaves originOf names arrived ⟨.create name (originOf name) purpose, calls⟩ shared
      ⟨proceed name (shared.insertIfAbsent (Node.new name (originOf name))).1 purpose, calls⟩
      (shared.insertIfAbsent (Node.new name (originOf name))).2 := by
  have hkeeps := shared.keeps_insertIfAbsent (Node.new name (originOf name))
  have hnext := hshared.insertIfAbsent (Node.new name (originOf name))
  have hidentity := shared.identity?_insertIfAbsent hshared (Node.new name (originOf name))
  obtain ⟨hsound, hnames, hshares⟩ := Client.proceed_left hidentity (hpurpose.mono hkeeps)
  have hrecords' := hrecords.ensure name
  rw [← SharedGraph.toGraph_insertIfAbsent hshared originOf name] at hrecords'
  apply Client.leaves_of_stage (.create name (originOf name) purpose) (proceed name _ purpose) calls
    hnext hkeeps hsound hrecords'
  · show _ = names ∪ (purpose.names name).toFinset
    rw [Finset.insert_union, ← Finset.union_insert]
    exact congrArg (names ∪ ·) hnames
  · exact List.Perm.append_left arrived (List.Perm.of_eq hshares)

private theorem Client.leaves_of_strengthen {owner : CellIndex} {partner : String} {weight : Weight}
    (hshared : shared.IsSound)
    (hstage : (Stage.strengthen owner partner weight).IsSound originOf shared)
    (hrecords : Graph.Records originOf names arrived shared.toGraph) (calls : List Call) :
    Client.Leaves originOf names arrived ⟨.strengthen owner partner weight, calls⟩ shared
      ⟨.ready, calls⟩ (shared.strengthen owner partner weight) := by
  obtain ⟨hpos, ⟨cell, hcell⟩, name, hname, hlt⟩ := hstage
  have howner : name ∈ names :=
    (hrecords.isSome_find? name).mp (hshared.isSome_find?.mpr ⟨owner, hname⟩)
  have hpartner : partner ∈ names :=
    (hrecords.isSome_find? partner).mp (hshared.isSome_find?.mpr ⟨cell, hcell⟩)
  have hkeeps : shared.Keeps (shared.strengthen owner partner weight) := fun other cell h =>
    (shared.identity?_strengthen owner partner weight cell).trans h
  have hrecords' := hrecords.strengthen howner hpartner hlt hpos
  rw [← SharedGraph.toGraph_strengthen hshared hname] at hrecords'
  apply Client.leaves_of_stage (.strengthen owner partner weight) .ready calls
    (hshared.strengthen owner partner weight) hkeeps trivial hrecords' rfl
  rw [Stage.shares, Stage.shares, hname, List.append_nil]
  exact List.Perm.refl _

end Stages

/-- Every step of a client preserves records and obligations. -/
theorem Client.leaves_of_step {names : Finset String} {arrived : List Share} {client moved : Client}
    {shared next : SharedGraph α} (hstep : client.step originOf shared = some (moved, next))
    (hshared : shared.IsSound) (hclient : client.stage.IsSound originOf shared)
    (hrecords : Graph.Records originOf names arrived shared.toGraph) :
    client.Leaves originOf names arrived shared moved next := by
  obtain ⟨stage, calls⟩ := client
  change stage.IsSound originOf shared at hclient
  cases stage with
  | ready =>
    cases calls with
    | nil => cases hstep
    | cons call calls =>
      cases hstep
      obtain ⟨hnames, hshares, hsound⟩ := Client.begin_left originOf shared call
      refine ⟨hshared, .refl shared, hsound, names, arrived, hrecords, ?_, ?_⟩
      · rw [Client.names, hnames]
        rfl
      · rw [Client.shares, hshares]
        exact List.Perm.refl _
  | seek name purpose =>
    simp only [Client.step] at hstep
    split at hstep
    · next cell hcell =>
      cases hstep
      exact Client.leaves_of_found hcell hshared hclient hrecords calls
    · cases hstep
      exact Client.leaves_of_stage (.seek name purpose) (.inquire name purpose) calls
        hshared (.refl shared) hclient hrecords rfl (.refl _)
  | inquire name purpose =>
    cases hstep
    exact Client.leaves_of_stage (.inquire name purpose) (.create name (originOf name) purpose)
      calls hshared (.refl shared) ⟨rfl, hclient⟩ hrecords rfl (.refl _)
  | create name origin purpose =>
    cases hstep
    obtain ⟨rfl, hpurpose⟩ := hclient
    exact Client.leaves_of_create hshared hpurpose hrecords calls
  | strengthen owner partner weight =>
    cases hstep
    exact Client.leaves_of_strengthen hshared hclient hrecords calls

/-! ### Schedules -/

/-- Invariant of the system: a sound shared graph and sound program points, whose records together
with all obligations are the requested calls. -/
structure Workshop.IsConsistent (originOf : String → Origin) (calls : List Call) (w : Workshop α) :
    Prop where
  shared : w.shared.IsSound
  client {client : Client} : client ∈ w.clients → client.stage.IsSound originOf w.shared
  records : ∃ names arrived, Graph.Records originOf names arrived w.shared.toGraph ∧
    names ∪ (w.clients.flatMap Client.names).toFinset = Call.allNames calls ∧
    (arrived ++ w.clients.flatMap (Client.shares w.shared)).Perm (calls.flatMap Call.shares)

/-- The initial state satisfies the invariant. -/
theorem Workshop.isConsistent_ofCalls (calls : List (List Call)) :
    (Workshop.ofCalls (α := α) calls).IsConsistent originOf calls.flatten where
  shared := SharedGraph.isSound_empty
  client := by
    intro client hclient
    obtain ⟨own, -, rfl⟩ := List.mem_map.mp hclient
    trivial
  records := by
    refine ⟨∅, [], ?_, ?_, ?_⟩
    · have hempty : ((Workshop.ofCalls calls).shared : SharedGraph α).toGraph = .empty := by
        apply Graph.ext_find?
        intro name
        rw [SharedGraph.find?_toGraph, Graph.find?_empty]
        simp [Workshop.ofCalls]
      rw [hempty]
      exact Graph.records_empty
    · rw [Finset.empty_union, Workshop.ofCalls, List.flatMap_map, Call.allNames,
        List.flatten_eq_flatMap, List.flatMap_assoc]
      rfl
    · rw [List.nil_append, Workshop.ofCalls, List.flatMap_map, List.flatten_eq_flatMap,
        List.flatMap_assoc]
      exact List.Perm.refl _

/-- Every step preserves the invariant. -/
theorem Workshop.IsConsistent.step {calls : List Call} {w next : Workshop α}
    (h : w.IsConsistent originOf calls) (hstep : Step originOf w next) :
    next.IsConsistent originOf calls := by
  obtain @⟨shared, next, client, moved, before, after, hstep⟩ := hstep
  obtain ⟨names, arrived, hrecords, hnames, hshares⟩ := h.records
  have hleaves := Client.leaves_of_step hstep h.shared (h.client (by simp)) hrecords
  obtain ⟨names', arrived', hrecords', hnames', hshares'⟩ := hleaves.records
  -- The shares of the other clients are located by cells, whose names are unchanged.
  have hothers : ∀ others : List Client, (∀ other ∈ others, other.stage.IsSound originOf shared) →
      others.flatMap (Client.shares next) = others.flatMap (Client.shares shared) :=
    fun others hsound => List.flatMap_congr fun other hother =>
      Client.shares_eq hleaves.keeps (hsound other hother)
  have hbefore := hothers before fun other hother => h.client (by simp [hother])
  have hafter := hothers after fun other hother => h.client (by simp [hother])
  refine ⟨hleaves.isSound, ?_, names', arrived', hrecords', ?_, ?_⟩
  · intro other hother
    rcases List.mem_append.mp hother with hmem | hmem
    · exact (h.client (by simp [hmem])).mono hleaves.keeps
    · rcases List.mem_cons.mp hmem with rfl | hmem
      · exact hleaves.stage
      · exact (h.client (by simp [hmem])).mono hleaves.keeps
  · rw [← hnames]
    ext name
    have := congrArg (name ∈ ·) hnames'
    simp only [Finset.mem_union, List.mem_toFinset, eq_iff_iff] at this
    simp only [Finset.mem_union, List.mem_toFinset, List.flatMap_append, List.flatMap_cons,
      List.mem_append]
    tauto
  · refine List.Perm.trans ?_ hshares
    simp only [List.flatMap_append, List.flatMap_cons, hbefore, hafter]
    generalize before.flatMap (Client.shares shared) = first
    generalize after.flatMap (Client.shares shared) = last
    have hmiddle := hshares'.append_right (first ++ last)
    rw [List.append_assoc, List.append_assoc] at hmiddle
    have hbring := (List.perm_append_comm_assoc first (moved.shares next) last).append_left arrived'
    have hback :=
      (List.perm_append_comm_assoc (client.shares shared) first last).append_left arrived
    exact hbring.trans (hmiddle.trans hback)

/-- Every schedule preserves the invariant. -/
theorem Workshop.IsConsistent.steps {calls : List Call} {w last : Workshop α}
    (h : w.IsConsistent originOf calls) (hsteps : Steps originOf w last) :
    last.IsConsistent originOf calls := by
  induction hsteps with
  | refl => exact h
  | tail _ hstep ih => exact ih.step hstep

/-- When all clients are finished, the shared graph is that of the calls in any sequential order. -/
theorem Workshop.IsConsistent.toGraph_eq {calls order : List Call} {w : Workshop α}
    (h : w.IsConsistent originOf calls) (hfinished : w.isFinished) (horder : order.Perm calls)
    (hexact : ∀ a b, a ≠ b → Call.total s(a, b) calls ≤ 2 ^ 24) :
    w.shared.toGraph = Call.performAll originOf order := by
  obtain ⟨names, arrived, hrecords, hnames, hshares⟩ := h.records
  have hleft : ∀ client ∈ w.clients, client.names = [] ∧ client.shares w.shared = [] :=
    fun client hclient => Client.nothing_left (List.all_eq_true.mp hfinished client hclient) _
  have hnone : w.clients.flatMap Client.names = [] :=
    List.flatMap_eq_nil_iff.mpr fun client hclient => (hleft client hclient).1
  have hnone' : w.clients.flatMap (Client.shares w.shared) = [] :=
    List.flatMap_eq_nil_iff.mpr fun client hclient => (hleft client hclient).2
  rw [hnone, List.toFinset_nil, Finset.union_empty] at hnames
  rw [hnone', List.append_nil] at hshares
  obtain ⟨hnames', htotal⟩ := Call.perm_same horder.symm
  apply hrecords.eq_performAll
  · rw [hnames', hnames]
  · exact hshares.trans (horder.symm.flatMap_right Call.shares)
  · intro a b hne
    rw [htotal]
    exact hexact a b hne

/-- At every point of every schedule, no identity has two nodes, held cells are in the table, and
weights are stored on the lesser of two existing identities. When all clients are finished, the
graph is that of their calls in any sequential order. -/
theorem Workshop.nothing_lost {calls : List (List Call)} {w : Workshop α}
    (hsteps : Steps originOf (ofCalls calls) w) :
    (w.shared.cells.map (·.identity)).Nodup ∧
    (∀ node ∈ w.shared.cells, w.shared.toGraph.find? node.identity = some node) ∧
    (∀ client ∈ w.clients, ∀ cell ∈ client.stage.handles, ∃ node,
      w.shared.cells[cell]? = some node ∧ w.shared.table[node.identity]? = some cell) ∧
    (∀ name node partner weight, w.shared.toGraph.find? name = some node →
      node.partners[partner]? = some weight →
        node.identity = name ∧ name < partner ∧ 0 < weight.units ∧
          (w.shared.toGraph.find? partner).isSome) ∧
    ((∀ a b, a ≠ b → Call.total s(a, b) calls.flatten ≤ 2 ^ 24) → w.isFinished →
      ∀ order : List Call, order.Perm calls.flatten →
        w.shared.toGraph = Call.performAll originOf order) := by
  have h : w.IsConsistent originOf calls.flatten := (isConsistent_ofCalls calls).steps hsteps
  refine ⟨h.shared.nodup, ?_, ?_, ?_, ?_⟩
  · intro node hnode
    obtain ⟨cell, hcell⟩ := List.mem_iff_getElem?.mp hnode
    exact h.shared.find?_of_cell hcell
  · intro client hclient cell hcell
    obtain ⟨name, hname⟩ := (h.client hclient).handle hcell
    obtain ⟨node, hnode, rfl⟩ := SharedGraph.identity?_eq_some.mp hname
    exact ⟨node, hnode, (h.shared _ cell).mpr hname⟩
  · intro name node partner weight hnode hweight
    obtain ⟨names, arrived, hrecords, -, -⟩ := h.records
    have hwf := hrecords.isWellFormed
    exact ⟨(hwf.node hnode).1, hwf.weight ((Graph.weight?_of_find? hnode partner).trans hweight)⟩
  · intro hexact hfinished order horder
    exact h.toGraph_eq hfinished horder hexact

/-- Two clients take one step each. -/
theorem Workshop.Steps.both {start : Workshop α} {shared middle last : SharedGraph α}
    {one one' two two' : Client} (h : Steps originOf start ⟨shared, [one, two]⟩)
    (hone : one.step originOf shared = some (one', middle))
    (htwo : two.step originOf middle = some (two', last)) :
    Steps originOf start ⟨last, [one', two']⟩ :=
  .tail (.tail h (.act [] [two] hone)) (.act [one'] [] htwo)

end Steps

/-- Two clients that concurrently miss both nodes of a pair create each of them once. -/
theorem Workshop.nothing_lost_race :
    ∃ w : Workshop Float32, w.isFinished ∧ (w.shared.cells.map (·.identity)) = ["A", "B"] ∧
      Steps (fun _ => .unknown)
        (ofCalls [[.relate "A" "B" .inheritance], [.relate "A" "B" .fieldContainment]]) w ∧
      w.shared.toGraph = Call.performAll (fun _ => .unknown)
        [.relate "A" "B" .fieldContainment, .relate "A" "B" .inheritance] := by
  let calls : List (List Call) :=
    [[.relate "A" "B" .inheritance], [.relate "A" "B" .fieldContainment]]
  have hstart : Steps (α := Float32) (fun _ => .unknown) (ofCalls calls) (ofCalls calls) := .refl _
  -- Both clients begin, look up the first class, resolve its origin and create it;
  have hfirst := (((hstart.both rfl rfl).both rfl rfl).both rfl rfl).both rfl rfl
  -- then both do the same for the second class and add the weight.
  have hlast := (((hfirst.both rfl rfl).both rfl rfl).both rfl rfl).both rfl rfl
  have hexact : ∀ a b, a ≠ b → Call.total s(a, b) calls.flatten ≤ 2 ^ 24 := by
    intro a b _
    simp only [calls, List.flatten_cons, List.flatten_nil, List.cons_append, List.nil_append,
      Call.total, Call.units, List.map_cons, List.map_nil, List.sum_cons, List.sum_nil]
    split_ifs <;> decide
  obtain ⟨-, -, -, -, hgraph⟩ := nothing_lost hlast
  exact ⟨_, rfl, rfl, hlast, hgraph hexact rfl _ (List.Perm.swap _ _ [])⟩

end ClassAtlas
