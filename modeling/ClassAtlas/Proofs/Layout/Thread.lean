import ClassAtlas.Layout.Thread
import ClassAtlas.Proofs.Graph.Growth
import Mathlib

/-!
# Liveness of the layout thread

From every program point, a layout thread whose channel is disconnected can terminate, and an atomic
tick is one of its interleavings. Specification: `SPEC_FULL.md` §4.4, line 62, §5, line 68, and
§10.7, lines 192–193.
-/

namespace ClassAtlas

variable {α : Type} [Scalar α]

namespace LayoutRun

/-- Reflexive transitive closure of the steps of a layout thread. -/
abbrev Steps : LayoutRun α → LayoutRun α → Prop := Relation.ReflTransGen Step

/-- A terminated thread has no step. -/
theorem Step.stage_ne {run next : LayoutRun α} (h : run.Step next) : run.stage ≠ .ended := by
  cases h with
  | skip hstage => simp [hstage]
  | list hstage => simp [hstage]
  | push hstage => simp [hstage]
  | pull hstage => simp [hstage]
  | move hstage => simp [hstage]
  | count hstage => simp [hstage]
  | finish hstage => simp [hstage]

/-- No step of the thread changes its channel. -/
theorem Step.dismissed {run next : LayoutRun α} (h : run.Step next) :
    next.dismissed = run.dismissed := by
  cases h <;> rfl

/-- The thread applies its remaining displacements. -/
theorem steps_move (engine : LayoutEngine) (g : Graph α) (moves : List (String × Vec3 α))
    (dismissed : Bool) :
    Steps ⟨engine, g, .moving moves, dismissed⟩
      ⟨engine, moves.foldl (fun g move => g.moveBy move.1 move.2) g, .moving [], dismissed⟩ := by
  induction moves generalizing g with
  | nil => exact .refl
  | cons move rest ih => exact .head (.move rfl) (ih _)

/-- The thread can terminate. -/
def CanEnd (run : LayoutRun α) : Prop := ∃ last, run.Steps last ∧ last.stage = .ended

/-- Termination is reachable through any steps. -/
theorem CanEnd.of_steps {run next : LayoutRun α} (h : next.CanEnd) (hsteps : run.Steps next) :
    run.CanEnd := by
  obtain ⟨last, hlast, hend⟩ := h
  exact ⟨last, hsteps.trans hlast, hend⟩

variable (engine : LayoutEngine) (g : Graph α)

private theorem canEnd_resting : CanEnd ⟨engine, g, .resting, true⟩ :=
  ⟨_, .single (.finish rfl rfl), rfl⟩

private theorem canEnd_moving (moves : List (String × Vec3 α)) :
    CanEnd ⟨engine, g, .moving moves, true⟩ :=
  (canEnd_resting _ _).of_steps ((steps_move engine g moves true).tail (.count rfl))

private theorem canEnd_pulling (listed : List String) :
    CanEnd ⟨engine, g, .pulling listed, true⟩ := by
  have hstep : Step ⟨engine, g, .pulling listed, true⟩
      ⟨engine, g, if engine.stopped then .resting else .moving [], true⟩ :=
    .pull rfl (List.nil_sublist _) (by simp)
  refine CanEnd.of_steps ?_ (.single hstep)
  cases engine.stopped with
  | true => exact canEnd_resting engine g
  | false => exact canEnd_moving engine g []

private theorem canEnd_pushing (listed : List String) :
    CanEnd ⟨engine, g, .pushing listed, true⟩ := by
  have hstep : Step ⟨engine, g, .pushing listed, true⟩ _ := .push rfl
  refine CanEnd.of_steps ?_ (.single hstep)
  cases engine.stopped with
  | true => exact canEnd_resting engine g
  | false => exact canEnd_pulling engine g listed

/-- A thread with a disconnected channel can terminate from every program point. -/
theorem canEnd_of_dismissed (stage : LayoutStage α) : CanEnd ⟨engine, g, stage, true⟩ := by
  cases stage with
  | resting => exact canEnd_resting engine g
  | pushing listed => exact canEnd_pushing engine g listed
  | pulling listed => exact canEnd_pulling engine g listed
  | moving moves => exact canEnd_moving engine g moves
  | ended => exact ⟨_, .refl, rfl⟩

end LayoutRun

/-! ### Stop flag -/

namespace LayoutEngine

/-- A tick preserves the stop flag. -/
theorem stopped_tick (engine : LayoutEngine) (g : Graph α) :
    (engine.tick g).1.stopped = engine.stopped := by
  unfold tick
  split <;> rfl

/-- Ticks preserve the stop flag. -/
theorem stopped_run (engine : LayoutEngine) (g : Graph α) (count : Nat) :
    (engine.run g count).1.stopped = engine.stopped := by
  induction count generalizing engine g with
  | zero => rfl
  | succ count ih => exact (ih _ _).trans (engine.stopped_tick g)

/-- A stopped engine does not tick. -/
theorem run_of_stopped {engine : LayoutEngine} (h : engine.stopped = true) (g : Graph α)
    (count : Nat) : engine.run g count = (engine, g) := by
  induction count with
  | zero => rfl
  | succ count ih =>
    have htick : engine.tick g = (engine, g) := by simp [tick, h]
    rw [run, htick]
    exact ih

end LayoutEngine

/-! ### Atomic ticks -/

namespace Layout

/-- Translations of the displaced nodes of a list. -/
def Displacements.moves (displacements : Displacements α) (names : List String) :
    List (String × Vec3 α) :=
  names.filterMap fun name =>
    if isStill (displacements.at name) then none else some (name, displacements.at name)

/-- Listed translations are not zero. -/
theorem Displacements.isStill_of_mem_moves {displacements : Displacements α} {names : List String}
    {move : String × Vec3 α} (h : move ∈ displacements.moves names) : isStill move.2 = false := by
  obtain ⟨name, -, hname⟩ := List.mem_filterMap.mp h
  split at hname
  · cases hname
  · next hstill =>
    obtain ⟨⟩ := hname
    exact Bool.eq_false_iff.mpr hstill

/-- The translated nodes are a sublist of the given ones. -/
theorem Displacements.moves_sublist (displacements : Displacements α) (names : List String) :
    ((displacements.moves names).map Prod.fst).Sublist names := by
  induction names with
  | nil => exact List.Sublist.refl _
  | cons name names ih =>
    rw [moves, List.filterMap_cons]
    split
    · exact ih.cons name
    · next move hmove =>
      split at hmove
      · cases hmove
      · obtain ⟨⟩ := hmove
        exact ih.cons_cons name

/-- Each node is translated at most once. -/
theorem Displacements.find?_foldl_moves (displacements : Displacements α) {names : List String}
    (hnodup : names.Nodup) (g : Graph α) (name : String) :
    ((displacements.moves names).foldl (fun g move => g.moveBy move.1 move.2) g).find? name =
      if name ∈ names then
        (g.find? name).map fun node =>
          if isStill (displacements.at name) then node else node.moveBy (displacements.at name)
      else g.find? name := by
  induction names generalizing g with
  | nil => rfl
  | cons first names ih =>
    obtain ⟨hfirst, hrest⟩ := List.nodup_cons.mp hnodup
    rw [moves, List.filterMap_cons]
    by_cases hname : name = first
    · subst hname
      by_cases hstill : isStill (displacements.at name)
      · simp only [hstill, if_true]
        refine (ih hrest g).trans ?_
        simp [hfirst]
      · simp only [hstill]
        refine (ih hrest _).trans ?_
        simp [hfirst, Graph.moveBy, Graph.find?_modify]
    · have hmoved : ∀ delta, (g.moveBy first delta).find? name = g.find? name := by
        intro delta
        rw [Graph.moveBy, Graph.find?_modify, if_neg (Ne.symm hname)]
      by_cases hstill : isStill (displacements.at first)
      · simp only [hstill, if_true]
        refine (ih hrest g).trans ?_
        simp [hname]
      · simp only [hstill]
        refine (ih hrest _).trans ?_
        simp [hname, hmoved]

end Layout

namespace LayoutRun

/-- An atomic tick under any choices is an interleaving of the thread. -/
theorem steps_tickWith {originOf : String → Origin} {g : Graph α} (hg : g.IsWellFormed originOf)
    {engine : LayoutEngine} (hgo : engine.stopped = false) (choices : Layout.Choices α) :
    Steps ⟨engine, g, .resting, false⟩
      ⟨(engine.tickWith choices g).1, (engine.tickWith choices g).2, .resting, false⟩ := by
  by_cases hfew : g.nodeCount < 2
  · rw [LayoutEngine.tickWith_of_few engine choices hfew]
  · let names := g.nodeList.map (·.identity)
    let displacements :=
      Layout.displacements choices.directions choices.split (choices.order g.nodeList) g
    have hmoved : (displacements.moves names).foldl (fun g move => g.moveBy move.1 move.2) g =
        (engine.tickWith choices g).2 := by
      have hnodup : names.Nodup := List.pairwise_map.mpr hg.identity_ne
      have htick : (engine.tickWith choices g).2 = Layout.relaxWith choices.directions choices.split
          (choices.order g.nodeList) g := by
        simp [LayoutEngine.tickWith, hfew, hgo]
      apply Graph.ext_find?
      intro name
      rw [htick, displacements.find?_foldl_moves hnodup, Graph.find?_relaxWith]
      cases hnode : g.find? name with
      | none => simp
      | some node =>
        obtain ⟨rfl, -⟩ := hg.node hnode
        have hname : node.identity ∈ names :=
          List.mem_map.mpr ⟨node, Graph.mem_nodeList.mpr ⟨_, hnode⟩, rfl⟩
        rw [if_pos hname]
        rfl
    have hlist : Step ⟨engine, g, .resting, false⟩ _ :=
      .list rfl rfl (Nat.not_lt.mp hfew) (List.Perm.refl names)
    have hpush : Step ⟨engine, g, .pushing names, false⟩ _ := .push rfl
    have hpull : Step ⟨engine, g, .pulling names, false⟩ _ :=
      .pull rfl (displacements.moves_sublist names) fun move =>
        Layout.Displacements.isStill_of_mem_moves
    rw [if_neg (by simp [hgo])] at hpush hpull
    have hmove := steps_move engine g (displacements.moves names) false
    rw [hmoved] at hmove
    have hcount : Step ⟨engine, (engine.tickWith choices g).2, .moving [], false⟩ _ := .count rfl
    have hticks : (engine.tickWith choices g).1 = { engine with ticks := engine.ticks + 1 } := by
      simp [LayoutEngine.tickWith, hfew, hgo]
    rw [hticks]
    exact .head hlist (.head hpush (.head hpull (hmove.tail hcount)))

/-- Consecutive atomic ticks are an interleaving of the thread. -/
theorem steps_run {originOf : String → Origin} {g : Graph α} (hg : g.IsWellFormed originOf)
    {engine : LayoutEngine} (hgo : engine.stopped = false) (count : Nat) :
    Steps ⟨engine, g, .resting, false⟩
      ⟨(engine.run g count).1, (engine.run g count).2, .resting, false⟩ := by
  induction count generalizing engine g with
  | zero => exact .refl
  | succ count ih =>
    have hstopped : (engine.tick g).1.stopped = false := (engine.stopped_tick g).trans hgo
    exact (steps_tickWith hg hgo .byName).trans (ih (hg.tick engine) hstopped)

end LayoutRun

end ClassAtlas
