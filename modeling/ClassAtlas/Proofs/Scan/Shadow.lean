import ClassAtlas.Proofs.Graph.Recentred
import ClassAtlas.Proofs.Scan.Interruption
import Mathlib

/-!
# Independence from positions

A scan does not depend on the positions of nodes, which the layout thread may change meanwhile.
Simulation: the scan over the graph with all positions zero takes the same steps.
Specification: `SPEC_FULL.md` §5, lines 65–67.
-/

namespace ClassAtlas.Scan

variable {α : Type} [Zero α] {tree : FileTree} {originOf : String → Origin}

/-- Equality of progress up to positions, which are zero in the shadow, and up to warnings. -/
structure Progress.IsShadowOf (shadow progress : Progress α) : Prop where
  graph : shadow.graph = progress.graph.recentred
  counts : shadow.counts = progress.counts

/-- If the shadow is the result of a classpath, so is the progress with recentred positions. -/
theorem Progress.IsShadowOf.isScanOf {roots : List Root} {shadow progress : Progress α}
    (h : shadow.IsShadowOf progress) (hscan : shadow.IsScanOf tree originOf roots) :
    ({ progress with graph := progress.graph.recentred }).IsScanOf tree originOf roots where
  performed := h.graph ▸ hscan.performed
  sameShape := h.graph ▸ hscan.sameShape
  graph := h.graph ▸ hscan.graph
  counts := h.counts ▸ hscan.counts
  accounted := h.counts ▸ hscan.accounted

/-- The effect of an action does not depend on positions. -/
theorem Action.isShadowOf_apply {shadow progress : Progress α} (h : shadow.IsShadowOf progress)
    (action : Action) :
    (action.apply originOf shadow).IsShadowOf (action.apply originOf progress) := by
  obtain ⟨hgraph, hcounts⟩ := h
  cases action with
  | settle finding =>
    cases finding with
    | ignored => exact ⟨hgraph, hcounts⟩
    | decoded file => exact ⟨hgraph, hcounts⟩
    | entryFailed error =>
      exact ⟨hgraph, by simp [Action.apply, Progress.absorb, hcounts]⟩
    | rootFailed root cause =>
      exact ⟨hgraph, by simp [Action.apply, Progress.absorb, hcounts]⟩
  | ensure name =>
    refine ⟨?_, hcounts⟩
    rw [Action.apply, Action.apply, hgraph, Graph.recentred_ensure]
  | relate fact =>
    refine ⟨?_, hcounts⟩
    rw [Action.apply, Action.apply, hgraph, Graph.addFact, Graph.addFact, Graph.recentred_relate]
  | count => exact ⟨hgraph, by simp [Action.apply, hcounts]⟩
  | _ => exact ⟨hgraph, hcounts⟩

/-- The followers of an action do not depend on the progress. -/
theorem Action.perform_eq (tree : FileTree) (originOf : String → Origin) (chunkSize : Nat)
    (stop : Bool) (rest : Worker) (progress other : Progress α) (action : Action) :
    let effect := action.perform tree originOf chunkSize stop rest progress
    action.perform tree originOf chunkSize stop rest other =
      { rest := effect.rest
        workers := effect.workers
        progress := action.apply originOf other } := by
  cases action with
  | enter root => cases root <;> cases stop <;> rfl
  | settle finding => cases finding <;> rfl
  | handOut task => cases stop <;> rfl
  | _ => rfl

namespace Run

/-- Equality of runs up to positions, which are zero in the shadow, and up to warnings. -/
structure IsShadowOf (shadow run : Run α) : Prop where
  scheduler : shadow.scheduler = run.scheduler
  workers : shadow.workers = run.workers
  progress : shadow.progress.IsShadowOf run.progress

/-- A worker step is matched by one of the shadow. -/
theorem IsShadowOf.worked {shadow run next : Run α} (h : shadow.IsShadowOf run)
    (hstep : Step tree originOf run .worked next) :
    ∃ later, Step tree originOf shadow .worked later ∧ later.IsShadowOf next := by
  obtain ⟨hscheduler, hworkers, hprogress⟩ := h
  cases hstep with
  | @work action rest effect before after hsplit heffect =>
    have hshadow := action.perform_eq tree originOf
      run.scheduler.config.chunkSize run.scheduler.cancelRequested rest run.progress shadow.progress
    have hown := action.perform_eq tree originOf
      run.scheduler.config.chunkSize run.scheduler.cancelRequested rest run.progress run.progress
    simp only [heffect] at hshadow hown
    rw [← hscheduler] at hshadow
    refine ⟨_, .work before after (hworkers.trans hsplit) hshadow, hscheduler, rfl, ?_⟩
    rw [hown]
    exact action.isShadowOf_apply hprogress
  | finish hscanning hdone =>
    refine ⟨_, .finish (hscheduler ▸ hscanning) (hworkers ▸ hdone), ?_, hworkers, hprogress⟩
    rw [hscheduler]

end Run

end ClassAtlas.Scan
