import ClassAtlas.Scan.Run
import Mathlib

/-!
# Courses of actions

The followers of an action are determined by the tree and the chunk size alone, not by the progress.
The course of an action is the action with all of its transitive followers; a poll of a set cancel
flag only removes followers. Specification: `SPEC_FULL.md` §4.3, lines 49–50, and §10.7, lines
192–193.
-/

namespace ClassAtlas.Scan

namespace Action

/-- Followers of an action in its own worker. -/
def next (tree : FileTree) (chunkSize : Nat) : Action → Worker
  | .enter (.archive _) => []
  | .enter (.directory path) => directoryActions tree path
  | .openArchive path => archiveActions tree chunkSize path
  | .handOut _ => []
  | .look finding => [.settle finding]
  | .settle (.decoded file) => [.confirm file]
  | .settle _ => []
  | .confirm file => insertionActions file
  | .ensure _ => []
  | .relate _ => []
  | .count => []

/-- Workers spawned by an action. -/
def spawned : Action → List Worker
  | .enter (.archive path) => [[.openArchive path]]
  | .handOut task => [Worker.ofTask task]
  | _ => []

/-- All followers of an action. -/
def followers (tree : FileTree) (chunkSize : Nat) (action : Action) : List Action :=
  action.next tree chunkSize ++ action.spawned.flatten

/-- Effect of an action on the progress. -/
def apply {α : Type} [Zero α] (originOf : String → Origin) (progress : Progress α) :
    Action → Progress α
  | .settle (.decoded _) => progress
  | .settle finding => progress.absorb originOf finding
  | .ensure name => { progress with graph := progress.graph.ensure originOf name }
  | .relate fact => { progress with graph := progress.graph.addFact originOf fact }
  | .count =>
    { progress with counts.classesParsed := progress.counts.classesParsed + 1 }
  | _ => progress

/-- Termination measure of courses. -/
def rank : Action → Nat
  | .enter _ => 6
  | .openArchive _ => 5
  | .handOut _ => 4
  | .look _ => 3
  | .settle _ => 2
  | .confirm _ => 1
  | .ensure _ => 0
  | .relate _ => 0
  | .count => 0

/-- Followers have a smaller rank. -/
theorem rank_lt {tree : FileTree} {chunkSize : Nat} {action follower : Action}
    (h : follower ∈ action.followers tree chunkSize) : follower.rank < action.rank := by
  unfold followers at h
  cases action with
  | enter root =>
    cases root with
    | archive path =>
      obtain rfl : follower = .openArchive path := by simpa [next, spawned] using h
      simp [rank]
    | directory path =>
      simp only [next, spawned, directoryActions, List.flatten_nil, List.append_nil,
        List.mem_map] at h
      obtain ⟨met, -, rfl⟩ := h
      cases met <;> simp [rank, encounterAction]
  | openArchive path =>
    simp only [next, spawned, archiveActions, List.flatten_nil, List.append_nil] at h
    split at h
    · obtain rfl := List.mem_singleton.mp h
      simp [rank]
    · obtain ⟨chunk, -, rfl⟩ := List.mem_map.mp h
      simp [rank]
  | handOut task =>
    simp only [next, spawned, Worker.ofTask, List.nil_append, List.flatten_singleton,
      List.mem_map] at h
    obtain ⟨finding, -, rfl⟩ := h
    simp [rank]
  | look finding =>
    obtain rfl : follower = .settle finding := by simpa [next, spawned] using h
    simp [rank]
  | settle finding =>
    cases finding with
    | decoded file =>
      obtain rfl : follower = .confirm file := by simpa [next, spawned] using h
      simp [rank]
    | ignored => exact absurd h List.not_mem_nil
    | entryFailed error => exact absurd h List.not_mem_nil
    | rootFailed root cause => exact absurd h List.not_mem_nil
  | confirm file =>
    simp only [next, spawned, insertionActions, List.flatten_nil, List.append_nil,
      List.cons_append, List.mem_cons, List.mem_append, List.mem_map, List.not_mem_nil,
      or_false] at h
    rcases h with rfl | ⟨fact, -, rfl⟩ | rfl
    · simp [rank]
    · simp [rank]
    · simp [rank]
  | ensure name => exact absurd h List.not_mem_nil
  | relate fact => exact absurd h List.not_mem_nil
  | count => exact absurd h List.not_mem_nil

/-- Course of an action: the action and its transitive followers. -/
def course (tree : FileTree) (chunkSize : Nat) (action : Action) : List Action :=
  action :: (action.followers tree chunkSize).attach.flatMap fun follower =>
    course tree chunkSize follower.val
termination_by action.rank
decreasing_by exact rank_lt follower.property

/-- Unfolding of a course. -/
theorem course_eq (tree : FileTree) (chunkSize : Nat) (action : Action) :
    action.course tree chunkSize =
      action :: (action.followers tree chunkSize).flatMap (course tree chunkSize) := by
  rw [course, List.flatMap_subtype]
  · rw [List.unattach_attach]
  · intro follower hfollower
    rfl

/-! ### Semantics of one action -/

section Perform

variable {α : Type} [Zero α] (originOf : String → Origin)

/-- Without cancellation, an action has its followers and its effect. -/
theorem perform_go (tree : FileTree) (chunkSize : Nat) (rest : Worker) (progress : Progress α)
    (action : Action) :
    action.perform tree originOf chunkSize false rest progress =
      { rest := action.next tree chunkSize ++ rest
        workers := action.spawned
        progress := action.apply originOf progress } := by
  cases action with
  | enter root => cases root <;> rfl
  | settle finding => cases finding <;> rfl
  | _ => rfl

/-- After a cancellation, an action has the same effect, spawns no workers and retains a sublist of
the actions. -/
theorem perform_stop (tree : FileTree) (chunkSize : Nat) (rest : Worker) (progress : Progress α)
    (action : Action) :
    let effect := action.perform tree originOf chunkSize true rest progress
    effect.rest.Sublist (action.next tree chunkSize ++ rest) ∧ effect.workers = [] ∧
      effect.progress = action.apply originOf progress := by
  intro effect
  have hrest : ∀ first : Worker, rest.Sublist (first ++ rest) :=
    fun first => List.sublist_append_right first rest
  cases action with
  | enter root => cases root <;> exact ⟨List.nil_sublist _, rfl, rfl⟩
  | openArchive path => exact ⟨List.nil_sublist _, rfl, rfl⟩
  | handOut task => exact ⟨List.nil_sublist _, rfl, rfl⟩
  | look finding => exact ⟨List.nil_sublist _, rfl, rfl⟩
  | settle finding => cases finding <;> exact ⟨List.Sublist.refl _, rfl, rfl⟩
  | confirm file => exact ⟨hrest _, rfl, rfl⟩
  | ensure name => exact ⟨List.Sublist.refl _, rfl, rfl⟩
  | relate fact => exact ⟨List.Sublist.refl _, rfl, rfl⟩
  | count => exact ⟨List.Sublist.refl _, rfl, rfl⟩

/-- The remaining actions and the abandoned actions are a permutation of those without
cancellation. -/
theorem perform_left (tree : FileTree) (chunkSize : Nat) (stop : Bool) (rest : Worker)
    (progress : Progress α) (action : Action) :
    let effect := action.perform tree originOf chunkSize stop rest progress
    effect.progress = action.apply originOf progress ∧
      ∃ dropped, (stop = false → dropped = []) ∧
        (action.followers tree chunkSize ++ rest).Perm
          (effect.rest ++ effect.workers.flatten ++ dropped) := by
  intro effect
  have hrest : (action.followers tree chunkSize ++ rest).Perm
      (action.next tree chunkSize ++ rest ++ action.spawned.flatten) := by
    rw [followers, List.append_assoc, List.append_assoc]
    exact List.perm_append_comm.append_left _
  cases stop with
  | false =>
    have heffect : effect = _ := perform_go originOf tree chunkSize rest progress action
    rw [heffect]
    exact ⟨rfl, [], fun _ => rfl, by rw [List.append_nil]; exact hrest⟩
  | true =>
    obtain ⟨hsub, hworkers, hprogress⟩ := perform_stop originOf tree chunkSize rest progress action
    obtain ⟨dropped, hdropped⟩ := hsub.exists_perm_append
    -- No worker is spawned, so the actions of its would-be workers are abandoned as well.
    refine ⟨hprogress, dropped ++ action.spawned.flatten, fun h => Bool.noConfusion h, ?_⟩
    rw [hworkers, List.flatten_nil, List.append_nil, ← List.append_assoc]
    exact hrest.trans (hdropped.append_right _)

end Perform

end Action

end ClassAtlas.Scan
