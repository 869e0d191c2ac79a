import ClassAtlas.Proofs.Scan.Interruption
import ClassAtlas.Proofs.Scan.Sequence
import Mathlib

/-!
# Warnings of a scan

There is one warning for each failed entry and each failed root. The warnings of a run are a
sub-multiset of those of the classpath, and all of them when the scan is completed. Specification:
`SPEC_FULL.md` §4.3, line 51, §7, line 78, and §10.2, lines 126–127.
-/

namespace ClassAtlas.Scan

/-- Warning of a finding. -/
def Finding.warning? : Finding → Option Warning
  | .entryFailed error => some (.unreadableEntry error)
  | .rootFailed root cause => some (.unreadableRoot root cause)
  | _ => none

/-- Warning of an action. -/
def Action.warning? : Action → Option Warning
  | .settle finding => finding.warning?
  | _ => none

/-- Warnings of a classpath. -/
def warnings (tree : FileTree) (roots : List Root) : List Warning :=
  (roots.flatMap (rootFindings tree)).filterMap Finding.warning?

section Actions

variable {α : Type} [Zero α] (originOf : String → Origin)

/-- Actions append their warnings. -/
theorem Action.warnings_foldl_apply (log : List Action) (progress : Progress α) :
    (log.foldl (apply originOf) progress).warnings =
      progress.warnings ++ log.filterMap warning? := by
  induction log generalizing progress with
  | nil => simp
  | cons action log ih =>
    have hstep : (apply originOf progress action).warnings =
        progress.warnings ++ action.warning?.toList := by
      cases action with
      | settle finding =>
        cases finding <;> simp [apply, warning?, Finding.warning?, Progress.absorb]
      | _ => simp [apply, warning?]
    rw [List.foldl_cons, ih, hstep, List.append_assoc]
    cases hwarning : action.warning? <;> simp [hwarning]

end Actions

/-- The warnings of the agenda are those of the classpath. -/
theorem filterMap_warning_agenda (tree : FileTree) (chunkSize : Nat) (roots : List Root) :
    (agenda tree chunkSize roots).filterMap Action.warning? = warnings tree roots := by
  have hsettlement : (agenda tree chunkSize roots).filterMap Action.warning? =
      ((agenda tree chunkSize roots).filter Action.isSettlement).filterMap Action.warning? := by
    rw [List.filterMap_filter]
    apply List.filterMap_congr
    intro action _
    cases action <;> rfl
  have hcourse : ∀ finding : Finding,
      ((Action.settle finding).course tree chunkSize).filterMap Action.warning? =
        finding.warning?.toList := by
    intro finding
    cases hclass : finding.class? with
    | none =>
      rw [Action.course_settle_of_none tree chunkSize hclass]
      cases hwarning : finding.warning? <;> simp [Action.warning?, hwarning]
    | some file =>
      obtain rfl := Finding.eq_decoded hclass
      have hinsertion : (insertionActions file).filterMap Action.warning? = [] := by
        rw [List.filterMap_eq_nil_iff]
        intro action haction
        have hins := List.filter_eq_self.mp (Action.filter_insertionActions file) action haction
        cases action <;> first | rfl | cases hins
      rw [Action.course_settle_decoded]
      exact hinsertion
  rw [hsettlement, filter_agenda, List.filterMap_flatMap, warnings,
    List.filterMap_eq_flatMap_toList]
  exact List.flatMap_congr fun finding _ => hcourse finding

/-- The number of warnings of some actions is the number of failures they count. -/
theorem Action.length_filterMap_warning (log : List Action) :
    (log.filterMap warning?).length = log.countP isEntryFailure + log.countP isRootFailure := by
  induction log with
  | nil => rfl
  | cons action log ih =>
    rw [List.filterMap_cons, List.countP_cons, List.countP_cons]
    cases action with
    | settle finding =>
      cases finding <;>
        simp only [warning?, Finding.warning?, isEntryFailure, isRootFailure,
          Finding.isEntryFailure, Finding.isRootFailure, List.length_cons, ih] <;> simp <;> omega
    | _ => exact ih

/-- The classpath has one warning for each failed entry and each failed root. -/
theorem length_warnings (tree : FileTree) (roots : List Root) :
    (warnings tree roots).length =
      (roots.map (rootFailures tree)).sum + roots.countP (isUnopenable tree) := by
  obtain ⟨-, hentries, hroots⟩ := countP_agenda tree 0 roots
  rw [← filterMap_warning_agenda tree 0, Action.length_filterMap_warning, hentries, hroots]

/-- Sequential execution appends the warnings of the classpath in order. -/
theorem warnings_absorbAll {α : Type} [Zero α] (originOf : String → Origin) (tree : FileTree)
    (chunkSize : Nat) (roots : List Root) (progress : Progress α) :
    (progress.absorbAll originOf (tasks tree chunkSize roots)).warnings =
      progress.warnings ++ warnings tree roots := by
  rw [absorbAll_eq, Action.warnings_foldl_apply, filterMap_warning_agenda]

/-! ### Runs -/

namespace Run

variable {α : Type} [Zero α] {tree : FileTree} {originOf : String → Origin} {roots : List Root}
  {config : ScanConfig} {events : List Event} {run : Run α}

/-- The warnings of a run are a sub-multiset of those of the classpath. -/
theorem Steps.warnings_subperm (h : Steps tree originOf (Run.idle roots config) events run) :
    run.progress.warnings.Subperm (warnings tree roots) := by
  have hsound := isSound_of_steps h
  by_cases hidle : run.scheduler.state = .idle
  · rw [(hsound.idle hidle).1]
    exact List.nil_subperm
  · obtain ⟨log, ⟨hprogress, dropped, -, hperm⟩, -⟩ := hsound.begun hidle
    rw [hsound.config, hsound.roots, List.append_assoc] at hperm
    rw [hprogress, Action.warnings_foldl_apply, List.nil_append,
      ← filterMap_warning_agenda tree config.chunkSize]
    refine List.Subperm.trans (List.Sublist.subperm ?_) (hperm.filterMap _).subperm
    rw [List.filterMap_append]
    exact List.sublist_append_left _ _

/-- The number of warnings of a run is the number of its failed entries and roots. -/
theorem Steps.length_warnings (h : Steps tree originOf (Run.idle roots config) events run) :
    run.progress.warnings.length =
      run.progress.counts.entriesFailed + run.progress.counts.rootsFailed := by
  have hsound := isSound_of_steps h
  by_cases hidle : run.scheduler.state = .idle
  · rw [(hsound.idle hidle).1]
    rfl
  · obtain ⟨log, ⟨hprogress, -⟩, -⟩ := hsound.begun hidle
    rw [hprogress, Action.warnings_foldl_apply, Action.counts_foldl_apply, List.nil_append,
      Action.length_filterMap_warning]
    simp

/-- The warnings of a completed scan are those of the classpath. -/
theorem Steps.warnings_perm (h : Steps tree originOf (Run.idle roots config) events run)
    (hcompleted : run.scheduler.state = .completed) :
    run.progress.warnings.Perm (warnings tree roots) := by
  refine h.warnings_subperm.perm_of_length_le ?_
  rw [Scan.length_warnings, h.length_warnings, (h.isScanOf hcompleted).counts]

end Run

end ClassAtlas.Scan
