import ClassAtlas.Origin.Resolver
import ClassAtlas.Scan.Progress

/-!
# Scan scheduler

Control surface of a scan: single-use start, cooperative cancellation, and a blocking wait. A scan
that is cancelled before its coordinator runs ends without any effect. Specification: `SPEC_FULL.md`
§4.3, lines 48–51, §5, lines 65 and 68, and §10.4, lines 146–149.

Thread creation is outside of the model. The worker pool, the coordinator thread and the layout
thread are assumed to be created, so the failures to do so (§10.2, lines 130–131) do not occur.
-/

namespace ClassAtlas

/-- Scan configuration: the size of the worker pool and the number of archive entries per task. -/
structure ScanConfig where
  workers : Nat
  chunkSize : Nat := 64
  deriving DecidableEq, Repr

/-- Default worker count: three workers per unit of available parallelism, where a host that does
not report it counts as one unit (§4.3, line 49; §10.4, lines 147–148). -/
def ScanConfig.defaultWorkers (cores : Option { count : Nat // 0 < count }) : Nat :=
  3 * cores.elim 1 Subtype.val

/-- The default worker count is positive on every host. -/
theorem ScanConfig.defaultWorkers_pos (cores : Option { count : Nat // 0 < count }) :
    0 < defaultWorkers cores := by
  cases cores with
  | none => decide
  | some cores => exact Nat.mul_pos (by decide) cores.property

/-- Misuse of a scheduler. The failures to build the worker pool and to spawn the coordinator
(§10.2) have no constructor, since thread creation is assumed to succeed. -/
inductive SchedulerError where
  | alreadyStarted
  deriving DecidableEq, Repr

/-- Text of a scheduler error. -/
def SchedulerError.message : SchedulerError → String
  | .alreadyStarted => "scheduler already started; a scanner instance cannot be reused"

/-- Scheduler with its state and its cancel flag. -/
structure Scheduler where
  roots : List Root
  config : ScanConfig
  state : ScanState := .idle
  cancelRequested : Bool := false
  deriving DecidableEq, Repr

namespace Scheduler

variable {α : Type}

/-- Transition from `idle` to `scanning`, assuming that pool and coordinator are created; every
other state refuses. -/
def start (scheduler : Scheduler) : Except SchedulerError Scheduler :=
  if scheduler.state = .idle then .ok { scheduler with state := .scanning }
  else .error .alreadyStarted

/-- Set the cancel flag. -/
def cancel (scheduler : Scheduler) : Scheduler := { scheduler with cancelRequested := true }

/-- Run a started scan to its end without interleaving. Set beforehand, the cancel flag ends it
without any effect. -/
def wait [Zero α] (scheduler : Scheduler) (tree : FileTree) (originOf : String → Origin)
    (progress : Scan.Progress α) : Scheduler × Scan.Progress α :=
  if scheduler.state = .scanning then
    if scheduler.cancelRequested then ({ scheduler with state := .cancelled }, progress)
    else
      ({ scheduler with state := .completed },
        progress.absorbAll originOf
          (Scan.tasks tree scheduler.config.chunkSize scheduler.roots))
  else (scheduler, progress)

end Scheduler

end ClassAtlas
