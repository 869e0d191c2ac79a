import ClassAtlas.Scan.Scheduler

/-!
# Scan runs

Small-step semantics of a scan: worker threads with a shared cancel flag. The coordinator enumerates
the roots and spawns tasks; other workers open archives and decode entries. The flag is polled
before each root, archive, chunk and entry, and between the decoding and the insertion of a class;
an insertion is not interrupted. The scan ends when all workers are finished, and the flag then
decides between `completed` and `cancelled`.

Every poll and every mutation is a step of its own, interleaved arbitrarily with the caller's. The
final poll and the change of state are one step: neither a start nor the return of a wait can fall
between them, so a cancellation there is indistinguishable from a later one. Specification:
`SPEC_FULL.md` §4.3, lines 49–51, §5, line 65, and §10.7, lines 192–193.
-/

namespace ClassAtlas.Scan

/-- Action of a worker. `enter`, `openArchive`, `handOut`, `look` and `confirm` poll the cancel
flag; `settle` accounts for a finding; `ensure`, `relate` and `count` insert a decoded class. -/
inductive Action where
  | enter (root : Root)
  | openArchive (path : String)
  | handOut (task : Task)
  | look (finding : Finding)
  | settle (finding : Finding)
  | confirm (file : ClassFile)
  | ensure (name : String)
  | relate (fact : Fact)
  | count

/-- Remaining actions of a worker in order. -/
abbrev Worker := List Action

/-- Worker of a task. -/
def Worker.ofTask (task : Task) : Worker := task.map .look

/-- Coordinator action for an item of a directory walk. -/
def encounterAction (root : String) : Classpath.Encounter → Action
  | .classFile file => .handOut [readFound root file]
  | .obstacle => .look (obstacleFinding root)

/-- Coordinator actions for a directory. -/
def directoryActions (tree : FileTree) (path : String) : Worker :=
  (Classpath.search tree path).map (encounterAction path)

/-- Actions for an archive: its chunks, or the failure to open it. -/
def archiveActions (tree : FileTree) (chunkSize : Nat) (path : String) : Worker :=
  match Archive.openAt tree path with
  | .error cause => [.settle (.rootFailed path cause)]
  | .ok archive =>
    (chunks archive.entries.length chunkSize).map fun chunk =>
      .handOut (chunkTask path archive chunk)

/-- Actions that insert a class. -/
def insertionActions (file : ClassFile) : Worker :=
  .ensure file.externalName :: file.facts.map .relate ++ [.count]

/-- Effect of an action: the remaining actions of its worker, spawned workers, and the progress. -/
structure Effect (α : Type) where
  rest : Worker
  workers : List Worker := []
  progress : Progress α

variable {α : Type}

/-- Perform an action. A poll of a set flag abandons the remaining actions of the worker; the poll
before an insertion abandons that insertion only. -/
def Action.perform [Zero α] (tree : FileTree) (originOf : String → Origin) (chunkSize : Nat)
    (stop : Bool) (rest : Worker) (progress : Progress α) : Action → Effect α
  | .enter (.archive path) =>
    if stop then { rest := [], progress }
    else { rest, workers := [[.openArchive path]], progress }
  | .enter (.directory path) =>
    { rest := if stop then [] else directoryActions tree path ++ rest, progress }
  | .openArchive path =>
    { rest := if stop then [] else archiveActions tree chunkSize path ++ rest, progress }
  | .handOut task =>
    if stop then { rest := [], progress }
    else { rest, workers := [Worker.ofTask task], progress }
  | .look finding => { rest := if stop then [] else .settle finding :: rest, progress }
  | .settle (.decoded file) => { rest := .confirm file :: rest, progress }
  | .settle finding => { rest, progress := progress.absorb originOf finding }
  | .confirm file => { rest := if stop then rest else insertionActions file ++ rest, progress }
  | .ensure name =>
    { rest, progress := { progress with graph := progress.graph.ensure originOf name } }
  | .relate fact =>
    { rest, progress := { progress with graph := progress.graph.addFact originOf fact } }
  | .count =>
    { rest
      progress :=
        { progress with counts.classesParsed := progress.counts.classesParsed + 1 } }

/-- Running scan: the scheduler, the progress, and all workers, finished ones included. -/
structure Run (α : Type) where
  scheduler : Scheduler
  progress : Progress α
  workers : List Worker := []

/-- Event of a step, as observed by the caller. -/
inductive Event where
  | started
  | refused (error : SchedulerError)
  | cancelled
  | waited (state : ScanState)
  | worked
  deriving DecidableEq, Repr

namespace Run

/-- Step of a run: a call of the scheduler, the next action of some worker, or the end of the
scan. -/
inductive Step [Zero α] (tree : FileTree) (originOf : String → Origin) :
    Run α → Event → Run α → Prop
  | start {run : Run α} {scheduler : Scheduler} :
    run.scheduler.start = .ok scheduler →
    Step tree originOf run .started
      { run with scheduler, workers := [run.scheduler.roots.map .enter] }
  | refuse {run : Run α} {error : SchedulerError} :
    run.scheduler.start = .error error → Step tree originOf run (.refused error) run
  | cancel (run : Run α) :
    Step tree originOf run .cancelled { run with scheduler := run.scheduler.cancel }
  | wait {run : Run α} :
    run.scheduler.state ≠ .scanning → Step tree originOf run (.waited run.scheduler.state) run
  | work {run : Run α} {action : Action} {rest : Worker} {effect : Effect α}
    (before after : List Worker) :
    run.workers = before ++ (action :: rest) :: after →
    action.perform tree originOf run.scheduler.config.chunkSize run.scheduler.cancelRequested rest
      run.progress = effect →
    Step tree originOf run .worked
      { run with
        progress := effect.progress, workers := before ++ effect.rest :: after ++ effect.workers }
  | finish {run : Run α} :
    run.scheduler.state = .scanning → (∀ worker ∈ run.workers, worker = []) →
    Step tree originOf run .worked
      { run with
        scheduler.state := if run.scheduler.cancelRequested then .cancelled else .completed }

/-- Reflexive transitive closure of `Step` with the list of observed events. -/
inductive Steps [Zero α] (tree : FileTree) (originOf : String → Origin) :
    Run α → List Event → Run α → Prop
  | refl (run : Run α) : Steps tree originOf run [] run
  | tail {first middle last : Run α} {events : List Event} {event : Event} :
    Steps tree originOf first events middle → Step tree originOf middle event last →
    Steps tree originOf first (events ++ [event]) last

/-- Run over some roots before the scan is started. -/
def idle (roots : List Root) (config : ScanConfig) : Run α :=
  { scheduler := { roots, config }, progress := { graph := .empty } }

end Run

end ClassAtlas.Scan
