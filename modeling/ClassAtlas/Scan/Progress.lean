import ClassAtlas.Graph.Basic
import ClassAtlas.Scan.Status
import ClassAtlas.Scan.Task

/-!
# Scan progress

Accumulated effect of findings on graph, counters and diagnostics. A class is inserted node first,
then its relationships, and counted last. Specification: `SPEC_FULL.md` §4.3, lines 49–51, and
§10.6, lines 168–170.
-/

namespace ClassAtlas.Scan

variable {α : Type}

/-- Graph, counters and emitted warnings of a scan. -/
structure Progress (α : Type) where
  graph : Graph α
  counts : ScanCounts := {}
  warnings : List Warning := []

namespace Progress

/-- Insert a class into the graph. -/
def insert [Zero α] (originOf : String → Origin) (file : ClassFile) (graph : Graph α) : Graph α :=
  (graph.ensure originOf file.externalName).addFacts originOf file.facts

/-- Absorb one finding. -/
def absorb [Zero α] (originOf : String → Origin) (progress : Progress α) :
    Finding → Progress α
  | .ignored => progress
  | .decoded file =>
    { progress with
      graph := insert originOf file progress.graph
      counts.classesParsed := progress.counts.classesParsed + 1 }
  | .entryFailed error =>
    { progress with
      counts.entriesFailed := progress.counts.entriesFailed + 1
      warnings := progress.warnings ++ [.unreadableEntry error] }
  | .rootFailed root cause =>
    { progress with
      counts.rootsFailed := progress.counts.rootsFailed + 1
      warnings := progress.warnings ++ [.unreadableRoot root cause] }

/-- Absorb the findings of tasks in order. -/
def absorbAll [Zero α] (originOf : String → Origin) (progress : Progress α) (tasks : List Task) :
    Progress α :=
  tasks.flatten.foldl (absorb originOf) progress

end Progress

end ClassAtlas.Scan
