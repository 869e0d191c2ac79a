/-!
# Scan status

State machine of a scan and its statistics. Specification: `SPEC_FULL.md` §4.3, line 50, and §10.6,
lines 168–170.
-/

namespace ClassAtlas

/-- State of a scan. -/
inductive ScanState where
  | idle
  | scanning
  | completed
  | cancelled
  deriving DecidableEq, Repr

namespace ScanState

/-- All states. -/
def all : List ScanState := [.idle, .scanning, .completed, .cancelled]

/-- Serialized name of a state. -/
def label : ScanState → String
  | .idle => "idle"
  | .scanning => "scanning"
  | .completed => "completed"
  | .cancelled => "cancelled"

/-- Name of a state in the text report. -/
def title : ScanState → String
  | .idle => "Idle"
  | .scanning => "Scanning"
  | .completed => "Completed"
  | .cancelled => "Cancelled"

/-- Inverse of `label`. -/
def ofLabel? (label : String) : Option ScanState := all.find? (·.label = label)

/-- Terminal states. -/
def isTerminal : ScanState → Bool
  | .completed | .cancelled => true
  | .idle | .scanning => false

end ScanState

/-- Scan statistics. -/
structure ScanCounts where
  classesParsed : Nat := 0
  entriesFailed : Nat := 0
  rootsFailed : Nat := 0
  deriving DecidableEq, Repr

end ClassAtlas
