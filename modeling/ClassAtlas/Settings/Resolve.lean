import ClassAtlas.Scan.Session
import ClassAtlas.Settings.Arguments
import ClassAtlas.Text.Quoted

/-!
# Configuration

Runtime values in the precedence order command line, environment variable, default; a value of zero
is raised to one. The environment is consulted only where the command line is silent, and a variable
that is not well-formed text counts as unset. The default worker count of a host is
`ScanConfig.defaultWorkers`. Specification: `SPEC_FULL.md` §10.4, lines 145–153.
-/

namespace ClassAtlas.Settings

/-- Consulted environment variables as bytes. -/
structure Environment where
  workers : Option (List UInt8) := none
  tickMs : Option (List UInt8) := none
  deriving DecidableEq, Repr

/-- Consulted environment variable. -/
inductive Variable where
  | workers
  | tickMs
  deriving DecidableEq, Repr

/-- Name of an environment variable. -/
def Variable.name : Variable → String
  | .workers => "CLASS_GRAPH_WORKERS"
  | .tickMs => "CLASS_GRAPH_TICK_MS"

/-- Text of an environment variable, if it is set to well-formed text. -/
def Environment.text? (environment : Environment) : Variable → Option String
  | .workers => environment.workers.bind Text.Utf8.decode?
  | .tickMs => environment.tickMs.bind Text.Utf8.decode?

/-- Environment variable whose value is no count. -/
structure VariableError where
  source : Variable
  value : String
  cause : CountError
  deriving DecidableEq, Repr

/-- Text of a variable error without its cause. -/
def VariableError.message (error : VariableError) : String :=
  error.source.name ++ " must be a non-negative integer, got " ++ Text.quoted error.value

/-- Text of a variable error and of its cause. -/
def VariableError.chain (error : VariableError) : List String :=
  [error.message, error.cause.message]

/-- Count in an environment variable, with surrounding white space trimmed. -/
def variableCount? (environment : Environment) (source : Variable) :
    Except VariableError (Option Nat) :=
  match environment.text? source with
  | none => .ok none
  | some value =>
    match parseCount (Text.trim value.toList) with
    | .ok count => .ok (some count)
    | .error cause => .error { source, value, cause }

/-- Count on the command line or in the environment, raised to one. -/
def given? (argument : Option Nat) (environment : Environment) (source : Variable) :
    Except VariableError (Option Nat) :=
  match argument with
  | some count => .ok (some (max count 1))
  | none => do
    let count ← variableCount? environment source
    return count.map fun count => max count 1

/-- Requested worker count, if any. -/
def workers? (arguments : Arguments) (environment : Environment) :
    Except VariableError (Option Nat) :=
  given? arguments.workers environment .workers

/-- Worker count with a default, which is `ScanConfig.defaultWorkers` of the host. -/
def workers (default : Nat) (arguments : Arguments) (environment : Environment) :
    Except VariableError Nat := do
  let count ← workers? arguments environment
  return count.getD default

/-- Tick interval in milliseconds. -/
def tickInterval (arguments : Arguments) (environment : Environment) :
    Except VariableError Nat := do
  let count ← given? arguments.tickMs environment .tickMs
  return count.getD Layout.defaultInterval

/-- Session configuration. The worker count is resolved first and determines the error. -/
def session (defaultWorkers : Nat) (arguments : Arguments) (environment : Environment) :
    Except VariableError SessionConfig := do
  let workers ← workers defaultWorkers arguments environment
  let tickMs ← tickInterval arguments environment
  return { scan := { workers }, tickMs }

end ClassAtlas.Settings
