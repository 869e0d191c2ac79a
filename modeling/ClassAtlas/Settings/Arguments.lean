import ClassAtlas.Report.Basic
import ClassAtlas.Settings.Count
import ClassAtlas.Text.Affix

/-!
# Command line arguments

Parser of the command line: options in any order, and the paths of the classpath. A value is
attached by `=`, directly to a short option, or as the next argument; one that begins with a dash
has to be attached, except for a single dash. A double dash turns all further arguments into paths.
An option's value is converted when the next argument is processed, which determines the reported
error among several. Specification: `SPEC_FULL.md` §10.5, lines 156–157.
-/

namespace ClassAtlas.Settings

/-- Parsed command line; durations are in milliseconds. -/
structure Arguments where
  classpath : List String := []
  workers : Option Nat := none
  tickMs : Option Nat := none
  settleMs : Option Nat := none
  format : Option ReportFormat := none
  output : Option String := none
  deriving DecidableEq, Repr

namespace Arguments

/-- Default settle period in milliseconds. -/
def defaultSettleMs : Nat := 2000

/-- Settle period in milliseconds. -/
def settle (arguments : Arguments) : Nat := arguments.settleMs.getD defaultSettleMs

/-- Output format, JSON by default. -/
def reportFormat (arguments : Arguments) : ReportFormat := arguments.format.getD .json

end Arguments

/-- Kind of a rejected command line, or the request for help. -/
inductive UsageError where
  | missingRequiredArgument
  | unknownArgument
  | invalidValue
  | valueValidation
  | argumentConflict
  | tooManyValues
  | displayHelp
  deriving DecidableEq, Repr

/-- Options that take a value. -/
inductive Setting where
  | workers
  | tickMs
  | settleMs
  | format
  | output
  deriving DecidableEq, Repr

/-- Meaning of an option name. -/
inductive Flag where
  | setting (setting : Setting)
  | help
  deriving DecidableEq, Repr

/-- Option of a long name. -/
def Flag.ofLong? (name : String) : Option Flag :=
  [("workers", Flag.setting .workers), ("tick-ms", .setting .tickMs),
    ("settle-ms", .setting .settleMs), ("format", .setting .format), ("output", .setting .output),
    ("help", .help)].lookup name

/-- Option of a short name. -/
def Flag.ofShort? (letter : Char) : Option Flag :=
  [('f', Flag.setting .format), ('o', .setting .output), ('h', .help)].lookup letter

/-- Argument that has been consumed but not converted. -/
inductive Pending where
  | nothing
  | setting (setting : Setting) (value : Option String)
  | paths (paths : List String)

/-- State of the parser; `onlyPaths` is set behind a double dash. -/
structure ParseState where
  arguments : Arguments := {}
  pending : Pending := .nothing
  onlyPaths : Bool := false

/-- Convert a count. -/
def countValue (value : String) : Except UsageError Nat :=
  (parseCount value.toList).mapError fun _ => .valueValidation

/-- Convert a path. -/
def pathValue (value : String) : Except UsageError String :=
  if value.isEmpty then .error .invalidValue else .ok value

/-- Convert an output format. -/
def formatValue (value : String) : Except UsageError ReportFormat :=
  if value = "json" then .ok .json
  else if value = "text" then .ok .text
  else .error .invalidValue

/-- Reject a repeated option. -/
def once {α : Type} (known : Option α) (value : Except UsageError α) :
    Except UsageError (Option α) :=
  match known with
  | some _ => .error .argumentConflict
  | none => some <$> value

/-- Store the value of an option. -/
def assign (setting : Setting) (value : String) (known : Arguments) :
    Except UsageError Arguments := do
  match setting with
  | .workers => return { known with workers := ← once known.workers (countValue value) }
  | .tickMs => return { known with tickMs := ← once known.tickMs (countValue value) }
  | .settleMs => return { known with settleMs := ← once known.settleMs (countValue value) }
  | .format => return { known with format := ← once known.format (formatValue value) }
  | .output => return { known with output := ← once known.output (pathValue value) }

namespace ParseState

/-- Convert the pending argument. -/
def settle (state : ParseState) : Except UsageError ParseState := do
  let arguments ← match state.pending with
    | .nothing => pure state.arguments
    | .setting _ none => .error .invalidValue
    | .setting setting (some value) => assign setting value state.arguments
    | .paths paths => do
      let paths ← paths.mapM pathValue
      pure { state.arguments with classpath := state.arguments.classpath ++ paths }
  return { state with arguments, pending := .nothing }

/-- Consume an option with its attached value, if any. -/
def takeSetting (state : ParseState) (setting : Setting) (value : Option String) :
    Except UsageError ParseState := do
  let state ← state.settle
  match value with
  | none => return { state with pending := .setting setting none }
  | some value => return { state with arguments := ← assign setting value state.arguments }

/-- Consume the help option. -/
def takeHelp (state : ParseState) : Except UsageError ParseState := do
  let _ ← state.settle
  .error .displayHelp

/-- Consume an argument with two dashes, given without them. -/
def takeLong (state : ParseState) (text : List Char) : Except UsageError ParseState :=
  let name := String.ofList (text.takeWhile (· ≠ '='))
  let value := match text.dropWhile (· ≠ '=') with
    | [] => none
    | _ :: value => some (String.ofList value)
  match Flag.ofLong? name, value with
  | none, _ => .error .unknownArgument
  | some .help, some _ => .error .tooManyValues
  | some .help, none => state.takeHelp
  | some (.setting setting), value => state.takeSetting setting value

/-- Consume an argument with one dash, given without it. -/
def takeShort (state : ParseState) (letter : Char) (rest : List Char) :
    Except UsageError ParseState :=
  match Flag.ofShort? letter with
  | none => .error .unknownArgument
  | some .help => state.takeHelp
  | some (.setting setting) =>
    state.takeSetting setting <|
      match rest with
      | [] => none
      | '=' :: value => some (String.ofList value)
      | value => some (String.ofList value)

/-- Consume a path. -/
def takePath (state : ParseState) (path : String) : Except UsageError ParseState :=
  match state.pending with
  | .paths paths => .ok { state with pending := .paths (paths ++ [path]) }
  | _ => do return { ← state.settle with pending := .paths [path] }

/-- Consume an argument that is no option: an awaited value or a path. -/
def takeValue (state : ParseState) (argument : String) : Except UsageError ParseState :=
  match state.pending with
  | .setting setting none => .ok { state with pending := .setting setting (some argument) }
  | _ => state.takePath argument

/-- Consume an argument. -/
def take (state : ParseState) (argument : String) : Except UsageError ParseState :=
  if state.onlyPaths then state.takePath argument
  else
    match argument.toList with
    | ['-', '-'] => .ok { state with onlyPaths := true }
    | '-' :: '-' :: text => state.takeLong text
    | '-' :: letter :: rest => state.takeShort letter rest
    | _ => state.takeValue argument

end ParseState

/-- Parse a command line. -/
def Arguments.parse (arguments : List String) : Except UsageError Arguments := do
  let state ← arguments.foldlM ParseState.take {}
  let state ← state.settle
  if state.arguments.classpath.isEmpty then .error .missingRequiredArgument
  else return state.arguments

end ClassAtlas.Settings
