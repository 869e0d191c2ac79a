import ClassAtlas.Report.Basic
import ClassAtlas.Settings.Resolve

/-!
# Headless host

The command as a function of its arguments, the environment and the file tree: argument parsing,
configuration, validation, scan, settle period and report delivery. Time is abstracted: the layout
performs the ticks that fit into the settle period, and the duration of a run is a parameter. So are
the help text and the usage errors, which the command line library words. Specification:
`SPEC_FULL.md` §10.2, lines 132–133, and §10.5, lines 155–163.
-/

namespace ClassAtlas

/-- Context of a run. `defaultWorkers` is the host's `ScanConfig.defaultWorkers`, `usage` the
command line library's text for help and for each usage error. -/
structure Surroundings where
  tree : FileTree
  environment : Settings.Environment := {}
  defaultWorkers : Nat
  durationMs : Nat := 0
  usage : Settings.UsageError → String := fun _ => ""

/-- Result of a run: exit code 0 for success, 1 for a failure and 2 for a rejected command line,
both output streams, the file tree, and the path of a written report. -/
structure RunResult where
  exitCode : Nat
  stdout : String
  stderr : String
  tree : FileTree
  written : Option String := none

namespace Program

/-- Indent all lines but the first. -/
def indentLines (text : String) : String :=
  String.ofList (text.toList.flatMap fun c => if c = '\n' then "\n    ".toList else [c])

/-- Error chain as printed: the message and its causes. -/
def failureText (chain : List String) : String :=
  match chain with
  | [] => "Error\n"
  | [message] => "Error: " ++ message ++ "\n"
  | message :: causes =>
    "Error: " ++ message ++ "\n\nCaused by:\n" ++
      String.join (causes.map fun cause => "    " ++ indentLines cause ++ "\n")

/-- Report as printed, terminated by a newline. -/
def printed (content : String) : String :=
  if content.toList.getLast? == some '\n' then content else content ++ "\n"

/-- Deliver a report to standard output or to a file. -/
def deliver (tree : FileTree) (content : String) (output : Option String) : RunResult :=
  match output with
  | none => { exitCode := 0, stdout := printed content, stderr := "", tree }
  | some path =>
    match tree.save path content.toUTF8 with
    | .ok tree => { exitCode := 0, stdout := "", stderr := "", tree, written := some path }
    | .error error =>
      { exitCode := 1, stdout := "", stderr := failureText [error.message], tree }

/-- Scan a classpath, run the layout for the settle period, and collect the report. -/
def report (surroundings : Surroundings) (arguments : Settings.Arguments)
    (config : SessionConfig) : Except (List String) GraphReport := do
  let tree := surroundings.tree
  let session ← (Session.openOn tree arguments.classpath config.scan).mapError fun error =>
    ["invalid classpath", error.message]
  let session ← session.start.mapError fun error => ["failed to start scan", error.message]
  let scanned := session.wait tree
  let settled := (scanned.runLayout (arguments.settle / config.tickMs)).terminate tree
  return GraphReport.collect arguments.classpath settled.graph scanned.state
    settled.progress.counts settled.layoutTicks surroundings.durationMs

/-- Run the command. -/
def run (surroundings : Surroundings) (arguments : List String) : RunResult :=
  let tree := surroundings.tree
  match Settings.Arguments.parse arguments with
  | .error .displayHelp =>
    { exitCode := 0, stdout := surroundings.usage .displayHelp, stderr := "", tree }
  | .error error => { exitCode := 2, stdout := "", stderr := surroundings.usage error, tree }
  | .ok arguments =>
    let outcome := do
      let config ← (Settings.session surroundings.defaultWorkers arguments
        surroundings.environment).mapError Settings.VariableError.chain
      report surroundings arguments config
    match outcome with
    | .error chain => { exitCode := 1, stdout := "", stderr := failureText chain, tree }
    | .ok report => deliver tree (report.render arguments.reportFormat) arguments.output

end Program

end ClassAtlas
