import DocCompiler.CommandLine.Arguments
import DocCompiler.Compile.Run

/-!
What a command does to files and what it shows. The log goes to the error output, together with the
reason why a command has failed.
-/

namespace DocCompiler.CommandLine

open Compile

/-- What a command shows, and its exit code. -/
structure Shown where
  code : Nat := 0
  output : String := ""
  errors : String := ""
  deriving DecidableEq, Repr, Inhabited

/-- What a command asks of a run. -/
def Arguments.request (arguments : Arguments) (directory : Path) (time : String) : Request :=
  { directory
    path := .ofText arguments.path
    writes := arguments.command == .build
    useCache := if arguments.noCache then some false else none
    format := arguments.format.map OutputFormat.name
    output := arguments.output.map Path.ofText
    time }

/-- A failed command with its reason, behind lines of the log. -/
def failed (log reason : String) : Shown :=
  { code := 1, errors := log ++ reason ++ "\n" }

/-- A path as it is shown in a directory. -/
def shownPath (directory path : Path) : String :=
  ((directory.relativeTo? path).getD path).text

/-- What is shown of a document. -/
def success (command : Command) (directory : Path) (result : Compiled) : String :=
  match command with
  | .build =>
      "API document written to " ++ result.output.elim "<not written>" (shownPath directory) ++ "\n"
  | .check =>
      let errors := (result.diagnostics.filter (·.severity == .error)).length
      "OK: " ++ toString result.counts.operations ++ " operation(s), " ++ toString result.counts.schemas ++
        " schema(s), " ++ toString errors ++ " error(s), " ++
        toString (result.diagnostics.length - errors) ++ " warning(s)\n"

/-- What is shown of the result of a run, behind lines of its log. -/
def report (arguments : Arguments) (directory : Path) (log : List LogLine) (result : Compiled) :
    Except RunError Shown := do
  let found ← (result.diagnostics.mapM (LogLine.ofDiagnostic "cli")).mapError .unshown
  let shown := LogLine.render LogLine.terminalText arguments.verbose (log ++ found)
  if result.isAccepted then
    return { output := success arguments.command directory result, errors := shown }
  else
    return failed shown ("Document refused with " ++ toString result.errors.length ++ " error(s).")

/-- What is shown of an error of a run, unless it is one that no one expects. -/
def reportError (arguments : Arguments) (log : List LogLine) (error : RunError) :
    Except RunError Shown :=
  let shown := LogLine.render LogLine.terminalText arguments.verbose log
  let command := "apidocgen " ++ arguments.command.name
  match error.settingsMessage?, error with
  | some message, _ => .ok (failed shown (command ++ " failed: " ++ message))
  | none, .cancelled =>
      if arguments.command = .build then .ok (failed shown (command ++ " cancelled"))
      else .error error
  | none, error => .error error

/-- Runs a command in a directory. -/
def execute (arguments : Arguments) (directory : Path) (time : String) (files : FileTree) :
    FileTree × Except RunError Shown :=
  let result :=
    match run (arguments.request directory time) files with
    | (scene, .ok result) => (scene.files, report arguments directory scene.log result)
    | (scene, .error error) => (scene.files, reportError arguments scene.log error)
  match arguments.workers with
  | .void => (files, .error .noWorkers)
  | .count number =>
      if number < 1 then (files, .ok (failed "" "--workers must be a positive integer")) else result
  | .unset => result

end DocCompiler.CommandLine
