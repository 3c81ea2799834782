import DocCompiler.Source.Diagnostic

/-!
What a run tells about itself: lines with a level, from a part of the program.
-/

namespace DocCompiler

/-- How important a line is. -/
inductive LogLevel
  | debug
  | info
  | warning
  | error
  deriving DecidableEq, Repr, Inhabited

/-- The name of a level. -/
def LogLevel.name : LogLevel → String
  | .debug => "DEBUG"
  | .info => "INFO"
  | .warning => "WARNING"
  | .error => "ERROR"

/-- A line of a log. `source` names the part of the program that it comes from; the program as a
whole has no name. -/
structure LogLine where
  level : LogLevel
  source : String := ""
  message : String
  deriving DecidableEq, Repr, Inhabited

namespace LogLine

/-- Whether a line is shown. Details are shown only on demand. -/
def isShown (verbose : Bool) (line : LogLine) : Bool :=
  verbose || line.level != .debug

/-- A line as it is shown on a terminal. -/
def terminalText (line : LogLine) : String :=
  "[apidocgen] " ++ line.level.name ++ " " ++ line.message

/-- The name of the part of the program that a line comes from. -/
def sourceName (line : LogLine) : String :=
  if line.source.isEmpty then "apidocgen" else "apidocgen." ++ line.source

/-- A line as it is written to a file, behind its time. -/
def fileText (line : LogLine) : String :=
  line.level.name ++ " " ++ line.sourceName ++ ": " ++ line.message

/-- The line for a diagnostic. -/
def ofDiagnostic (source : String) (diagnostic : Diagnostic) : Except ShapeError LogLine := do
  return { level := if diagnostic.severity = .error then .error else .warning
           source
           message := ← diagnostic.format }

/-- The lines that are shown, each ended by a line feed, in a given form. -/
def render (form : LogLine → String) (verbose : Bool) (lines : List LogLine) : String :=
  "".intercalate ((lines.filter (isShown verbose)).map fun line => form line ++ "\n")

end LogLine

end DocCompiler
