import DocCompiler.Data.Shape

/-!
What the phases of a run report: warnings and errors, with the rule, entity and reference they are
about.
-/

namespace DocCompiler

/-- The phases of a run. -/
inductive Phase
  | config
  | locate
  | extract
  | parse
  | build
  | resolve
  | validate
  | emit
  deriving DecidableEq, Repr, Inhabited

namespace Phase

/-- The name of a phase. -/
def name : Phase → String
  | .config => "config"
  | .locate => "locate"
  | .extract => "extract"
  | .parse => "parse"
  | .build => "build"
  | .resolve => "resolve"
  | .validate => "validate"
  | .emit => "emit"

/-- The phase with a given name. -/
def ofName? : String → Option Phase
  | "config" => some .config
  | "locate" => some .locate
  | "extract" => some .extract
  | "parse" => some .parse
  | "build" => some .build
  | "resolve" => some .resolve
  | "validate" => some .validate
  | "emit" => some .emit
  | _ => none

/-- Whether an error of the phase refuses the document. -/
def isFatal : Phase → Bool
  | .build | .resolve | .validate | .emit => true
  | _ => false

end Phase

/-- How grave a diagnostic is. -/
inductive Severity
  | warning
  | error
  deriving DecidableEq, Repr, Inhabited

namespace Severity

/-- The name of a severity. -/
def name : Severity → String
  | .warning => "warning"
  | .error => "error"

/-- The severity with a given name. -/
def ofName? : String → Option Severity
  | "warning" => some .warning
  | "error" => some .error
  | _ => none

end Severity

/-- The place that a diagnostic is about. Line and column are numbers or absent; a stored diagnostic
may hold any other values. -/
structure Place where
  path : String
  line : Datum := .null
  column : Datum := .null
  deriving Repr, Inhabited

namespace Place

/-- A whole number, or the absent value. -/
def coordinate (value : Option Int) : Datum :=
  value.elim .null .int

/-- A place in a source unit. -/
def ofLocation (location : Location) : Place :=
  ⟨location.path, coordinate location.line, coordinate location.column⟩

/-- The text of a place: path, line and column separated by colons, as far as they are known. -/
def text (place : Place) : Except ShapeError String := do
  if place.line.isNull then return place.path
  let line ← place.line.shown
  if place.column.isNull then return place.path ++ ":" ++ line
  return place.path ++ ":" ++ line ++ ":" ++ (← place.column.shown)

end Place

/-- One issue that a phase reports. A stored diagnostic may hold any values as rule, entity and
target. -/
structure Diagnostic where
  phase : Phase
  severity : Severity
  message : String
  place : Option Place := none
  rule : Datum := .null
  entity : Datum := .null
  target : Datum := .null
  deriving Repr, Inhabited

namespace Diagnostic

/-- An error of a phase at a place. -/
def error (phase : Phase) (message : String) (location : Option Location) : Diagnostic :=
  { phase, severity := .error, message, place := location.map .ofLocation }

/-- A warning of a phase at a place. -/
def warning (phase : Phase) (message : String) (location : Option Location) : Diagnostic :=
  { phase, severity := .warning, message, place := location.map .ofLocation }

/-- Whether a diagnostic refuses the document. -/
def fatal (diagnostic : Diagnostic) : Bool :=
  diagnostic.severity == .error && diagnostic.phase.isFatal

/-- One line with place, phase, severity, rule and message. A number that is too long has no text. -/
def format (diagnostic : Diagnostic) : Except ShapeError String := do
  let place ← diagnostic.place.elim (pure "<document>") Place.text
  let rule ←
    if diagnostic.rule.isTruthy then do pure (" [" ++ (← diagnostic.rule.shown) ++ "]") else pure ""
  return place ++ ": " ++ diagnostic.phase.name ++ " " ++ diagnostic.severity.name ++ rule ++ ": " ++
    diagnostic.message

end Diagnostic

end DocCompiler
