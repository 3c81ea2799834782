import DocCompiler.Build.View

/-!
What building a document goes through: the model so far, the diagnostics, who declared what first,
and the schemas of types. A fault leaves behind what was done before it; an annotation that nothing can
be made of ends the building.
-/

namespace DocCompiler.Build

open Annotation

/-- The state of building a document. `typeSchemas` holds the component names of the schemas of types,
by unit and type. -/
structure Context where
  model : Model := {}
  diagnostics : List Diagnostic := []
  origins : List (Claim × Location) := []
  typeSchemas : List ((String × Datum) × Datum) := []
  deriving Inhabited

/-- A step of building a document: a fault keeps the state, while a shape that nothing can be made of
loses it. -/
abbrev Step := ExceptT Fault (StateT Context (Except ShapeError))

/-- Ends the building. -/
def giveUp {α : Type} (error : ShapeError) : Step α :=
  ExceptT.mk fun _ => .error error

/-- A step that only looks at an annotation. -/
def look {α : Type} (result : Except Stop α) : Step α :=
  match result with
  | .ok value => pure value
  | .error (.fault fault) => throw fault
  | .error (.shape error) => giveUp error

/-- Gives up for a cause. -/
def refuse {α : Type} (view : View) (cause : Cause) : Step α :=
  throw { cause, place := view.place }

/-- Opens an annotation; attributes that its tag does not accept are reported. -/
def enter (unit : String) (node : Node) : Step View := do
  let view := View.of unit node
  let warnings ← look view.warnings
  modify fun context => { context with diagnostics := context.diagnostics ++ warnings }
  return view

/-- Records the first declaration of something; a second one is refused. -/
def claim (view : View) (key : Claim) : Step Unit := do
  match (← get).origins.find? fun entry => entry.1.same key with
  | some (_, first) => refuse view (.redeclared key first)
  | none => modify fun context => { context with origins := context.origins ++ [(key, view.place)] }

/-- Changes the model; a frozen model stays as it is. -/
def alter (change : Model → Model × Option ModelError) : Step Unit :=
  modify fun context => { context with model := (change context.model).1 }

/-- Changes the general information. -/
def alterInfo (change : Info → Info) : Step Unit :=
  alter fun model =>
    match model.info with
    | .info info contact license => ({ model with info := .info (change info) contact license }, none)
    | _ => (model, none)

/-- Runs a step; its fault, if any, is reported. -/
def guarded (step : Step Unit) (context : Context) : Except ShapeError Context := do
  match ← step.run.run context with
  | (.ok (), context) => return context
  | (.error fault, context) =>
      return { context with diagnostics := context.diagnostics ++ [fault.diagnostic] }

/-- Runs a step as part of another; its fault, if any, is reported and goes no further. -/
def attempt (step : Step Unit) : Step Unit := do
  match guarded step (← get) with
  | .ok context => set context
  | .error error => giveUp error

end DocCompiler.Build
