import DocCompiler.Annotation.Grammar
import DocCompiler.Build.Fault

/-!
An annotation seen through the kinds of values that its attributes are expected to have. What does not
fit is a fault of the annotation; names that cannot be looked up stop the building as a whole.
-/

namespace DocCompiler.Build

open Annotation

/-- An annotation and its place. -/
structure View where
  node : Node
  place : Location

/-- The place of an annotation in a unit. -/
def placeOf (unit : String) (node : Node) : Location :=
  .ofPosition unit node.line node.column

/-- What keeps a look at an annotation from giving a value. -/
inductive Stop
  | fault (fault : Fault)
  /-- The annotation has a shape that nothing can be made of. -/
  | shape (error : ShapeError)
  deriving Repr, Inhabited

/-- A value that may be looked up, for else building stops. -/
def requireHashable (value : Datum) : Except Stop Unit :=
  if value.isHashable then .ok () else .error (.shape .wrongKind)

/-- Whether a tag is one of some. -/
def isOneOf (tags : List String) (tag : Datum) : Except Stop Bool := do
  requireHashable tag
  return tag.isAmong tags

namespace View

/-- The view of an annotation in a unit. -/
def of (unit : String) (node : Node) : View :=
  { node, place := placeOf unit node }

/-- The tag of an annotation in messages. -/
def tag (view : View) : String :=
  view.node.tag.display

/-- The warning about an attribute that the tag does not accept. -/
def warning? (view : View) (name : Datum) : Except Stop (Option Diagnostic) := do
  if ← isOneOf ((attributesOf? view.tag).getD []) name then return none
  else
    return some (Diagnostic.warning .build
      ("unknown attribute '" ++ name.display ++ "' on @" ++ view.tag ++ " ignored")
      (some view.place))

/-- The warnings about attributes that the tag does not accept. -/
def warnings (view : View) : Except Stop (List Diagnostic) := do
  let found ← view.node.attributes.mapM fun (name, _) => view.warning? name
  return found.filterMap id

/-- Gives up for a cause. -/
def fail {α : Type} (view : View) (cause : Cause) : Except Stop α :=
  .error (.fault { cause, place := view.place })

/-- Gives up because of the kind of a value. -/
def wrongKind {α : Type} (view : View) (name expected : String) (value : Value) :
    Except Stop α :=
  view.fail (.wrongKind name view.tag expected value.kind)

/-- The value of an attribute, unless it is absent. -/
def get? (view : View) (name : String) : Option Value :=
  match view.node.get? name with
  | some (.leaf .null _) => none
  | value => value

/-- The marker of a constant used in the annotation. -/
def marker (view : View) (name : Datum) : Datum :=
  .unresolved ⟨name.display, some view.place⟩

/-- The data of an attribute of some kind, or the marker of a constant; null when it is absent. -/
def leaf (view : View) (kind : LeafKind) (expected name : String) : Except Stop Datum :=
  match view.get? name with
  | none => .ok .null
  | some (.leaf .constant constant) => .ok (view.marker constant)
  | some (.leaf found data) =>
      if found = kind then .ok data else view.wrongKind name expected (.leaf found data)
  | some value => view.wrongKind name expected value

/-- A text. -/
def text (view : View) (name : String) : Except Stop Datum :=
  view.leaf .string "a string" name

/-- A text, which may be given as a number. -/
def textOrNumber (view : View) (name : String) : Except Stop Datum :=
  match view.get? name with
  | some (.leaf .number data) =>
      match data.shown with
      | .ok text => .ok (.text text)
      | .error error => .error (.shape error)
  | _ => view.text name

/-- A truth value. -/
def flag (view : View) (name : String) : Except Stop Datum :=
  view.leaf .boolean "a boolean" name

/-- A number. -/
def number (view : View) (name : String) : Except Stop Datum :=
  view.leaf .number "a number" name

/-- The values of an attribute that may be given alone or in an array. -/
def several (view : View) (name : String) : List Value :=
  match view.get? name with
  | none => []
  | some (.array items) => items
  | some value => [value]

/-- A text among several. -/
def textItem (view : View) (name : String) : Value → Except Stop Datum
  | .leaf .string data => .ok data
  | .leaf .constant constant => .ok (view.marker constant)
  | item => view.wrongKind name "an array of strings" item

/-- Texts. -/
def texts (view : View) (name : String) : Except Stop Datum := do
  return .list (← (view.several name).mapM (view.textItem name))

/-- A plain value. -/
def literal (view : View) (name : String) : Except Stop Datum :=
  match view.get? name with
  | none => .ok .null
  | some value =>
      match value.toDatum? (some view.place) with
      | some datum => .ok datum
      | none => view.wrongKind name "a literal value" value

/-- Tags as they are listed in messages. -/
def tagList (tags : List String) : String :=
  " or ".intercalate ((tags.mergeSort fun a b => decide (a ≤ b)).map ("@" ++ ·))

/-- The nested annotations with given tags: those among the children, then those in an attribute,
which may hold nothing else. -/
def nested (view : View) (tags : List String) (attr : Option String) :
    Except Stop (List Node) := do
  let children ← view.node.children.filterM fun child => isOneOf tags child.tag
  match attr with
  | none => return children
  | some name =>
      let given ← (view.several name).mapM fun item =>
        match item with
        | .tag node => do
            if ← isOneOf tags node.tag then return node
            else view.wrongKind name (tagList tags) item
        | item => view.wrongKind name (tagList tags) item
      return children ++ given

/-- Refuses children with other tags than the given ones. -/
def checkChildren (view : View) (tags : List String) : Except Stop Unit :=
  view.node.children.forM fun child => do
    if !(← isOneOf tags child.tag) then
      throw (.fault { cause := .misplaced child.tag.display view.tag
                      place := placeOf view.place.path child })

end View

end DocCompiler.Build
