import DocCompiler.Build.Declaration

/-!
The model of a document from the annotations of all units. Units are gone through in the order of
their identities, and properties of fields come after everything else.
-/

namespace DocCompiler.Build

open Annotation

/-- A top-level annotation with its unit and the declaration it belongs to. -/
structure Placed where
  unit : String
  symbol : Symbol
  node : Node
  deriving Inhabited

/-- What an annotation declares, by its tag; the properties of fields are not among it. -/
def handler? (tag : String) : Option (String → Symbol → Node → Step Unit) :=
  match tag with
  | "Info" => some info
  | "Contact" => some contact
  | "License" => some license
  | "Server" => some server
  | "Tag" => some apiTag
  | "Schema" => some schemaComponent
  | "RequestBody" => some requestBodyComponent
  | "Response" => some responseComponent
  | "SecurityScheme" => some securitySchemeComponent
  | _ =>
      if methodTags.contains tag then some operation
      else if parameterTags.contains tag then some parameterComponent
      else none

/-- What an annotation comes to. Only a tag that can be looked up is known or unknown. -/
def declare (placed : Placed) : Step Unit := do
  look (requireHashable placed.node.tag)
  match placed.node.tag.text?.bind handler? with
  | some handler => handler placed.unit placed.symbol placed.node
  | none =>
      throw { cause := .notTopLevel placed.node.tag.display
              place := placeOf placed.unit placed.node }

/-- Folds an annotation into the document. -/
def fold (context : Context) (placed : Placed) : Except ShapeError Context :=
  guarded (declare placed) context

/-- Folds the property of a field into the document. -/
def foldProperty (context : Context) (placed : Placed) : Except ShapeError Context :=
  guarded (fieldProperty placed.unit placed.symbol placed.node) context

/-- The top-level annotations of units, in the order of the identities of the units. -/
def placedNodes (units : List AnnotatedUnit) : List Placed :=
  (units.mergeSort fun a b => decide (a.identity ≤ b.identity)).flatMap fun unit =>
    unit.blocks.flatMap fun block =>
      block.nodes.map fun node => ⟨unit.identity, block.symbol, node⟩

/-- Whether an annotation is the property of a field. -/
def Placed.isProperty (placed : Placed) : Bool :=
  placed.node.tag.isText "Property"

/-- Builds the document that units describe. It has no result only if a stored unit has a shape that
nothing can be made of. -/
def build (units : List AnnotatedUnit) : Except ShapeError Context := do
  let nodes := placedNodes units
  let context ← (nodes.filter (!·.isProperty)).foldlM fold {}
  (nodes.filter (·.isProperty)).foldlM foldProperty context

end DocCompiler.Build
