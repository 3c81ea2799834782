import DocCompiler.Annotation.Tree
import DocCompiler.Document.Model
import DocCompiler.Text.LetterCase

/-!
Why an annotation cannot become part of a document.
-/

namespace DocCompiler.Build

open Annotation

/-- What may be declared only once. -/
inductive Claim
  | global (tag : String)
  | server (url : String)
  | tag (name : String)
  | operation (path method : String)
  | component (collection : String) (name : Datum)
  deriving Repr, Inhabited

/-- Whether two claims are the same. Names of components are compared as keys are. -/
def Claim.same : Claim → Claim → Bool
  | .global a, .global b => a == b
  | .server a, .server b => a == b
  | .tag a, .tag b => a == b
  | .operation a m, .operation b n => a == b && m == n
  | .component a m, .component b n => a == b && m.sameKey n
  | _, _ => false

/-- What an operation is called in messages: its method, in capitals, and its path. -/
def operationLabel (method path : String) : String :=
  Text.upper method ++ " " ++ path

/-- What a second declaration is called. -/
def Claim.duplicate : Claim → String
  | .global name => "duplicate global declaration @" ++ name
  | .server url => "duplicate global declaration @Server(" ++ url ++ ")"
  | .tag name => "duplicate global declaration @Tag(" ++ name ++ ")"
  | .operation path method => "duplicate operation " ++ operationLabel method path
  | .component collection name => "duplicate component " ++ collection ++ "/" ++ name.display

/-- Why an annotation does not fit. -/
inductive Cause
  | redeclared (claim : Claim) (first : Location)
  | wrongKind (attr tag expected : String) (found : ValueKind)
  | enumNotArray (tag : String)
  | misplaced (child parent : String)
  | notTopLevel (tag : String)
  | globalOnMember (tag : String) (kind : SymbolKind) (symbol : String)
  | missingAttribute (tag attr : String)
  | missingStatus
  | operationNotOnMethod (tag : String) (kind : SymbolKind) (symbol : String)
  | severalBodies (operation : String)
  | severalSchemas (tag : String)
  | severalItems (tag : String)
  | duplicateResponse (status operation : String)
  | duplicateMediaType (type : String)
  | duplicateProperty (name tag : String)
  | duplicateFieldProperty (name schema : String)
  | malformedReference (text : String)
  | unnamedComponent (tag attr : String)
  | markedComponentName (marker : Marker)
  | schemaOnMember (kind : SymbolKind) (symbol : String)
  | propertyNotOnField (kind : SymbolKind) (symbol : String)
  | noEnclosingSchema (symbol : String)
  | schemaIsReference (schema : String)
  | propertyNameNotText (name : String)
  | unnamedProperty
  | numericResponse (number : String)
  deriving Repr, Inhabited

/-- The wording of a cause; `place` is where the annotation stands. -/
def Cause.message (place : Location) : Cause → String
  | .redeclared claim first =>
      claim.duplicate ++ ": first declared at " ++ first.text ++ ", redeclared at " ++ place.text
  | .wrongKind attr tag expected found =>
      "attribute '" ++ attr ++ "' of @" ++ tag ++ " expects " ++ expected ++ ", got " ++
        found.name
  | .enumNotArray tag => "attribute 'enum' of @" ++ tag ++ " expects an array"
  | .misplaced child parent => "@" ++ child ++ " is not valid inside @" ++ parent
  | .notTopLevel tag => "@" ++ tag ++ " cannot be used at the top level"
  | .globalOnMember tag kind symbol =>
      "@" ++ tag ++ " is a global declaration and cannot annotate " ++ kind.name ++ " " ++ symbol
  | .missingAttribute tag attr =>
      "@" ++ tag ++ " requires a '" ++ attr ++ "' attribute"
  | .missingStatus =>
      "@Response inside an operation requires 'response' (a status code or \"default\")"
  | .operationNotOnMethod tag kind symbol =>
      "@" ++ tag ++ " must annotate a method, not " ++ kind.name ++ " " ++ symbol
  | .severalBodies operation => operation ++ " declares more than one request body"
  | .severalSchemas tag => "@" ++ tag ++ " declares more than one schema"
  | .severalItems tag => "@" ++ tag ++ " declares more than one @Items"
  | .duplicateResponse status operation => "duplicate response " ++ status ++ " in " ++ operation
  | .duplicateMediaType type => "duplicate media type " ++ type
  | .duplicateProperty name tag => "duplicate property '" ++ name ++ "' in @" ++ tag
  | .duplicateFieldProperty name schema =>
      "duplicate property '" ++ name ++ "' in schema " ++ schema
  | .malformedReference text => "malformed reference '" ++ text ++ "'"
  | .unnamedComponent tag attr =>
      "top-level @" ++ tag ++ " must name a component with " ++ attr ++ "=\"Name\""
  | .markedComponentName marker =>
      "component name " ++ marker.text ++ " must be a literal string"
  | .schemaOnMember kind symbol =>
      "@Schema must annotate a type or the file, not " ++ kind.name ++ " " ++ symbol
  | .propertyNotOnField kind symbol =>
      "@Property must annotate a field or be nested in @Schema, not " ++ kind.name ++ " " ++ symbol
  | .noEnclosingSchema symbol => "property " ++ symbol ++ " has no enclosing @Schema"
  | .schemaIsReference schema =>
      "schema " ++ schema ++ " is a reference and cannot declare properties"
  | .propertyNameNotText name => "property name " ++ name ++ " must be a literal string"
  | .unnamedProperty => "@Property nested in a schema requires property=\"name\""
  | .numericResponse number =>
      "@Response(" ++ number ++ ") must be nested in an operation; top-level responses need " ++
        "response=\"Name\""

/-- A cause and the place of the annotation it is about. -/
structure Fault where
  cause : Cause
  place : Location
  deriving Repr, Inhabited

/-- The diagnostic for a fault. -/
def Fault.diagnostic (fault : Fault) : Diagnostic :=
  .error .build (fault.cause.message fault.place) (some fault.place)

end DocCompiler.Build
