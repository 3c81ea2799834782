import DocCompiler.Build.Context
import DocCompiler.Text.Blank

/-!
Parts of a document that annotations nested in others describe: references, schemas, content,
parameters, bodies of requests and responses.
-/

namespace DocCompiler.Build

open Annotation

/-- A pointer in its parts: the collection, when it is named, and the name. -/
def readPointer? (text : List Char) : Option (Option String × String) :=
  let start := "#/components/".toList
  let body := if start.isPrefixOf text then text.drop start.length else text
  let word := body.takeWhile Char.isAlpha
  let (collection, name) :=
    match word, body.drop word.length with
    | _ :: _, '/' :: rest => (some (String.ofList word), rest)
    | _, _ => (none, body)
  if name.isEmpty || name.any (fun c => c == '/' || Text.isBlank c) then none
  else some (collection, String.ofList name)

/-- The reference that a text gives, to a component of the expected collection unless it names
another. -/
def reference (view : View) (raw : Datum) (expected : Collection) : Step Reference :=
  let toward (collection : String) (name : Datum) : Reference :=
    { collection := .text collection, name, expected := .text expected.name
      location := some view.place }
  match raw with
  | .unresolved _ => return toward expected.name raw
  | .text text =>
      match readPointer? (Text.trim text.toList) with
      | none => refuse view (.malformedReference text)
      | some (collection, name) => return toward (collection.getD expected.name) (.text name)
  | _ => giveUp (.noFields raw.kindName)

/-- What an annotation describes: a reference when it has one, which admits no children, else the part
itself. -/
def orReference (view : View) (expected : Collection) (inline : Step Part) : Step Part := do
  let raw ← look (view.text "ref")
  if raw.isNull then inline
  else
    look (view.checkChildren [])
    return .reference (← reference view raw expected)

/-- The name that a nested property is given. -/
def propertyName (unit : String) (node : Node) : Step Datum :=
  match node.get? "property" with
  | some (.leaf .string name) => return name
  | _ => throw { cause := .unnamedProperty, place := placeOf unit node }

/-- The properties of nested annotations in order, each once, added to those read before. -/
def properties (unit : String) (view : View) (schema : Node → Step Part) :
    List Node → Registry → Step Registry
  | [], done => return done
  | child :: rest, done => do
      let name ← propertyName unit child
      look (requireHashable name)
      if (Datum.lookup name done).isSome then
        refuse view (.duplicateProperty name.display view.tag)
      else
        let property ← schema child
        properties unit view schema rest (Datum.insertEntry name property done)

/-- Refuses an enumeration that is no array. -/
def requireArray (view : View) (enum : Datum) : Step Unit :=
  match enum with
  | .null | .list _ => return
  | _ => refuse view (.enumNotArray view.tag)

/-- The facets of a schema with given properties and items. The type, when it is not given, follows
from these. -/
def facets (view : View) (hasProperties hasItems : Bool) : Step Facets := do
  let given ← look (view.text "type")
  let type : Datum :=
    if !given.isNull then given
    else if hasProperties then .text "object"
    else if hasItems then .text "array"
    else .null
  let enum ← look (view.literal "enum")
  requireArray view enum
  let title ← look (view.text "title")
  let description ← look (view.text "description")
  let format ← look (view.text "format")
  let required ← look (view.texts "required")
  let sample ← look (view.literal "example")
  let default ← look (view.literal "default")
  let minimum ← look (view.number "minimum")
  let maximum ← look (view.number "maximum")
  let nullable ← look (view.flag "nullable")
  let readOnly ← look (view.flag "readOnly")
  let writeOnly ← look (view.flag "writeOnly")
  return { title, description, type, format, required, sample, enum, default, minimum, maximum,
           nullable, readOnly, writeOnly, place := some view.place }

/-- The schema of an annotation that is not a reference, given how nested schemas are built. -/
def schemaBody (unit : String) (nested : Node → Step Part) (view : View) : Step Part := do
  let children ← look (view.nested ["Property"] (some "properties"))
  let properties ← properties unit view nested children []
  let items ← look (view.nested ["Items"] (some "items"))
  look (view.checkChildren ["Property", "Items"])
  if 1 < items.length then
    refuse view (.severalItems view.tag)
  let items ← items.head?.mapM nested
  let facets ← facets view (!properties.isEmpty) items.isSome
  return .schema facets properties items

/-- The schema of an annotation that has been opened; `depth` bounds the levels nested in it. -/
def schemaOf (unit : String) : (depth : Nat) → View → Step Part
  | 0, view => orReference view .schemas (schemaBody unit (fun _ => pure default) view)
  | depth + 1, view =>
      let nested (node : Node) : Step Part := do schemaOf unit depth (← enter unit node)
      orReference view .schemas (schemaBody unit nested view)

/-- The schema of a view. -/
def viewedSchema (unit : String) (view : View) : Step Part :=
  schemaOf unit view.node.height view

/-- The schema of an annotation. -/
def schema (unit : String) (node : Node) : Step Part := do
  viewedSchema unit (← enter unit node)

/-- Content that an annotation describes, with its media type. -/
def mediaType (unit : String) (node : Node) : Step (Datum × Part) := do
  match contentTags.lookup node.tag.display with
  | some type => return (.text type, .mediaType .null (some (← schema unit node)))
  | none =>
      let view ← enter unit node
      let type ← look (view.text "mediaType")
      if !type.isTruthy then refuse view (.missingAttribute view.tag "mediaType")
      let schemas ← look (view.nested ["Schema"] (some "schema"))
      look (view.checkChildren ["Schema"])
      let schema ← schemas.head?.mapM (schema unit)
      let sample ← look (view.literal "example")
      return (type.asText, .mediaType sample schema)

/-- The tags of content. -/
def contentNames : List String :=
  "MediaType" :: contentTags.map (·.1)

/-- Content that nested annotations describe, each media type once, added to what was read before. -/
def contents (unit : String) (view : View) : List Node → Registry → Step Registry
  | [], done => return done
  | child :: rest, done => do
      let (type, media) ← mediaType unit child
      if (Datum.lookup type done).isSome then refuse view (.duplicateMediaType type.display)
      else contents unit view rest (Datum.insertEntry type media done)

/-- The content of an annotation, which may have no other children. -/
def content (unit : String) (view : View) : Step Registry := do
  let children ← look (view.nested contentNames (some "content"))
  let content ← contents unit view children []
  look (view.checkChildren contentNames)
  return content

/-- A value, or the empty text when it counts as not given. -/
def orEmpty (value : Datum) : Datum :=
  if value.isTruthy then value else .text ""

/-- Where a parameter is passed: its tag may fix that, else an attribute tells it. -/
def parameterLocation (view : View) : Step Datum := do
  match placedParameterTags.lookup view.tag with
  | some location => return .text location
  | none => return orEmpty (← look (view.text "in"))

/-- The parameter of an annotation that is not a reference. A parameter in the path is required unless
the annotation says otherwise. -/
def parameterBody (unit : String) (view : View) : Step Part := do
  let location ← parameterLocation view
  let schemas ← look (view.nested ["Schema"] (some "schema"))
  look (view.checkChildren ["Schema"])
  if 1 < schemas.length then refuse view (.severalSchemas view.tag)
  let given ← look (view.flag "required")
  let required : Datum := if given.isNull && location.isText "path" then .bool true else given
  let name ← look (view.text "name")
  let description ← look (view.text "description")
  let deprecated ← look (view.flag "deprecated")
  let schema ← schemas.head?.mapM (schema unit)
  let sample ← look (view.literal "example")
  let parameter : Parameter :=
    { name := orEmpty name, location, description, required, deprecated, sample
      place := some view.place }
  return .parameter parameter schema

/-- The parameter of a view, or a reference to one. -/
def parameter (unit : String) (view : View) : Step Part :=
  orReference view .parameters (parameterBody unit view)

/-- The body of a request of a view, or a reference to one. -/
def requestBody (unit : String) (view : View) : Step Part :=
  orReference view .requestBodies do
    let content ← content unit view
    let description ← look (view.text "description")
    let required ← look (view.flag "required")
    return .requestBody { description, required, place := some view.place } content

/-- The response of a view, or a reference to one. -/
def response (unit : String) (view : View) : Step Part :=
  orReference view .responses do
    let content ← content unit view
    let description ← look (view.text "description")
    return .response { description, place := some view.place } content

end DocCompiler.Build
