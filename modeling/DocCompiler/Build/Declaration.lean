import DocCompiler.Build.Fragment
import DocCompiler.Document.FieldType
import DocCompiler.Document.Route

/-!
What annotations declare at the top level: general information, servers, tags, operations, components
and properties of the schemas of types.
-/

namespace DocCompiler.Build

open Annotation

/-- Refuses a global declaration on a method or field. -/
def requireGlobal (view : View) (symbol : Symbol) : Step Unit :=
  if symbol.kind = .method ∨ symbol.kind = .field then
    refuse view (.globalOnMember view.tag symbol.kind symbol.qualifiedName.display)
  else return

/-- Opens a global declaration that may be made once. -/
def enterGlobal (unit : String) (symbol : Symbol) (node : Node) (tag : String) : Step View := do
  let view ← enter unit node
  requireGlobal view symbol
  claim view (.global tag)
  return view

/-- Puts a part in place of the contact. -/
def withContact (part : Part) (model : Model) : Model :=
  match model.info with
  | .info info _ license => { model with info := .info info (some part) license }
  | _ => model

/-- Puts a part in place of the licence. -/
def withLicense (part : Part) (model : Model) : Model :=
  match model.info with
  | .info info contact _ => { model with info := .info info contact (some part) }
  | _ => model

/-- Declares whom to ask. -/
def contact (unit : String) (symbol : Symbol) (node : Node) : Step Unit := do
  let view ← enterGlobal unit symbol node "Contact"
  let name ← look (view.text "name")
  let email ← look (view.text "email")
  let url ← look (view.text "url")
  alter fun model => (withContact (.contact { name, email, url }) model, none)

/-- Declares the licence. -/
def license (unit : String) (symbol : Symbol) (node : Node) : Step Unit := do
  let view ← enterGlobal unit symbol node "License"
  let name ← look (view.text "name")
  let url ← look (view.text "url")
  let identifier ← look (view.text "identifier")
  alter fun model => (withLicense (.license { name, url, identifier }) model, none)

/-- Declares general information. Each text is taken over before the next one is looked at. -/
def info (unit : String) (symbol : Symbol) (node : Node) : Step Unit := do
  let view ← enterGlobal unit symbol node "Info"
  let title ← look (view.text "title")
  alterInfo fun info => { info with title }
  let version ← look (view.textOrNumber "version")
  alterInfo fun info => { info with version }
  let description ← look (view.text "description")
  alterInfo fun info => { info with description }
  let termsOfService ← look (view.text "termsOfService")
  alterInfo fun info => { info with termsOfService, place := some view.place }
  let contacts ← look (view.nested ["Contact"] (some "contact"))
  let licenses ← look (view.nested ["License"] (some "license"))
  look (view.checkChildren ["Contact", "License"])
  contacts.forM fun child => attempt (contact unit symbol child)
  licenses.forM fun child => attempt (license unit symbol child)

/-- A text that a declaration cannot do without. -/
def required (view : View) (name : String) : Step Datum := do
  let text ← look (view.text name)
  if text.isNull then refuse view (.missingAttribute view.tag name) else return text

/-- Declares a server. -/
def server (unit : String) (symbol : Symbol) (node : Node) : Step Unit := do
  let view ← enter unit node
  requireGlobal view symbol
  let url ← required view "url"
  claim view (.server url.display)
  let description ← look (view.text "description")
  alter fun model => model.addServer (.server { url, description })

/-- Declares a tag. -/
def apiTag (unit : String) (symbol : Symbol) (node : Node) : Step Unit := do
  let view ← enter unit node
  requireGlobal view symbol
  let name ← required view "name"
  claim view (.tag name.display)
  let description ← look (view.text "description")
  alter fun model => model.addTag (.tag { name, description })

/-- A response in an operation, with its status. -/
def statusResponse (unit : String) (node : Node) : Step (Datum × Part) := do
  let view ← enter unit node
  let status ← look (view.textOrNumber "response")
  if status.isNull then refuse view .missingStatus
  else return (status, ← response unit view)

/-- The responses of nested annotations in order, each status once, added to those read before. -/
def statusResponses (unit label : String) : List Node → Registry → Step Registry
  | [], done => return done
  | child :: rest, done => do
      let (status, response) ← statusResponse unit child
      look (requireHashable status)
      if (Datum.lookup status done).isSome then
        throw { cause := .duplicateResponse status.display label, place := placeOf unit child }
      else statusResponses unit label rest (Datum.insertEntry status response done)

/-- Declares an operation. -/
def operation (unit : String) (symbol : Symbol) (node : Node) : Step Unit := do
  let view ← enter unit node
  if symbol.kind ≠ .method then
    refuse view (.operationNotOnMethod view.tag symbol.kind symbol.qualifiedName.display)
  let given ← required view "path"
  let path : Datum := given.text?.elim given fun route => .text (Route.normalize route)
  let method := Text.lower view.tag
  let label := operationLabel method path.display
  let operationId ← look (view.text "operationId")
  let operationId := if operationId.isTruthy then operationId else symbol.qualifiedName
  let tags ← look (view.texts "tags")
  let summary ← look (view.text "summary")
  let description ← look (view.text "description")
  let deprecated ← look (view.flag "deprecated")
  let security ← look (view.literal "security")
  let parameters ← look (view.nested parameterTags (some "parameters"))
  let parameters ← parameters.mapM fun child => do parameter unit (← enter unit child)
  let bodies ← look (view.nested ["RequestBody"] (some "requestBody"))
  if 1 < bodies.length then refuse view (.severalBodies label)
  let body ← bodies.head?.mapM fun child => do requestBody unit (← enter unit child)
  let responses ← look (view.nested ["Response"] (some "responses"))
  let responses ← statusResponses unit label responses []
  look (view.checkChildren ("RequestBody" :: "Response" :: parameterTags))
  claim view (.operation path.display method)
  let operation : Operation :=
    { method := .text method, path, operationId, tags, summary, description, deprecated, security
      place := some view.place }
  alter fun model => model.addOperation (.operation operation parameters body responses)

/-- The name of a component, which must be spelled out. -/
def componentName (view : View) (attr : String) : Step Datum := do
  let name ← look (view.text attr)
  match name with
  | .null => refuse view (.unnamedComponent view.tag attr)
  | .unresolved marker => refuse view (.markedComponentName marker)
  | name => return name

/-- Claims the name of a component in a collection. -/
def claimComponent (view : View) (collection : String) (name : Datum) : Step Unit := do
  look (requireHashable name)
  claim view (.component collection name)

/-- Names the schema that a component is. -/
def named (name : Datum) : Part → Part
  | .schema facets properties items => .schema { facets with name } properties items
  | part => part

/-- The name of a schema. The schema of a type has the name of the type unless it is given another. -/
def schemaName (view : View) (symbol : Symbol) : Step Datum := do
  let given ← look (view.text "schema")
  if given.isNull ∧ symbol.kind = .type then return symbol.name
  else componentName view "schema"

/-- Keeps in mind which component the schema of a type is. -/
def rememberSchema (unit : String) (symbol : Symbol) (name : Datum) : Step Unit := do
  look (requireHashable symbol.name)
  modify fun context =>
    let others := context.typeSchemas.filter fun entry =>
      !(entry.1.1 == unit && entry.1.2.sameKey symbol.name)
    { context with typeSchemas := ((unit, symbol.name), name) :: others }

/-- Declares a schema. -/
def schemaComponent (unit : String) (symbol : Symbol) (node : Node) : Step Unit := do
  let view ← enter unit node
  if symbol.kind = .method ∨ symbol.kind = .field then
    refuse view (.schemaOnMember symbol.kind symbol.qualifiedName.display)
  let name ← schemaName view symbol
  claimComponent view "schemas" name
  let schema ← viewedSchema unit view
  alter fun model => model.register .schemas name (named name schema)
  if symbol.kind = .type then rememberSchema unit symbol name

/-- Declares a parameter. -/
def parameterComponent (unit : String) (_ : Symbol) (node : Node) : Step Unit := do
  let view ← enter unit node
  let name ← componentName view "parameter"
  claimComponent view "parameters" name
  let parameter ← parameter unit view
  alter fun model => model.register .parameters name parameter

/-- Declares the body of a request. -/
def requestBodyComponent (unit : String) (_ : Symbol) (node : Node) : Step Unit := do
  let view ← enter unit node
  let name ← componentName view "request"
  claimComponent view "requestBodies" name
  let body ← requestBody unit view
  alter fun model => model.register .requestBodies name body

/-- Declares a response. -/
def responseComponent (unit : String) (_ : Symbol) (node : Node) : Step Unit := do
  let view ← enter unit node
  match node.get? "response" with
  | some (.leaf .number number) =>
      match number.shown with
      | .ok text => refuse view (.numericResponse text)
      | .error error => giveUp error
  | _ =>
      let name ← componentName view "response"
      claimComponent view "responses" name
      let response ← response unit view
      alter fun model => model.register .responses name response

/-- Declares a way to authenticate. -/
def securitySchemeComponent (unit : String) (_ : Symbol) (node : Node) : Step Unit := do
  let view ← enter unit node
  let component ← componentName view "securityScheme"
  let type ← required view "type"
  look (view.checkChildren [])
  claimComponent view "securitySchemes" component
  let scheme ← look (view.text "scheme")
  let bearerFormat ← look (view.text "bearerFormat")
  let location ← look (view.text "in")
  let name ← look (view.text "name")
  let description ← look (view.text "description")
  alter fun model => model.registerScheme component
    (.securityScheme
      { type, scheme, bearerFormat, location, name, description, place := some view.place })

/-- The declared type of a field; one that is no text tells nothing. -/
def declaredTypeOf (symbol : Symbol) : Step (Option String) :=
  match symbol.declaredType with
  | .text declared => return some declared
  | declared => if declared.isTruthy then giveUp (.noFields declared.kindName) else return none

/-- A property with the type that its field or its example tells, if it has no type of its own. -/
def withInferredType (symbol : Symbol) : Part → Step Part
  | .schema facets properties items => do
      if !facets.type.isNull then return .schema facets properties items
      let (type, nullable) := inferType (← declaredTypeOf symbol) facets.sample
      let facets := { facets with type := type.elim .null .text }
      let facets :=
        if nullable && facets.nullable.isNull then { facets with nullable := .bool true } else facets
      return .schema facets properties items
  | part => return part

/-- A schema with one more property, and the type of an object if it has none. -/
def withProperty (name : Datum) (property : Part) : Part → Part
  | .schema facets properties items =>
      let facets := if facets.type.isNull then { facets with type := .text "object" } else facets
      .schema facets (Datum.insertEntry name property properties) items
  | part => part

/-- The component that the schema of a type is, or null when the type has none. -/
def enclosingSchema (context : Context) (unit : String) (type : Datum) : Datum :=
  let found := context.typeSchemas.find? fun entry =>
    entry.1.1 == unit && entry.1.2.sameKey type
  found.elim .null (·.2)

/-- Adds a property to a schema of a model. -/
def addProperty (owner name : Datum) (property : Part) (model : Model) :
    Model × Option ModelError :=
  match model.components.get? .schemas owner with
  | some part => model.register .schemas owner (withProperty name property part)
  | none => (model, none)

/-- Declares a property of the schema of the type around a field. -/
def fieldProperty (unit : String) (symbol : Symbol) (node : Node) : Step Unit := do
  let view ← enter unit node
  let field := symbol.qualifiedName.display
  if symbol.kind ≠ .field then
    refuse view (.propertyNotOnField symbol.kind field)
  let parent := orEmpty symbol.parent
  look (requireHashable parent)
  let context ← get
  let owner := enclosingSchema context unit parent
  if owner.isNull then refuse view (.noEnclosingSchema field)
  let some (.schema _ properties _) := context.model.components.get? .schemas owner
    | refuse view (.schemaIsReference owner.display)
  let given ← look (view.text "property")
  let name := if given.isTruthy then given else symbol.name
  if name.codes?.isNone then refuse view (.propertyNameNotText name.display)
  if (Datum.lookup name properties).isSome then
    refuse view (.duplicateFieldProperty name.display owner.display)
  let property ← withInferredType symbol (← viewedSchema unit view)
  alter (addProperty owner name property)

end DocCompiler.Build
