import DocCompiler.Document.Model

/-!
The document that a model describes, as a plain value: the order of its fields is fixed, absent
fields are left out, paths are sorted, and markers of constants stand as their text. A part that stands
where another kind belongs has no place in a document.
-/

namespace DocCompiler

mutual

/-- A value with markers as texts and keys of mappings as texts. -/
def Datum.settled : Datum → Datum
  | .unresolved marker => .text marker.text
  | .list items => .list (settledItems items)
  | .pair first second => .list [settled first, settled second]
  | .map entries => .map (distinctEntries (settledEntries entries))
  | value => value

/-- Items with markers and keys as texts. -/
def Datum.settledItems : List Datum → List Datum
  | [] => []
  | item :: rest => settled item :: settledItems rest

/-- Entries with markers and keys as texts. -/
def Datum.settledEntries : List (Datum × Datum) → List (Datum × Datum)
  | [] => []
  | (key, item) :: rest => (key.asText, settled item) :: settledEntries rest

end

namespace Layout

/-- The order of the methods of a path. -/
def methodOrder : List String :=
  ["get", "put", "post", "delete", "options", "head", "patch", "trace"]

/-- A mapping of the fields that are given. -/
def compact (fields : List (String × Datum)) : Datum :=
  .record ((fields.filter fun field => !field.2.isNull).map fun (name, value) =>
    (name, value.settled))

/-- Refuses a part that stands where it does not belong. -/
def misplaced {α : Type} (part : Part) : Except ShapeError α :=
  .error (.noFields part.kindName)

/-- A list of the members of a value, left out when it has none. -/
def several (value : Datum) : Except ShapeError Datum := do
  let members ← value.members
  return if members.isEmpty then .null else .list members

/-- A reference. -/
def reference (link : Reference) : Datum :=
  .record [("$ref", .text link.pointer)]

/-- A mapping, left out when it has no entries. -/
def mapping (entries : List (Datum × Datum)) : Datum :=
  if entries.isEmpty then .null else .map entries

/-- The fields of a schema in order. -/
def schemaFields (facets : Facets) (required properties items : Datum) : List (String × Datum) :=
  [("type", facets.type),
    ("format", facets.format),
    ("title", facets.title),
    ("description", facets.description),
    ("required", required),
    ("properties", properties),
    ("items", items),
    ("enum", facets.enum),
    ("default", facets.default),
    ("minimum", facets.minimum),
    ("maximum", facets.maximum),
    ("nullable", facets.nullable),
    ("readOnly", facets.readOnly),
    ("writeOnly", facets.writeOnly),
    ("example", facets.sample)]

mutual

/-- A schema. -/
def schema : Part → Except ShapeError Datum
  | .reference link => .ok (reference link)
  | .schema facets properties items => do
      let properties ← schemas properties
      let required ← several facets.required
      let items ← schema? items
      return compact (schemaFields facets required (mapping properties) items)
  | part => misplaced part

/-- Schemas with names. -/
def schemas : Registry → Except ShapeError (List (Datum × Datum))
  | [] => .ok []
  | (name, property) :: rest => do
      let property ← schema property
      let rest ← schemas rest
      return (name, property) :: rest

/-- A schema that may be absent. -/
def schema? : Option Part → Except ShapeError Datum
  | none => .ok .null
  | some items => schema items

end

/-- The fields of a parameter in order. -/
def parameterFields (parameter : Parameter) (schema : Datum) : List (String × Datum) :=
  [("name", parameter.name),
    ("in", parameter.location),
    ("description", parameter.description),
    ("required", parameter.required),
    ("deprecated", parameter.deprecated),
    ("schema", schema),
    ("example", parameter.sample)]

/-- A parameter. -/
def parameter : Part → Except ShapeError Datum
  | .reference link => .ok (reference link)
  | .parameter parameter schema => do
      return compact (parameterFields parameter (← schema? schema))
  | part => misplaced part

/-- The content of one media type: what has a schema and an example. -/
def mediaType : Part → Except ShapeError Datum
  | .mediaType sample schema => do
      return compact [("schema", ← schema? schema), ("example", sample)]
  | .parameter parameter schema => do
      return compact [("schema", ← schema? schema), ("example", parameter.sample)]
  | part => misplaced part

/-- Entries of a registry. -/
def entries (entry : Part → Except ShapeError Datum) (registry : Registry) :
    Except ShapeError (List (Datum × Datum)) :=
  registry.mapM fun (name, part) => return (name, ← entry part)

/-- The body of a request. -/
def requestBody : Part → Except ShapeError Datum
  | .reference link => .ok (reference link)
  | .requestBody body content => do
      let content ← entries mediaType content
      return compact [
        ("description", body.description),
        ("content", .map content),
        ("required", body.required)]
  | .response response content => do
      let _ ← entries mediaType content
      misplaced (.response response content)
  | part => misplaced part

/-- A response with a description and content. A response always has a description. -/
def described (description : Datum) (content : Registry) : Except ShapeError Datum := do
  let content ← entries mediaType content
  return compact [
    ("description", if description.isTruthy then description else .text ""),
    ("content", mapping content)]

/-- A response. -/
def response : Part → Except ShapeError Datum
  | .reference link => .ok (reference link)
  | .response response content => described response.description content
  | .requestBody body content => described body.description content
  | part => misplaced part

/-- A way to authenticate. -/
def securityScheme : Part → Except ShapeError Datum
  | .securityScheme scheme => .ok <| compact [
      ("type", scheme.type),
      ("description", scheme.description),
      ("name", scheme.name),
      ("in", scheme.location),
      ("scheme", scheme.scheme),
      ("bearerFormat", scheme.bearerFormat)]
  | part => misplaced part

/-- The responses of an operation by status. -/
def responses (registry : Registry) : Except ShapeError (List (Datum × Datum)) := do
  let entries ← registry.mapM fun (status, part) => do
    return (status.asText, ← response part)
  return Datum.distinctEntries entries

/-- The fields of an operation in order. -/
def operationFields (operation : Operation) (tags parameters body responses : Datum) :
    List (String × Datum) :=
  [("tags", tags),
    ("summary", operation.summary),
    ("description", operation.description),
    ("operationId", operation.operationId),
    ("parameters", parameters),
    ("requestBody", body),
    ("responses", responses),
    ("deprecated", operation.deprecated),
    ("security", operation.security)]

/-- An operation. -/
def operation (endpoint : Endpoint) : Except ShapeError Datum := do
  let parameters ← endpoint.parameters.mapM parameter
  let body ← endpoint.body.elim (pure .null) requestBody
  let tags ← several endpoint.operation.tags
  let responses ← responses endpoint.responses
  return compact (operationFields endpoint.operation tags
    (if parameters.isEmpty then .null else .list parameters) body (.map responses))

/-- The rank of a method among those of a path. An unknown method has none. -/
def methodRank (method : Datum) : Except ShapeError Nat :=
  match method.text?.bind methodOrder.idxOf? with
  | some rank => .ok rank
  | none => .error .badValue

/-- The operations of a path in the order of their methods. -/
def methods (endpoints : List (Datum × Endpoint)) : Except ShapeError Datum := do
  let ranked ← endpoints.mapM fun (method, endpoint) => do
    return (← methodRank method, method, endpoint)
  let sorted := ranked.mergeSort fun a b => a.1 ≤ b.1
  let laid ← sorted.mapM fun (_, method, endpoint) => do return (method, ← operation endpoint)
  return .map laid

/-- All paths, sorted. -/
def paths (model : Model) : Except ShapeError Datum := do
  let sorted := model.paths.mergeSort fun a b => decide (a.1 ≤ b.1)
  return .record (← sorted.mapM fun (path, endpoints) => do return (path, ← methods endpoints))

/-- Whom to ask. -/
def contact : Part → Except ShapeError Datum
  | .contact contact => .ok <| compact [
      ("name", contact.name), ("url", contact.url), ("email", contact.email)]
  | part => misplaced part

/-- The licence. -/
def license : Part → Except ShapeError Datum
  | .license license => .ok <| compact [
      ("name", license.name), ("identifier", license.identifier), ("url", license.url)]
  | part => misplaced part

/-- General information. -/
def info : Part → Except ShapeError Datum
  | .info info person terms => do
      let person ← person.elim (pure .null) contact
      let terms ← terms.elim (pure .null) license
      return compact [
        ("title", info.title),
        ("description", info.description),
        ("termsOfService", info.termsOfService),
        ("contact", person),
        ("license", terms),
        ("version", info.version)]
  | part => misplaced part

/-- A server. -/
def server : Part → Except ShapeError Datum
  | .server server => .ok <| compact [
      ("url", server.url), ("description", server.description)]
  | part => misplaced part

/-- A tag: what has a name and a description. -/
def tag (part : Part) : Except ShapeError Datum :=
  let named (name description : Datum) : Except ShapeError Datum :=
    .ok (compact [("name", name), ("description", description)])
  match part with
  | .tag value => named value.name value.description
  | .parameter value _ => named value.name value.description
  | .schema facets _ _ => named facets.name facets.description
  | .securityScheme value => named value.name value.description
  | part => misplaced part

/-- All components. Ways to authenticate are left out when there are none. -/
def components (components : Components) : Except ShapeError Datum := do
  let schemas ← entries schema components.schemas
  let parameters ← entries parameter components.parameters
  let requestBodies ← entries requestBody components.requestBodies
  let responses ← entries response components.responses
  let schemes ← entries securityScheme components.securitySchemes
  return .record <|
    [("schemas", .map schemas), ("parameters", .map parameters),
      ("requestBodies", .map requestBodies), ("responses", .map responses)] ++
    (if schemes.isEmpty then [] else [("securitySchemes", .map schemes)])

/-- The document of a model. -/
def document (model : Model) (version : String) : Except ShapeError Datum := do
  let components ← components model.components
  let info ← info model.info
  let servers ← model.servers.mapM server
  let tags ← model.tags.values.mapM tag
  let paths ← paths model
  return .record [
    ("openapi", .text version),
    ("info", info),
    ("servers", .list servers),
    ("tags", .list tags),
    ("paths", paths),
    ("components", components)]

end Layout

end DocCompiler
