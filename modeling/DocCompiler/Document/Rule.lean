import DocCompiler.Document.Route
import DocCompiler.Document.Walk
import DocCompiler.Source.Diagnostic
import DocCompiler.Text.Word
import DocCompiler.Text.LetterCase

/-!
Rules that a document must keep, run one after the other over all parts of the resolved model. A value
that a rule cannot look at stops it.
-/

namespace DocCompiler

/-- A part that breaks a rule. -/
structure Breach where
  rule : String
  entity : String
  message : String
  place : Option Location := none
  deriving DecidableEq, Repr, Inhabited

/-- The diagnostic for a breach. -/
def Breach.diagnostic (breach : Breach) : Diagnostic :=
  { phase := .validate, severity := .error, message := breach.message
    place := breach.place.map .ofLocation, rule := .text breach.rule, entity := .text breach.entity }

/-- A rule: its name, and the breaches it finds in a model with its parts. -/
structure Rule where
  name : String
  breaches : Model → Parts → Except ShapeError (List Breach)

namespace Rule

/-- The operations among parts, with their paths. -/
def endpointsOf (parts : Parts) : List (String × Endpoint) :=
  parts.filterMap fun (path, part) => part.endpoint?.map fun endpoint => (path, endpoint)

/-- What an operation is called in messages. Its method must be a text. -/
def label (operation : Operation) : Except ShapeError String :=
  match operation.method.text? with
  | some method => .ok (Text.upper method ++ " " ++ operation.path.display)
  | none => .error (.noFields operation.method.kindName)

/-- Every operation declares a response. -/
def operationResponses : Rule where
  name := "operation-responses"
  breaches _ parts :=
    ((endpointsOf parts).filter fun (_, endpoint) => endpoint.responses.isEmpty).mapM
      fun (path, endpoint) => do
        return { rule := "operation-responses", entity := path
                 message := (← label endpoint.operation) ++ " declares no responses"
                 place := endpoint.operation.place }

/-- The breaches of unique identifiers among operations; `seen` holds the first operation with each
identifier, with its path. -/
def repeatedIds (seen : List (Datum × (String × Operation))) :
    List (String × Operation) → Except ShapeError (List Breach)
  | [] => .ok []
  | (path, operation) :: rest =>
      let id := operation.operationId
      let breach (message : String) : Breach :=
        { rule := "unique-operation-id", entity := path, message, place := operation.place }
      match id with
      | .unresolved _ => repeatedIds seen rest
      | _ =>
          if !id.isTruthy then do
            return breach "operationId is empty" :: (← repeatedIds seen rest)
          else if !id.isHashable then .error .wrongKind
          else
            match Datum.lookup id seen with
            | some (firstPath, first) => do
                let message := "operationId '" ++ id.display ++ "' is already used by " ++
                  (← label first) ++ " (" ++ first.place.elim firstPath Location.text ++ ")"
                return breach message :: (← repeatedIds seen rest)
            | none => repeatedIds ((id, (path, operation)) :: seen) rest

/-- No two operations have the same identifier, and none has an empty one. -/
def uniqueOperationId : Rule where
  name := "unique-operation-id"
  breaches _ parts :=
    repeatedIds [] ((endpointsOf parts).map fun (path, endpoint) => (path, endpoint.operation))

/-- The places that a parameter may be passed in. -/
def parameterLocations : List String :=
  ["path", "query", "header", "cookie"]

/-- Whether a value is false itself, and not only counts as such. -/
def isFalse : Datum → Bool
  | .bool value => !value
  | _ => false

/-- The breaches of the shape of one parameter. -/
def shapeBreaches (path : String) (parameter : Parameter) : List Breach :=
  let breach (message : String) : Breach :=
    { rule := "parameter-shape", entity := path, message, place := parameter.place }
  let name := parameter.name.display
  let location := parameter.location
  let unnamed := if parameter.name.isTruthy then [] else [breach "parameter has no name"]
  let misplaced :=
    match location with
    | .unresolved _ => []
    | _ =>
        if !location.isAmong parameterLocations then
          let shown := if location.isTruthy then "'" ++ location.display ++ "'" else "missing"
          [breach ("parameter '" ++ name ++ "' location is " ++ shown ++
            "; expected one of " ++ ", ".intercalate parameterLocations)]
        else if location.isText "path" && isFalse parameter.required then
          [breach ("path parameter '" ++ name ++ "' must be required")]
        else []
  unnamed ++ misplaced

/-- Parameters have a name and a known location, and those in the path are required. -/
def parameterShape : Rule where
  name := "parameter-shape"
  breaches _ parts := .ok <| parts.flatMap fun (path, part) =>
    match part with
    | .parameter parameter _ => shapeBreaches path parameter
    | _ => []

/-- The part that following bound references leads to; `fuel` bounds their number. -/
def dereference (components : Components) : (fuel : Nat) → Part → Part
  | fuel + 1, .reference link =>
      match components.target? link with
      | some part => dereference components fuel part
      | none => .reference link
  | _, part => part

/-- The name of a parameter in the path. -/
def pathName? : Part → Option Datum
  | .parameter parameter _ =>
      if parameter.location.isText "path" then some parameter.name.asText else none
  | _ => none

/-- The names of the parameters that an operation has in its path. -/
def pathParameterNames (components : Components) (endpoint : Endpoint) : List Datum :=
  endpoint.parameters.filterMap fun given =>
    pathName? (dereference components (components.size + 1) given)

/-- The breaches of the path of one operation. -/
def pathBreaches (components : Components) (path : String) (endpoint : Endpoint) :
    Except ShapeError (List Breach) :=
  let operation := endpoint.operation
  match operation.path with
  | .unresolved _ => .ok []
  | .text route =>
      let placeholders := Route.placeholders route
      let declared := pathParameterNames components endpoint
      let breach (message : String) : Breach :=
        { rule := "path-parameters", entity := path, message, place := operation.place }
      .ok <|
        (placeholders.filter fun name => !declared.any (·.isText name)).map (fun name =>
            breach ("path placeholder \x7b" ++ name ++ "\x7d in " ++ route ++
              " has no path parameter")) ++
          (declared.filter fun name => !placeholders.any (name.isText ·)).map fun name =>
            breach ("path parameter '" ++ name.display ++ "' does not appear in " ++ route)
  | _ => .error .wrongKind

/-- The placeholders of a path and the parameters of its operation in the path match both ways. -/
def pathParameters : Rule where
  name := "path-parameters"
  breaches model parts := do
    let found ← (endpointsOf parts).mapM fun (path, endpoint) =>
      pathBreaches model.linked path endpoint
    return found.flatten

/-- The breach of a required name that is not declared among properties. -/
def undeclared? (path : String) (facets : Facets) (properties : Registry) (name : Datum) :
    Except ShapeError (Option Breach) :=
  match name with
  | .unresolved _ => .ok none
  | _ =>
      if !name.isHashable then .error .wrongKind
      else if (Datum.lookup name properties).isSome then .ok none
      else
        .ok (some
          { rule := "required-properties", entity := path
            message := "required property '" ++ name.display ++ "' is not declared"
            place := facets.place })

/-- Required properties are declared. -/
def requiredProperties : Rule where
  name := "required-properties"
  breaches _ parts := do
    let found ← parts.mapM fun (path, part) =>
      match part with
      | .schema facets properties _ => do
          let breaches ← (← facets.required.members).mapM (undeclared? path facets properties)
          return breaches.filterMap id
      | _ => return []
    return found.flatten

/-- Whether a text is a status code: a digit from one to five and two digits more. A line break may
follow them. -/
def isStatusCode (status : String) : Bool :=
  let digits :=
    match status.toList with
    | [a, b, c] => [a, b, c]
    | [a, b, c, '\n'] => [a, b, c]
    | _ => []
  match digits with
  | [a, b, c] => '1' ≤ a && a ≤ '5' && Text.isDecimal b && Text.isDecimal c
  | _ => false

/-- The breach of a response that is declared for something else than a status code. -/
def wrongStatus? (path : String) (operation : Operation) (status : Datum) (response : Part) :
    Except ShapeError (Option Breach) :=
  match status with
  | .unresolved _ => .ok none
  | .text status =>
      if status == "default" || isStatusCode status then .ok none
      else
        .ok (some
          { rule := "status-codes", entity := path ++ ".responses." ++ status
            message := "'" ++ status ++ "' is not a valid status code; use 100-599 or \"default\""
            place := response.place.or operation.place })
  | _ => .error .wrongKind

/-- Responses are declared for status codes or by default. -/
def statusCodes : Rule where
  name := "status-codes"
  breaches _ parts := do
    let found ← (endpointsOf parts).mapM fun (path, endpoint) =>
      endpoint.responses.mapM fun (status, response) =>
        wrongStatus? path endpoint.operation status response
    return found.flatten.filterMap id

mutual

/-- The markers in a plain value. -/
def datumMarkers : Datum → List Marker
  | .unresolved marker => [marker]
  | .list items => itemMarkers items
  | .map entries => entryMarkers entries
  | .pair first second => datumMarkers first ++ datumMarkers second
  | _ => []

/-- The markers in items. -/
def itemMarkers : List Datum → List Marker
  | [] => []
  | item :: rest => datumMarkers item ++ itemMarkers rest

/-- The markers in entries. -/
def entryMarkers : List (Datum × Datum) → List Marker
  | [] => []
  | (key, item) :: rest => datumMarkers key ++ datumMarkers item ++ entryMarkers rest

end

/-- The names of parts nested in a part, as one value. -/
def namesOf (registry : Registry) : Datum :=
  .list (registry.map (·.1))

/-- The values of a part by the names of their fields, in order; of nested parts the names only. -/
def fieldsOf : Part → List (String × Datum)
  | .info info _ _ =>
      [("title", info.title), ("version", info.version), ("description", info.description),
        ("terms_of_service", info.termsOfService)]
  | .contact contact => [("name", contact.name), ("email", contact.email), ("url", contact.url)]
  | .license license =>
      [("name", license.name), ("url", license.url), ("identifier", license.identifier)]
  | .server server => [("url", server.url), ("description", server.description)]
  | .tag tag => [("name", tag.name), ("description", tag.description)]
  | .operation operation _ _ responses =>
      [("method", operation.method), ("path", operation.path),
        ("operation_id", operation.operationId), ("tags", operation.tags),
        ("summary", operation.summary), ("description", operation.description),
        ("deprecated", operation.deprecated), ("security", operation.security),
        ("responses", namesOf responses)]
  | .parameter parameter _ =>
      [("name", parameter.name), ("in_", parameter.location),
        ("description", parameter.description), ("required", parameter.required),
        ("deprecated", parameter.deprecated), ("example", parameter.sample)]
  | .requestBody body content =>
      [("description", body.description), ("required", body.required),
        ("content", namesOf content)]
  | .response response content =>
      [("description", response.description), ("content", namesOf content)]
  | .mediaType sample _ => [("example", sample)]
  | .schema facets properties _ =>
      [("name", facets.name), ("title", facets.title), ("description", facets.description),
        ("type", facets.type), ("format", facets.format), ("properties", namesOf properties),
        ("required", facets.required), ("example", facets.sample), ("enum", facets.enum),
        ("default", facets.default), ("minimum", facets.minimum), ("maximum", facets.maximum),
        ("nullable", facets.nullable), ("read_only", facets.readOnly),
        ("write_only", facets.writeOnly)]
  | .reference link =>
      [("collection", link.collection), ("name", link.name), ("expected", link.expected),
        ("recursive", link.recursive)]
  | .securityScheme scheme =>
      [("type", scheme.type), ("scheme", scheme.scheme), ("bearer_format", scheme.bearerFormat),
        ("in_", scheme.location), ("name", scheme.name), ("description", scheme.description)]

/-- The markers in a part, each with the field that holds it. -/
def markers (part : Part) : List (String × Marker) :=
  (fieldsOf part).flatMap fun (field, value) =>
    (datumMarkers value).map fun marker => (field, marker)

/-- No marker of a constant is left. -/
def unresolvedConstants : Rule where
  name := "unresolved-constants"
  breaches _ parts := .ok <| parts.flatMap fun (path, part) =>
    (markers part).map fun (field, marker) =>
      { rule := "unresolved-constants", entity := path
        message := "constant '" ++ marker.name ++ "' used for " ++ field ++ " is not defined"
        place := marker.location.or part.place }

/-- The breach of a field of the general information that is not given. -/
def missing? (info : Info) (field : String) (value : Datum) : Option Breach :=
  if value.isTruthy then none
  else
    some { rule := "info-metadata", entity := "info"
           message := "document has no " ++ field ++
             "; declare it in @Info or the info section of the configuration"
           place := info.place }

/-- The document has a title and a version. -/
def infoMetadata : Rule where
  name := "info-metadata"
  breaches model _ :=
    match model.info with
    | .info info _ _ =>
        .ok ((missing? info "title" info.title).toList ++
          (missing? info "version" info.version).toList)
    | part => .error (.noFields part.kindName)

/-- All rules, in the order in which they are run. -/
def all : List Rule :=
  [operationResponses, uniqueOperationId, parameterShape, pathParameters, requiredProperties,
    statusCodes, unresolvedConstants, infoMetadata]

/-- The rule with a given name. -/
def find? (name : String) : Option Rule :=
  all.find? fun rule => rule.name == name

end Rule

/-- The breaches of rules in a model, rule by rule. -/
def Model.breaches (model : Model) (rules : List Rule) : Except ShapeError (List Breach) := do
  let parts ← model.parts
  let found ← rules.mapM fun rule => rule.breaches model parts
  return found.flatten

end DocCompiler
