import DocCompiler.Document.Model

/-!
All parts of a model in document order, each with its path. References are not followed. The walk meets
an obstacle where a part of another kind stands in place of general information or of the content of a
media type.
-/

namespace DocCompiler

/-- Parts with their paths, in order. -/
abbrev Parts := List (String × Part)

/-- A walk: the parts with their paths, and the obstacles where it cannot go on, in order. -/
abbrev Walk := List (Except ShapeError (String × Part))

mutual

/-- A part and those nested in it that stand in schemas or hold some. -/
def Part.walk (path : String) : Part → Walk
  | .schema facets properties items =>
      .ok (path, .schema facets properties items) ::
        (Part.walkProperties path properties ++ Part.walkSchema (path ++ ".items") items)
  | .parameter value inner =>
      .ok (path, .parameter value inner) :: Part.walkSchema (path ++ ".schema") inner
  | .requestBody value content =>
      .ok (path, .requestBody value content) :: Part.walkContent path content
  | .response value content =>
      .ok (path, .response value content) :: Part.walkContent path content
  | part => [.ok (path, part)]

/-- The schemas of properties. -/
def Part.walkProperties (path : String) : Registry → Walk
  | [] => []
  | (name, part) :: rest =>
      Part.walk (path ++ ".properties." ++ name.display) part ++ Part.walkProperties path rest

/-- A schema that may be missing. -/
def Part.walkSchema (path : String) : Option Part → Walk
  | none => []
  | some part => Part.walk path part

/-- Content by media type. -/
def Part.walkContent (path : String) : Registry → Walk
  | [] => []
  | (type, media) :: rest =>
      Part.walkMedia (path ++ ".content." ++ type.display) media ++ Part.walkContent path rest

/-- The content of one media type: a part with a schema. -/
def Part.walkMedia (path : String) : Part → Walk
  | .mediaType sample inner =>
      .ok (path, .mediaType sample inner) :: Part.walkSchema (path ++ ".schema") inner
  | .parameter value inner =>
      .ok (path, .parameter value inner) :: Part.walkSchema (path ++ ".schema") inner
  | part => [.ok (path, part), .error (.noFields part.kindName)]

end

/-- An operation and its parts. -/
def Endpoint.walk (path : String) (endpoint : Endpoint) : Walk :=
  let parameters := endpoint.parameters.zipIdx.flatMap fun (parameter, index) =>
    Part.walk (path ++ ".parameters[" ++ toString index ++ "]") parameter
  let body := Part.walkSchema (path ++ ".requestBody") endpoint.body
  let responses := endpoint.responses.flatMap fun (status, response) =>
    Part.walk (path ++ ".responses." ++ status.display) response
  .ok (path, endpoint.part) :: (parameters ++ body ++ responses)

/-- The entries of a collection. -/
def Components.walkEntries (components : Components) (collection : Collection) : Walk :=
  (components.entries collection).flatMap fun (name, entry) =>
    Part.walk ("components." ++ collection.name ++ "." ++ name.display) entry

/-- All components. -/
def Components.walk (components : Components) : Walk :=
  Collection.all.flatMap components.walkEntries ++
    components.securitySchemes.map fun (name, scheme) =>
      .ok ("components.securitySchemes." ++ name.display, scheme)

/-- General information with contact and licence. -/
def Model.walkInfo (model : Model) : Walk :=
  match model.info with
  | .info info contact license =>
      .ok ("info", .info info contact license) ::
        ((contact.toList.map fun part => .ok ("info.contact", part)) ++
          license.toList.map fun part => .ok ("info.license", part))
  | part => [.ok ("info", part), .error (.noFields part.kindName)]

/-- The whole walk of a model. -/
def Model.walk (model : Model) : Walk :=
  let servers : Walk := model.servers.zipIdx.map fun (server, index) =>
    .ok ("servers[" ++ toString index ++ "]", server)
  let tags : Walk := model.tags.map fun (name, tag) => .ok ("tags." ++ name, tag)
  let endpoints := model.paths.flatMap fun (path, methods) =>
    methods.flatMap fun (method, endpoint) =>
      endpoint.walk ("paths." ++ path ++ "." ++ method.display)
  model.walkInfo ++ servers ++ tags ++ endpoints ++ model.components.walk

/-- All parts of a model, unless its walk meets an obstacle. -/
def Model.parts (model : Model) : Except ShapeError Parts :=
  model.walk.mapM id

/-- The references among parts, with their paths. -/
def Parts.references (parts : Parts) : List (String × Reference) :=
  parts.filterMap fun (path, part) =>
    match part with
    | .reference link => some (path, link)
    | _ => none

section Replacing

variable {m : Type → Type} [Monad m] (f : Reference → m Reference)

mutual

/-- A part with the references that its walk meets replaced, in the order of the walk. -/
def Part.mapReferences : Part → m Part
  | .reference link => return .reference (← f link)
  | .schema facets properties items => do
      let properties ← Part.mapProperties properties
      let items ← Part.mapSchema items
      return .schema facets properties items
  | .parameter value inner => return .parameter value (← Part.mapSchema inner)
  | .requestBody value content => return .requestBody value (← Part.mapContent content)
  | .response value content => return .response value (← Part.mapContent content)
  | part => return part

/-- Properties with the references in them replaced. -/
def Part.mapProperties : Registry → m Registry
  | [] => return []
  | (name, part) :: rest => do
      let part ← Part.mapReferences part
      let rest ← Part.mapProperties rest
      return (name, part) :: rest

/-- A schema, if there is one, with the references in it replaced. -/
def Part.mapSchema : Option Part → m (Option Part)
  | none => return none
  | some part => return some (← Part.mapReferences part)

/-- Content with the references in it replaced. -/
def Part.mapContent : Registry → m Registry
  | [] => return []
  | (type, media) :: rest => do
      let media ← Part.mapMedia media
      let rest ← Part.mapContent rest
      return (type, media) :: rest

/-- The content of one media type with the references in it replaced. -/
def Part.mapMedia : Part → m Part
  | .reference link => return .reference (← f link)
  | .mediaType sample inner => return .mediaType sample (← Part.mapSchema inner)
  | .parameter value inner => return .parameter value (← Part.mapSchema inner)
  | part => return part

end

/-- A part that is a reference replaced; parts nested in it stay. -/
def Part.mapReference : Part → m Part
  | .reference link => return .reference (← f link)
  | part => return part

/-- An operation with the references in it replaced. -/
def Endpoint.mapReferences (endpoint : Endpoint) : m Endpoint := do
  let parameters ← endpoint.parameters.mapM (Part.mapReferences f)
  let body ← Part.mapSchema f endpoint.body
  let responses ← endpoint.responses.mapM fun (status, part) =>
    return (status, ← Part.mapReferences f part)
  return { endpoint with parameters, body, responses }

/-- Components with the references in them replaced. -/
def Components.mapReferences (components : Components) : m Components := do
  let inside (registry : Registry) : m Registry :=
    registry.mapM fun (name, part) => return (name, ← Part.mapReferences f part)
  let schemas ← inside components.schemas
  let parameters ← inside components.parameters
  let requestBodies ← inside components.requestBodies
  let responses ← inside components.responses
  let securitySchemes ← components.securitySchemes.mapM fun (name, part) =>
    return (name, ← Part.mapReference f part)
  return { schemas, parameters, requestBodies, responses, securitySchemes }

/-- General information with the references in place of contact and licence replaced. -/
def Part.mapInfo : Part → m Part
  | .info value person terms => do
      let person ← person.mapM (Part.mapReference f)
      let terms ← terms.mapM (Part.mapReference f)
      return .info value person terms
  | part => Part.mapReference f part

/-- A model with the references that its walk meets replaced, in the order of the walk. -/
def Model.mapReferences (model : Model) : m Model := do
  let info ← Part.mapInfo f model.info
  let servers ← model.servers.mapM (Part.mapReference f)
  let tags ← model.tags.mapM fun (name, tag) => return (name, ← Part.mapReference f tag)
  let paths ← model.paths.mapM fun (path, methods) => do
    let methods ← methods.mapM fun (method, endpoint) =>
      return (method, ← endpoint.mapReferences f)
    return (path, methods)
  let components ← model.components.mapReferences f
  return { model with info, servers, tags, paths, components }

end Replacing

end DocCompiler
