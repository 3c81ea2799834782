import DocCompiler.Data.OrderedMap
import DocCompiler.Data.Shape
import DocCompiler.Document.Part

/-!
The model of an API document: general information, servers, tags, operations and components, and what
changes it.
-/

namespace DocCompiler

/-- The named parts that references point to, and the ways to authenticate. -/
structure Components where
  schemas : Registry := []
  parameters : Registry := []
  requestBodies : Registry := []
  responses : Registry := []
  securitySchemes : Registry := []
  deriving Repr, Inhabited

namespace Components

/-- The entries of a collection. -/
def entries (components : Components) : Collection → Registry
  | .schemas => components.schemas
  | .parameters => components.parameters
  | .requestBodies => components.requestBodies
  | .responses => components.responses

/-- The component with a name in a collection. -/
def get? (components : Components) (collection : Collection) (name : Datum) : Option Part :=
  Datum.lookup name (components.entries collection)

/-- Puts a component under a name into a collection. -/
def put (components : Components) (collection : Collection) (name : Datum) (part : Part) :
    Components :=
  match collection with
  | .schemas => { components with schemas := Datum.insertEntry name part components.schemas }
  | .parameters =>
      { components with parameters := Datum.insertEntry name part components.parameters }
  | .requestBodies =>
      { components with requestBodies := Datum.insertEntry name part components.requestBodies }
  | .responses => { components with responses := Datum.insertEntry name part components.responses }

/-- The number of components that references may point to. -/
def size (components : Components) : Nat :=
  components.schemas.length + components.parameters.length + components.requestBodies.length +
    components.responses.length

/-- The component that a reference is bound to. -/
def target? (components : Components) (link : Reference) : Option Part :=
  match link.binding, Collection.ofDatum? link.collection with
  | .component, some collection => components.get? collection link.name
  | _, _ => none

end Components

/-- The model of a document. Operations are kept by path and method; a frozen model takes nothing more.
`linked` holds the components as they were when references were bound. -/
structure Model where
  info : Part := .info {} none none
  servers : List Part := []
  tags : OrderedMap Part := []
  paths : OrderedMap (List (Datum × Endpoint)) := []
  components : Components := {}
  linked : Components := {}
  frozen : Bool := false
  deriving Repr, Inhabited

/-- Why a model is not changed. -/
inductive ModelError
  | frozen
  | unknownCollection (name : String)
  /-- What is added does not fit. -/
  | misfit (error : ShapeError)
  deriving DecidableEq, Repr, Inhabited

/-- The wording of an error that has one. -/
def ModelError.message? : ModelError → Option String
  | .frozen => some "document model is frozen"
  | .unknownCollection name => some ("unknown components collection '" ++ name ++ "'")
  | .misfit _ => none

namespace Model

/-- The model after its last change. -/
def freeze (model : Model) : Model :=
  { model with frozen := true }

/-- A model after a change, unless it is frozen or the change fails. -/
def change (model : Model) (changed : Except ModelError Model) : Model × Option ModelError :=
  if model.frozen then (model, some .frozen)
  else
    match changed with
    | .ok changed => (changed, none)
    | .error error => (model, some error)

/-- Puts an endpoint under a path and its method. -/
def putEndpoint (model : Model) (path : String) (endpoint : Endpoint) : Model :=
  let methods := (model.paths.get? path).getD []
  { model with
    paths :=
      model.paths.put path (Datum.insertEntry endpoint.operation.method endpoint methods) }

/-- Adds an operation; it takes the place of one with the same path and method. A method that cannot be
a key leaves the path without an operation. -/
def addOperation (model : Model) (part : Part) : Model × Option ModelError :=
  match part.endpoint? with
  | none => model.change (.error (.misfit (.noFields part.kindName)))
  | some endpoint =>
      let path := endpoint.operation.path.display
      if endpoint.operation.method.isHashable then model.change (.ok (model.putEndpoint path endpoint))
      else if model.frozen then (model, some .frozen)
      else
        ({ model with paths := model.paths.put path ((model.paths.get? path).getD []) },
          some (.misfit .wrongKind))

/-- Adds a server, at the end or in front. -/
def addServer (model : Model) (server : Part) (first : Bool := false) :
    Model × Option ModelError :=
  model.change <| .ok
    { model with servers := if first then server :: model.servers else model.servers ++ [server] }

/-- Adds a tag; it takes the place of one with the same name. -/
def addTag (model : Model) (tag : Part) : Model × Option ModelError :=
  model.change <|
    match tag.name? with
    | some name => .ok { model with tags := model.tags.put name.display tag }
    | none => .error (.misfit (.noFields tag.kindName))

/-- Registers a component under a name. -/
def register (model : Model) (collection : Collection) (name : Datum) (part : Part) :
    Model × Option ModelError :=
  model.change <|
    if name.isHashable then .ok { model with components := model.components.put collection name part }
    else .error (.misfit .wrongKind)

/-- Registers a way to authenticate under a name. -/
def registerScheme (model : Model) (name : Datum) (part : Part) : Model × Option ModelError :=
  let parts := model.components
  model.change <|
    if name.isHashable then
      .ok { model with
            components :=
              { parts with securitySchemes := Datum.insertEntry name part parts.securitySchemes } }
    else .error (.misfit .wrongKind)

/-- Registers a component in the collection that a value names. -/
def registerIn (model : Model) (collection name : Datum) (part : Part) :
    Model × Option ModelError :=
  if collection.isText "securitySchemes" then model.registerScheme name part
  else
    match Collection.ofDatum? collection with
    | some collection => model.register collection name part
    | none =>
        model.change <| .error <|
          if collection.isHashable then .unknownCollection collection.display
          else .misfit .wrongKind

/-- All endpoints, by path and method. -/
def endpoints (model : Model) : List Endpoint :=
  model.paths.values.flatMap fun methods => methods.map (·.2)

end Model

/-- What a configuration says about the document; a missing or empty text says nothing. -/
structure Overrides where
  title : Option String := none
  version : Option String := none
  description : Option String := none
  baseUrl : Option String := none
  deriving DecidableEq, Repr, Inhabited

/-- A text that is given and not empty. -/
def given? (text : Option String) : Option String :=
  text.filter (!·.isEmpty)

namespace Model

/-- The model with the texts of a configuration in place of those of the annotations. -/
def overrideInfo (model : Model) (overrides : Overrides) : Model :=
  let settled (text : Option String) (old : Datum) : Datum :=
    (given? text).elim old .text
  match model.info with
  | .info info contact license =>
      let info :=
        { info with
          title := settled overrides.title info.title
          version := settled overrides.version info.version
          description := settled overrides.description info.description }
      { model with info := .info info contact license }
  | _ => model

/-- Applies a configuration to a model. Its server comes first, in place of servers with the same
address. On a frozen model only that server cannot be added; the error comes with the model as it then
is. -/
def applyOverrides (model : Model) (overrides : Overrides) : Model × Option ModelError :=
  let model := model.overrideInfo overrides
  match given? overrides.baseUrl with
  | none => (model, none)
  | some url =>
      match model.servers.find? fun server => server.url?.isNone with
      | some server => (model, some (.misfit (.noFields server.kindName)))
      | none =>
          let others := model.servers.filter fun server => !server.url?.any (·.isText url)
          ({ model with servers := others }).addServer (.server { url := .text url }) true

end Model

end DocCompiler
