import DocCompiler.Data.Datum

/-!
The parts that an API document is made of: general information, servers, tags, operations, parameters,
bodies, responses, schemas and references to named ones. A part holds the values that it was given, with
null for those it was not given, and the parts nested in it. Nothing keeps a part from standing where
another kind of part belongs: what goes through a model finds that out.
-/

namespace DocCompiler

/-- The collections of components that references point into. -/
inductive Collection
  | schemas
  | parameters
  | requestBodies
  | responses
  deriving DecidableEq, Repr, Inhabited

namespace Collection

/-- The name of a collection. -/
def name : Collection → String
  | .schemas => "schemas"
  | .parameters => "parameters"
  | .requestBodies => "requestBodies"
  | .responses => "responses"

/-- All collections, in the order in which they are gone through. -/
def all : List Collection :=
  [.schemas, .parameters, .requestBodies, .responses]

/-- The collection that a value names. -/
def ofDatum? (value : Datum) : Option Collection :=
  all.find? fun collection => value.isText collection.name

end Collection

/-- What a reference is bound to. -/
inductive Binding
  | unbound
  /-- The component that it names. -/
  | component
  /-- Something that is no part of the model. -/
  | foreign
  deriving DecidableEq, Repr, Inhabited

/-- A reference to a component, by collection and name. `expected` is the collection that fits where it
stands. A reference is recursive if following it leads back to where it stands. -/
structure Reference where
  collection : Datum
  name : Datum
  expected : Datum
  location : Option Location := none
  binding : Binding := .unbound
  recursive : Datum := .bool false
  deriving Repr, Inhabited

/-- The pointer that a reference is written as. -/
def Reference.pointer (reference : Reference) : String :=
  "#/components/" ++ reference.collection.display ++ "/" ++ reference.name.display

/-- Whether a reference is bound. -/
def Reference.isBound (reference : Reference) : Bool :=
  reference.binding ≠ .unbound

/-- What a schema says about a value as a whole. -/
structure Facets where
  name : Datum := .null
  title : Datum := .null
  description : Datum := .null
  type : Datum := .null
  format : Datum := .null
  required : Datum := .list []
  sample : Datum := .null
  enum : Datum := .null
  default : Datum := .null
  minimum : Datum := .null
  maximum : Datum := .null
  nullable : Datum := .null
  readOnly : Datum := .null
  writeOnly : Datum := .null
  place : Option Location := none
  deriving Repr, Inhabited

/-- What a parameter of an operation says besides its schema. -/
structure Parameter where
  name : Datum := .text ""
  location : Datum := .text ""
  description : Datum := .null
  required : Datum := .null
  deprecated : Datum := .null
  sample : Datum := .null
  place : Option Location := none
  deriving Repr, Inhabited

/-- What the body of a request says besides its content. -/
structure RequestBody where
  description : Datum := .null
  required : Datum := .null
  place : Option Location := none
  deriving Repr, Inhabited

/-- What a response says besides its content. -/
structure Response where
  description : Datum := .null
  place : Option Location := none
  deriving Repr, Inhabited

/-- A way to authenticate. -/
structure SecurityScheme where
  type : Datum := .text ""
  scheme : Datum := .null
  bearerFormat : Datum := .null
  location : Datum := .null
  name : Datum := .null
  description : Datum := .null
  place : Option Location := none
  deriving Repr, Inhabited

/-- What an operation says besides its parameters, body and responses. -/
structure Operation where
  method : Datum
  path : Datum
  operationId : Datum
  tags : Datum := .list []
  summary : Datum := .null
  description : Datum := .null
  deprecated : Datum := .null
  security : Datum := .null
  place : Option Location := none
  deriving Repr, Inhabited

/-- Whom to ask about the API. -/
structure Contact where
  name : Datum := .null
  email : Datum := .null
  url : Datum := .null
  deriving Repr, Inhabited

/-- The licence of the API. -/
structure License where
  name : Datum := .null
  url : Datum := .null
  identifier : Datum := .null
  deriving Repr, Inhabited

/-- General information about the API, besides contact and licence. -/
structure Info where
  title : Datum := .null
  version : Datum := .null
  description : Datum := .null
  termsOfService : Datum := .null
  place : Option Location := none
  deriving Repr, Inhabited

/-- A server that offers the API. -/
structure Server where
  url : Datum
  description : Datum := .null
  deriving Repr, Inhabited

/-- A tag that groups operations. -/
structure ApiTag where
  name : Datum
  description : Datum := .null
  deriving Repr, Inhabited

/-- A part of a document with the parts nested in it. Properties, responses and content are listed in
order by name, status and media type. -/
inductive Part
  | info (info : Info) (contact license : Option Part)
  | contact (contact : Contact)
  | license (license : License)
  | server (server : Server)
  | tag (tag : ApiTag)
  | operation (operation : Operation) (parameters : List Part) (body : Option Part)
      (responses : List (Datum × Part))
  | parameter (parameter : Parameter) (schema : Option Part)
  | requestBody (body : RequestBody) (content : List (Datum × Part))
  | response (response : Response) (content : List (Datum × Part))
  | mediaType (sample : Datum) (schema : Option Part)
  | schema (facets : Facets) (properties : List (Datum × Part)) (items : Option Part)
  | reference (link : Reference)
  | securityScheme (scheme : SecurityScheme)
  deriving Repr

instance : Inhabited Part := ⟨.info {} none none⟩

namespace Part

/-- The name of the kind of a part. -/
def kindName : Part → String
  | .info .. => "Info"
  | .contact _ => "Contact"
  | .license _ => "License"
  | .server _ => "Server"
  | .tag _ => "Tag"
  | .operation .. => "Operation"
  | .parameter .. => "Parameter"
  | .requestBody .. => "RequestBody"
  | .response .. => "Response"
  | .mediaType .. => "MediaType"
  | .schema .. => "Schema"
  | .reference _ => "Reference"
  | .securityScheme _ => "SecurityScheme"

/-- The place of a part, for the kinds that have one. -/
def place : Part → Option Location
  | .info value _ _ => value.place
  | .operation value _ _ _ => value.place
  | .parameter value _ => value.place
  | .requestBody value _ => value.place
  | .response value _ => value.place
  | .schema facets _ _ => facets.place
  | .reference link => link.location
  | .securityScheme value => value.place
  | .contact _ | .license _ | .server _ | .tag _ | .mediaType .. => none

/-- The name of a part, for the kinds that have one. -/
def name? : Part → Option Datum
  | .contact value => some value.name
  | .license value => some value.name
  | .tag value => some value.name
  | .parameter value _ => some value.name
  | .schema facets _ _ => some facets.name
  | .reference link => some link.name
  | .securityScheme value => some value.name
  | _ => none

/-- The address of a part, for the kinds that have one. -/
def url? : Part → Option Datum
  | .contact value => some value.url
  | .license value => some value.url
  | .server value => some value.url
  | _ => none

end Part

/-- An operation with the parts nested in it. -/
structure Endpoint where
  operation : Operation
  parameters : List Part := []
  body : Option Part := none
  responses : List (Datum × Part) := []
  deriving Repr, Inhabited

/-- The part that an endpoint is. -/
def Endpoint.part (endpoint : Endpoint) : Part :=
  .operation endpoint.operation endpoint.parameters endpoint.body endpoint.responses

/-- The endpoint that a part is. -/
def Part.endpoint? : Part → Option Endpoint
  | .operation value parameters body responses =>
      some { operation := value, parameters, body, responses }
  | _ => none

/-- Parts by name, in order. -/
abbrev Registry := List (Datum × Part)

end DocCompiler
