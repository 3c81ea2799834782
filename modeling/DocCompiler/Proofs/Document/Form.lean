import DocCompiler.Annotation.Tree
import DocCompiler.Document.Layout
import DocCompiler.Proofs.Data.Registry

/-!
The form of models whose parts stand where parts of their kind belong, with values and references of
given kinds in them.
-/

namespace DocCompiler

open Annotation (LeafKind)

/-- The marker of a constant. -/
def Datum.IsMarker (value : Datum) : Prop :=
  ∃ marker, value = .unresolved marker

/-- What may stand in a model: the data of leaves by kind, and the references in the place of a
component of a collection. -/
structure Terms where
  leaf : LeafKind → Datum → Prop
  link : Collection → Reference → Prop
  text (value : String) : leaf .string (.text value)
  bool (value : Bool) : leaf .boolean (.bool value)

namespace Terms

variable (terms : Terms)

/-- A value that is there: data of a kind, or the marker of a constant. -/
def Stated (kind : LeafKind) (value : Datum) : Prop :=
  value.IsMarker ∨ terms.leaf kind value

/-- A value that may be absent. -/
def Given (kind : LeafKind) (value : Datum) : Prop :=
  value = .null ∨ terms.Stated kind value

/-- A list of texts and markers. -/
def Listed (value : Datum) : Prop :=
  ∃ items, value = .list items ∧ ∀ item ∈ items, terms.Stated .string item

/-- The same values with other references. -/
def withLink (link : Collection → Reference → Prop) : Terms :=
  { terms with link }

variable {terms}

theorem stated_text (value : String) : terms.Stated .string (.text value) :=
  .inr (terms.text value)

theorem given_null (kind : LeafKind) : terms.Given kind .null :=
  .inl rfl

end Terms

section Forms

variable (terms : Terms)

structure Facets.Fits (facets : Facets) : Prop where
  name : terms.Given .string facets.name
  title : terms.Given .string facets.title
  description : terms.Given .string facets.description
  type : terms.Given .string facets.type
  format : terms.Given .string facets.format
  required : terms.Listed facets.required
  enum : facets.enum = .null ∨ ∃ items, facets.enum = .list items
  minimum : terms.Given .number facets.minimum
  maximum : terms.Given .number facets.maximum
  nullable : terms.Given .boolean facets.nullable
  readOnly : terms.Given .boolean facets.readOnly
  writeOnly : terms.Given .boolean facets.writeOnly

/-- A parameter in the path says whether it is required. -/
structure Parameter.Fits (parameter : Parameter) : Prop where
  name : terms.Stated .string parameter.name
  location : terms.Stated .string parameter.location
  description : terms.Given .string parameter.description
  required : terms.Given .boolean parameter.required
  inPath : parameter.location.isText "path" = true → parameter.required ≠ .null
  deprecated : terms.Given .boolean parameter.deprecated

structure RequestBody.Fits (body : RequestBody) : Prop where
  description : terms.Given .string body.description
  required : terms.Given .boolean body.required

def Response.Fits (response : Response) : Prop :=
  terms.Given .string response.description

structure SecurityScheme.Fits (value : SecurityScheme) : Prop where
  type : terms.Stated .string value.type
  scheme : terms.Given .string value.scheme
  bearerFormat : terms.Given .string value.bearerFormat
  location : terms.Given .string value.location
  name : terms.Given .string value.name
  description : terms.Given .string value.description

structure Contact.Fits (contact : Contact) : Prop where
  name : terms.Given .string contact.name
  email : terms.Given .string contact.email
  url : terms.Given .string contact.url

structure License.Fits (license : License) : Prop where
  name : terms.Given .string license.name
  url : terms.Given .string license.url
  identifier : terms.Given .string license.identifier

structure Info.Fits (info : Info) : Prop where
  title : terms.Given .string info.title
  version : terms.Given .string info.version
  description : terms.Given .string info.description
  termsOfService : terms.Given .string info.termsOfService

structure Server.Fits (server : Server) : Prop where
  url : terms.Stated .string server.url
  description : terms.Given .string server.description

structure ApiTag.Fits (tag : ApiTag) : Prop where
  name : terms.Stated .string tag.name
  description : terms.Given .string tag.description

structure Operation.Fits (operation : Operation) : Prop where
  method : ∃ name ∈ Layout.methodOrder, operation.method = .text name
  path : terms.Stated .string operation.path
  operationId : terms.Stated .string operation.operationId
  tags : terms.Listed operation.tags
  summary : terms.Given .string operation.summary
  description : terms.Given .string operation.description
  deprecated : terms.Given .boolean operation.deprecated

mutual

/-- A schema, or a reference to one. -/
def Part.IsSchema : Part → Prop
  | .reference link => terms.link .schemas link
  | .schema facets properties items =>
      facets.Fits terms ∧ Datum.Distinct properties ∧ Part.AreProperties properties ∧
        Part.IsSchema? items
  | _ => False

/-- Schemas under texts. -/
def Part.AreProperties : Registry → Prop
  | [] => True
  | (name, part) :: rest =>
      terms.leaf .string name ∧ Part.IsSchema part ∧ Part.AreProperties rest

/-- A schema that may be missing. -/
def Part.IsSchema? : Option Part → Prop
  | none => True
  | some part => Part.IsSchema part

end

/-- The content of a media type. -/
def Part.IsMedia : Part → Prop
  | .mediaType _ inner => Part.IsSchema? terms inner
  | _ => False

/-- Content under the names of media types. -/
structure IsContent (content : Registry) : Prop where
  distinct : Datum.Distinct content
  named : ∀ entry ∈ content, entry.1.asText = entry.1
  media : ∀ entry ∈ content, entry.2.IsMedia terms

/-- A component of a collection, or a reference to one. -/
def Part.IsEntry : Collection → Part → Prop
  | collection, .reference link => terms.link collection link
  | .schemas, part => part.IsSchema terms
  | .parameters, .parameter value inner => value.Fits terms ∧ Part.IsSchema? terms inner
  | .requestBodies, .requestBody value content => value.Fits terms ∧ IsContent terms content
  | .responses, .response value content => value.Fits terms ∧ IsContent terms content
  | _, _ => False

structure Endpoint.Fits (endpoint : Endpoint) : Prop where
  operation : endpoint.operation.Fits terms
  parameters : ∀ part ∈ endpoint.parameters, part.IsEntry terms .parameters
  body : ∀ part ∈ endpoint.body, part.IsEntry terms .requestBodies
  distinct : Datum.Distinct endpoint.responses
  statuses : ∀ entry ∈ endpoint.responses, terms.Stated .string entry.1
  responses : ∀ entry ∈ endpoint.responses, entry.2.IsEntry terms .responses

/-- Components under texts, each in the collection of its kind. -/
structure Components.Fits (components : Components) : Prop where
  distinct : ∀ collection, Datum.Distinct (components.entries collection)
  named : ∀ collection, ∀ entry ∈ components.entries collection, terms.leaf .string entry.1
  entries : ∀ collection, ∀ entry ∈ components.entries collection, entry.2.IsEntry terms collection
  schemes : ∀ entry ∈ components.securitySchemes, ∃ scheme : SecurityScheme,
    entry.2 = .securityScheme scheme ∧ scheme.Fits terms
  distinctSchemes : Datum.Distinct components.securitySchemes
  namedSchemes : ∀ entry ∈ components.securitySchemes, terms.leaf .string entry.1

/-- General information with contact and licence in their places. -/
def Part.IsInfo : Part → Prop
  | .info value person conditions =>
      value.Fits terms ∧
        (∀ part ∈ person, ∃ contact : Contact, part = .contact contact ∧ contact.Fits terms) ∧
        ∀ part ∈ conditions, ∃ license : License, part = .license license ∧ license.Fits terms
  | _ => False

/-- A model with every part in its place. Operations stand under their paths and methods. -/
structure Model.Fits (model : Model) : Prop where
  info : model.info.IsInfo terms
  servers : ∀ part ∈ model.servers, ∃ server : Server, part = .server server ∧ server.Fits terms
  tags : ∀ entry ∈ model.tags, ∃ tag : ApiTag, entry.2 = .tag tag ∧ tag.Fits terms ∧
    entry.1 = tag.name.display
  endpoints : ∀ entry ∈ model.paths, ∀ found ∈ entry.2, found.2.Fits terms ∧
    found.1 = found.2.operation.method ∧ entry.1 = found.2.operation.path.display
  distinctMethods : ∀ entry ∈ model.paths, Datum.Distinct entry.2
  distinctPaths : (model.paths.map (·.1)).Nodup
  distinctTags : (model.tags.map (·.1)).Nodup
  components : model.components.Fits terms

end Forms

section Lemmas

variable {terms : Terms}

theorem Part.areProperties_iff {properties : Registry} :
    Part.AreProperties terms properties ↔
      ∀ entry ∈ properties, terms.leaf .string entry.1 ∧ entry.2.IsSchema terms := by
  induction properties with
  | nil => simp [Part.AreProperties]
  | cons entry rest ih => simp [Part.AreProperties, ih, and_assoc]

@[simp] theorem Part.isSchema?_iff {found : Option Part} :
    Part.IsSchema? terms found ↔ ∀ part ∈ found, part.IsSchema terms := by
  cases found <;> simp [Part.IsSchema?]

mutual

private theorem Part.isSchema_rec {motive : Part → Prop}
    (reference : ∀ link, terms.link .schemas link → motive (.reference link))
    (schema : ∀ facets properties items, facets.Fits terms → Datum.Distinct properties →
      (∀ entry ∈ properties, terms.leaf .string entry.1 ∧ entry.2.IsSchema terms ∧ motive entry.2) →
      (∀ part ∈ items, part.IsSchema terms ∧ motive part) → motive (.schema facets properties items)) :
    (part : Part) → part.IsSchema terms → motive part
  | .reference link, h => reference link h
  | .schema facets properties items, ⟨hfacets, hdistinct, hproperties, hitems⟩ =>
      schema facets properties items hfacets hdistinct
        (Part.areProperties_rec reference schema properties hproperties)
        (Part.isSchema?_rec reference schema items hitems)
  | .info .., h | .contact _, h | .license _, h | .server _, h | .tag _, h | .operation .., h
  | .parameter .., h | .requestBody .., h | .response .., h | .mediaType .., h
  | .securityScheme _, h => h.elim

private theorem Part.areProperties_rec {motive : Part → Prop}
    (reference : ∀ link, terms.link .schemas link → motive (.reference link))
    (schema : ∀ facets properties items, facets.Fits terms → Datum.Distinct properties →
      (∀ entry ∈ properties, terms.leaf .string entry.1 ∧ entry.2.IsSchema terms ∧ motive entry.2) →
      (∀ part ∈ items, part.IsSchema terms ∧ motive part) → motive (.schema facets properties items)) :
    (properties : Registry) → Part.AreProperties terms properties →
      ∀ entry ∈ properties, terms.leaf .string entry.1 ∧ entry.2.IsSchema terms ∧ motive entry.2
  | [], _ => by simp
  | (name, part) :: rest, ⟨hname, hpart, hrest⟩ => by
      rw [List.forall_mem_cons]
      exact ⟨⟨hname, hpart, Part.isSchema_rec reference schema part hpart⟩,
        Part.areProperties_rec reference schema rest hrest⟩

private theorem Part.isSchema?_rec {motive : Part → Prop}
    (reference : ∀ link, terms.link .schemas link → motive (.reference link))
    (schema : ∀ facets properties items, facets.Fits terms → Datum.Distinct properties →
      (∀ entry ∈ properties, terms.leaf .string entry.1 ∧ entry.2.IsSchema terms ∧ motive entry.2) →
      (∀ part ∈ items, part.IsSchema terms ∧ motive part) → motive (.schema facets properties items)) :
    (found : Option Part) → Part.IsSchema? terms found →
      ∀ part ∈ found, part.IsSchema terms ∧ motive part
  | none, _ => by simp
  | some part, h => by
      intro _ hpart
      obtain rfl := Option.some.inj hpart
      exact ⟨h, Part.isSchema_rec reference schema part h⟩

end

/-- Schemas are references, or have schemas as properties and items. -/
theorem Part.IsSchema.induction {motive : Part → Prop} {part : Part} (h : part.IsSchema terms)
    (reference : ∀ link, terms.link .schemas link → motive (.reference link))
    (schema : ∀ facets properties items, facets.Fits terms → Datum.Distinct properties →
      (∀ entry ∈ properties, terms.leaf .string entry.1 ∧ entry.2.IsSchema terms ∧ motive entry.2) →
      (∀ part ∈ items, part.IsSchema terms ∧ motive part) → motive (.schema facets properties items)) :
    motive part :=
  Part.isSchema_rec reference schema part h

theorem Part.isSchema_schema_iff {facets : Facets} {properties : Registry} {items : Option Part} :
    (Part.schema facets properties items).IsSchema terms ↔
      facets.Fits terms ∧ Datum.Distinct properties ∧
        (∀ entry ∈ properties, terms.leaf .string entry.1 ∧ entry.2.IsSchema terms) ∧
        ∀ part ∈ items, part.IsSchema terms := by
  rw [Part.IsSchema, Part.areProperties_iff, Part.isSchema?_iff]

/-- Media types have schemas, if anything. -/
theorem Part.isMedia_iff {part : Part} :
    part.IsMedia terms ↔
      ∃ sample inner, part = .mediaType sample inner ∧ ∀ part ∈ inner, part.IsSchema terms := by
  cases part <;> simp [Part.IsMedia]

theorem Part.isEntry_schemas_iff {part : Part} :
    part.IsEntry terms .schemas ↔ part.IsSchema terms := by
  cases part <;> exact Iff.rfl

theorem Part.isEntry_parameters_iff {part : Part} :
    part.IsEntry terms .parameters ↔
      (∃ link, part = .reference link ∧ terms.link .parameters link) ∨
        ∃ value inner, part = .parameter value inner ∧ value.Fits terms ∧
          ∀ part ∈ inner, part.IsSchema terms := by
  cases part <;> simp [Part.IsEntry]

theorem Part.isEntry_requestBodies_iff {part : Part} :
    part.IsEntry terms .requestBodies ↔
      (∃ link, part = .reference link ∧ terms.link .requestBodies link) ∨
        ∃ value content, part = .requestBody value content ∧ value.Fits terms ∧
          IsContent terms content := by
  cases part <;> simp [Part.IsEntry]

theorem Part.isEntry_responses_iff {part : Part} :
    part.IsEntry terms .responses ↔
      (∃ link, part = .reference link ∧ terms.link .responses link) ∨
        ∃ value content, part = .response value content ∧ value.Fits terms ∧
          IsContent terms content := by
  cases part <;> simp [Part.IsEntry]

@[simp] theorem Part.isEntry_reference_iff {collection : Collection} {link : Reference} :
    (Part.reference link).IsEntry terms collection ↔ terms.link collection link := by
  cases collection <;> rfl

section WithLink

variable {link' : Collection → Reference → Prop}

theorem Server.Fits.withLink {server : Server} (h : server.Fits terms) :
    server.Fits (terms.withLink link') :=
  { h with }

theorem ApiTag.Fits.withLink {tag : ApiTag} (h : tag.Fits terms) : tag.Fits (terms.withLink link') :=
  { h with }

theorem SecurityScheme.Fits.withLink {scheme : SecurityScheme} (h : scheme.Fits terms) :
    scheme.Fits (terms.withLink link') :=
  { h with }

theorem Part.IsInfo.withLink {part : Part} (h : part.IsInfo terms) :
    part.IsInfo (terms.withLink link') := by
  cases part with
  | info value person conditions =>
      obtain ⟨hvalue, hperson, hconditions⟩ := h
      refine ⟨{ hvalue with }, fun part hpart => ?_, fun part hpart => ?_⟩
      · obtain ⟨contact, rfl, hcontact⟩ := hperson part hpart
        exact ⟨contact, rfl, { hcontact with }⟩
      · obtain ⟨license, rfl, hlicense⟩ := hconditions part hpart
        exact ⟨license, rfl, { hlicense with }⟩
  | _ => exact h.elim

end WithLink

end Lemmas

end DocCompiler
