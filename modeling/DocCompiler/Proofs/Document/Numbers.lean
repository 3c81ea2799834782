import DocCompiler.Document.Resolve
import DocCompiler.Proofs.Data.Numbers
import DocCompiler.Proofs.Document.Change
import DocCompiler.Proofs.Document.Layout
import DocCompiler.Proofs.Document.Replace

/-!
The numbers in a document are those in the data of its model. What resolves a model leaves its data alone.
-/

namespace DocCompiler

namespace Part

/-- The data of a part that stand in a document, besides names. -/
def data : Part → List Datum
  | .info value _ _ => [value.title, value.version, value.description, value.termsOfService]
  | .contact value => [value.name, value.email, value.url]
  | .license value => [value.name, value.url, value.identifier]
  | .server value => [value.url, value.description]
  | .tag value => [value.name, value.description]
  | .operation value _ _ _ =>
      [value.operationId, value.summary, value.description, value.deprecated, value.security]
  | .parameter value _ =>
      [value.name, value.location, value.description, value.required, value.deprecated, value.sample]
  | .requestBody value _ => [value.description, value.required]
  | .response value _ => [value.description]
  | .mediaType sample _ => [sample]
  | .schema facets _ _ =>
      [facets.name, facets.title, facets.description, facets.type, facets.format, facets.sample, facets.enum,
        facets.default, facets.minimum, facets.maximum, facets.nullable, facets.readOnly, facets.writeOnly]
  | .reference _ => []
  | .securityScheme value =>
      [value.type, value.scheme, value.bearerFormat, value.location, value.name, value.description]

/-- The names in a part: those of the parts nested in it, the one that a reference names, and lists of
names. -/
def names : Part → List Datum
  | .operation value _ _ responses => value.method :: value.tags :: responses.map (·.1)
  | .requestBody _ content | .response _ content => content.map (·.1)
  | .schema facets properties _ => facets.required :: properties.map (·.1)
  | .reference link => [link.name]
  | _ => []

/-- The parts directly nested in a part. -/
def nested : Part → List Part
  | .info _ person terms => person.toList ++ terms.toList
  | .operation _ parameters body responses => parameters ++ body.toList ++ responses.map (·.2)
  | .parameter _ inner | .mediaType _ inner => inner.toList
  | .requestBody _ content | .response _ content => content.map (·.2)
  | .schema _ properties items => properties.map (·.2) ++ items.toList
  | _ => []

end Part

section Numbers

variable (admits : Number → Prop)

/-- All numbers in a part are admitted, as they stand in a document, and so are those in the parts nested in
it. -/
inductive Part.Numbers : Part → Prop
  | of {part : Part} (data : ∀ value ∈ part.data, value.settled.Numbers admits)
      (names : ∀ name ∈ part.names, name.Numbers admits)
      (nested : ∀ inner ∈ part.nested, Part.Numbers inner) : Part.Numbers part

/-- All numbers in components are admitted. -/
structure Components.Numbers (components : Components) : Prop where
  entries : ∀ collection, ∀ entry ∈ components.entries collection,
    entry.1.Numbers admits ∧ entry.2.Numbers admits
  schemes : ∀ entry ∈ components.securitySchemes, entry.1.Numbers admits ∧ entry.2.Numbers admits

/-- All numbers in a model are admitted. -/
structure Model.Numbers (model : Model) : Prop where
  info : model.info.Numbers admits
  servers : ∀ part ∈ model.servers, part.Numbers admits
  tags : ∀ entry ∈ model.tags, entry.2.Numbers admits
  paths : ∀ entry ∈ model.paths, ∀ found ∈ entry.2,
    found.1.Numbers admits ∧ found.2.part.Numbers admits
  components : model.components.Numbers admits

variable {admits}

theorem Part.numbers_iff {part : Part} :
    part.Numbers admits ↔ (∀ value ∈ part.data, value.settled.Numbers admits) ∧
      (∀ name ∈ part.names, name.Numbers admits) ∧ ∀ inner ∈ part.nested, inner.Numbers admits :=
  ⟨fun ⟨data, names, nested⟩ => ⟨data, names, nested⟩, fun ⟨data, names, nested⟩ => .of data names nested⟩

theorem Part.numbers_reference_iff {link : Reference} :
    (Part.reference link).Numbers admits ↔ link.name.Numbers admits := by
  refine ⟨fun ⟨_, names, _⟩ => names _ List.mem_cons_self, fun h => ?_⟩
  exact .of (List.forall_mem_nil _) (List.forall_mem_singleton.mpr h) (List.forall_mem_nil _)

namespace Datum

theorem mem_settledEntries {entries : List (Datum × Datum)} {entry : Datum × Datum}
    (h : entry ∈ settledEntries entries) : ∃ given ∈ entries, entry = (given.1.asText, given.2.settled) := by
  rw [settledEntries_eq_map] at h
  obtain ⟨given, hgiven, rfl⟩ := List.mem_map.mp h
  exact ⟨given, hgiven, rfl⟩

/-- A settled mapping has texts as keys. -/
theorem numbers_settled_map {entries : List (Datum × Datum)}
    (h : ∀ entry ∈ entries, entry.2.settled.Numbers admits) : (Datum.map entries).settled.Numbers admits := by
  rw [settled, numbers_map_iff]
  intro entry hentry
  obtain ⟨hkey, hvalue⟩ := mem_distinctEntries hentry
  obtain ⟨given, hgiven, hkey⟩ := List.mem_map.mp hkey
  obtain ⟨other, hother, hvalue⟩ := List.mem_map.mp hvalue
  obtain ⟨old, -, rfl⟩ := mem_settledEntries hgiven
  obtain ⟨found, hfound, rfl⟩ := mem_settledEntries hother
  rw [← hkey, ← hvalue]
  exact ⟨numbers_asText _, h found hfound⟩

theorem numbers_settled_list {items : List Datum} (h : ∀ item ∈ items, item.settled.Numbers admits) :
    (Datum.list items).settled.Numbers admits := by
  rw [settled, numbers_list_iff, settledItems_eq_map, List.forall_mem_map]
  exact h

mutual

theorem numbers_settled : (value : Datum) → value.Numbers admits → value.settled.Numbers admits
  | .list items, h => numbers_settled_list (numbers_settledItems items h)
  | .map entries, h => numbers_settled_map (numbers_settledEntries entries h)
  | .pair first second, h => by
      rw [settled, numbers_list_iff]
      simpa using ⟨numbers_settled first h.1, numbers_settled second h.2⟩
  | .unresolved _, _ => trivial
  | .null, h | .bool _, h | .number _, h | .text _, h | .codes _, h | .date _, h | .moment _, h
  | .bytes _, h | .set _, h | .again _, h => h

theorem numbers_settledItems : (items : List Datum) → AllNumbers admits items →
    ∀ item ∈ items, item.settled.Numbers admits
  | [], _ => by simp
  | item :: rest, h =>
      List.forall_mem_cons.mpr ⟨numbers_settled item h.1, numbers_settledItems rest h.2⟩

theorem numbers_settledEntries : (entries : List (Datum × Datum)) → EntryNumbers admits entries →
    ∀ entry ∈ entries, entry.2.settled.Numbers admits
  | [], _ => by simp
  | (_, item) :: rest, h =>
      List.forall_mem_cons.mpr ⟨numbers_settled item h.2.1, numbers_settledEntries rest h.2.2⟩

end

end Datum

namespace Layout

variable {rendered : Datum}

theorem numbers_compact {fields : List (String × Datum)}
    (h : ∀ field ∈ fields, field.2.settled.Numbers admits) : (compact fields).Numbers admits := by
  refine Datum.numbers_record fun field hfield => ?_
  obtain ⟨given, hgiven, rfl⟩ := List.mem_map.mp hfield
  exact h given (List.mem_filter.mp hgiven).1

theorem numbers_several (hint : ∀ value, admits (.int value)) {value : Datum} (hvalue : value.Numbers admits)
    (h : several value = .ok rendered) : rendered.settled.Numbers admits := by
  obtain ⟨members, hmembers, h⟩ := Result.bind_eq_ok_iff.mp h
  cases h
  split_ifs
  · trivial
  · exact Datum.numbers_settled _ (Datum.numbers_list_iff.mpr (Datum.numbers_members hint hvalue hmembers))

theorem numbers_mapping {entries : List (Datum × Datum)}
    (h : ∀ entry ∈ entries, entry.1.Numbers admits ∧ entry.2.Numbers admits) :
    (mapping entries).Numbers admits := by
  rw [mapping]
  split_ifs
  · trivial
  · exact Datum.numbers_map_iff.mpr h

/-- Entries whose names and parts have admitted numbers are rendered with admitted numbers. -/
theorem numbers_entries {entry : Part → Except ShapeError Datum} {registry : Registry}
    {found : List (Datum × Datum)} (h : entries entry registry = .ok found)
    (hnames : ∀ given ∈ registry, given.1.Numbers admits)
    (hparts : ∀ given ∈ registry, ∀ rendered, entry given.2 = .ok rendered → rendered.Numbers admits) :
    ∀ result ∈ found, result.1.Numbers admits ∧ result.2.Numbers admits := by
  intro result hresult
  obtain ⟨given, hgiven, hname, hpart⟩ :=
    Result.exists_left_of_forall₂ (entries_eq_ok_iff.mp h) hresult
  exact ⟨hname ▸ hnames given hgiven, hparts given hgiven _ hpart⟩

variable (hint : ∀ value, admits (.int value))

include hint

/-- A schema is rendered with the numbers in its data. -/
theorem numbers_schema {part : Part} (hpart : part.Numbers admits) (h : schema part = .ok rendered) :
    rendered.Numbers admits := by
  induction hpart generalizing rendered with
  | @of part data names _ ih =>
    cases part with
    | reference link =>
        cases h
        exact Datum.numbers_record (by simp [Datum.Numbers])
    | schema facets properties items =>
        obtain ⟨found, required, inner, hfound, hrequired, hinner, rfl⟩ := schema_eq_ok_iff.mp h
        simp only [Part.data, Part.names, List.forall_mem_cons, List.forall_mem_map] at data names
        have hproperties : (mapping found).Numbers admits := by
          refine numbers_mapping fun result hresult => ?_
          obtain ⟨given, hgiven, hname, hschema⟩ :=
            Result.exists_left_of_forall₂ (schemas_eq_ok_iff.mp hfound) hresult
          refine ⟨hname ▸ names.2 given hgiven, ih given.2 ?_ hschema⟩
          exact List.mem_append_left _ (List.mem_map_of_mem hgiven)
        have hitems : inner.Numbers admits := by
          cases items with
          | none =>
              cases hinner
              trivial
          | some item => exact ih item (List.mem_append_right _ (by simp)) hinner
        refine numbers_compact ?_
        simp only [schemaFields, List.forall_mem_cons]
        simp [data, numbers_several hint names.1 hrequired, Datum.numbers_settled _ hproperties,
          Datum.numbers_settled _ hitems]
    | _ => cases h

theorem numbers_schema? {found : Option Part} (hfound : ∀ part ∈ found, part.Numbers admits)
    (h : schema? found = .ok rendered) : rendered.Numbers admits := by
  cases found with
  | none =>
      cases h
      trivial
  | some part => exact numbers_schema hint (hfound part rfl) h

theorem numbers_parameter {part : Part} (hpart : part.Numbers admits) (h : parameter part = .ok rendered) :
    rendered.Numbers admits := by
  obtain ⟨data, -, nested⟩ := hpart
  cases part with
  | reference link =>
      cases h
      exact Datum.numbers_record (by simp [Datum.Numbers])
  | parameter value inner =>
      obtain ⟨schema, hschema, rfl⟩ := parameter_eq_ok_iff.mp h
      have hinner : schema.Numbers admits :=
        numbers_schema? hint (fun part hpart => nested part (by simpa [Part.nested] using hpart)) hschema
      simp only [Part.data, List.forall_mem_cons] at data
      refine numbers_compact ?_
      simp only [parameterFields, List.forall_mem_cons]
      simp [data, Datum.numbers_settled _ hinner]
  | _ => cases h

theorem numbers_mediaType {part : Part} (hpart : part.Numbers admits) (h : mediaType part = .ok rendered) :
    rendered.Numbers admits := by
  obtain ⟨data, -, nested⟩ := hpart
  cases part with
  | mediaType sample inner | parameter value inner =>
      obtain ⟨schema, hschema, h⟩ := Result.bind_eq_ok_iff.mp h
      cases h
      have hinner : schema.Numbers admits :=
        numbers_schema? hint (fun part hpart => nested part (by simpa [Part.nested] using hpart)) hschema
      simp only [Part.data, List.forall_mem_cons] at data
      refine numbers_compact ?_
      simp [data, Datum.numbers_settled _ hinner]
  | _ => cases h

/-- Content is rendered with the numbers in its data. -/
theorem numbers_content {content : Registry} {found : List (Datum × Datum)}
    (names : ∀ name ∈ content.map (·.1), name.Numbers admits)
    (nested : ∀ inner ∈ content.map (·.2), inner.Numbers admits)
    (h : entries mediaType content = .ok found) :
    ∀ result ∈ found, result.1.Numbers admits ∧ result.2.Numbers admits :=
  numbers_entries h (List.forall_mem_map.mp names) fun given hgiven _ hrendered =>
    numbers_mediaType hint (nested given.2 (List.mem_map_of_mem hgiven)) hrendered

theorem numbers_requestBody {part : Part} (hpart : part.Numbers admits) (h : requestBody part = .ok rendered) :
    rendered.Numbers admits := by
  obtain ⟨data, names, nested⟩ := hpart
  cases part with
  | reference link =>
      cases h
      exact Datum.numbers_record (by simp [Datum.Numbers])
  | requestBody value content =>
      obtain ⟨found, hfound, rfl⟩ := requestBody_eq_ok_iff.mp h
      have hcontent : (Datum.map found).Numbers admits :=
        Datum.numbers_map_iff.mpr (numbers_content hint names nested hfound)
      simp only [Part.data, List.forall_mem_cons] at data
      refine numbers_compact ?_
      simp [data, Datum.numbers_settled _ hcontent]
  | response value content =>
      obtain ⟨_, -, h⟩ := Result.bind_eq_ok_iff.mp h
      cases h
  | _ => cases h

theorem numbers_described {description : Datum} {content : Registry}
    (hdescription : description.settled.Numbers admits)
    (names : ∀ name ∈ content.map (·.1), name.Numbers admits)
    (nested : ∀ inner ∈ content.map (·.2), inner.Numbers admits)
    (h : described description content = .ok rendered) : rendered.Numbers admits := by
  obtain ⟨found, hfound, h⟩ := Result.bind_eq_ok_iff.mp h
  cases h
  have hcontent := numbers_mapping (numbers_content hint names nested hfound)
  have htext : (if description.isTruthy then description else .text "").settled.Numbers admits := by
    split_ifs
    · exact hdescription
    · trivial
  refine numbers_compact ?_
  simp [htext, Datum.numbers_settled _ hcontent]

theorem numbers_response {part : Part} (hpart : part.Numbers admits) (h : response part = .ok rendered) :
    rendered.Numbers admits := by
  obtain ⟨data, names, nested⟩ := hpart
  cases part with
  | reference link =>
      cases h
      exact Datum.numbers_record (by simp [Datum.Numbers])
  | response value content => exact numbers_described hint (data _ (by simp [Part.data])) names nested h
  | requestBody value content => exact numbers_described hint (data _ (by simp [Part.data])) names nested h
  | _ => cases h

theorem numbers_responses {registry : Registry} {found : List (Datum × Datum)}
    (hparts : ∀ entry ∈ registry, entry.2.Numbers admits) (h : responses registry = .ok found) :
    (Datum.map found).Numbers admits := by
  obtain ⟨results, hresults, rfl⟩ := responses_eq_ok_iff.mp h
  have hall : ∀ result ∈ results, result.1.Numbers admits ∧ result.2.Numbers admits := by
    intro result hresult
    obtain ⟨given, hgiven, hname, hpart⟩ := Result.exists_left_of_forall₂ hresults hresult
    exact ⟨hname ▸ Datum.numbers_asText _, numbers_response hint (hparts given hgiven) hpart⟩
  rw [Datum.numbers_map_iff]
  intro entry hentry
  obtain ⟨hkey, hvalue⟩ := Datum.mem_distinctEntries hentry
  obtain ⟨first, hfirst, hkey⟩ := List.mem_map.mp hkey
  obtain ⟨second, hsecond, hvalue⟩ := List.mem_map.mp hvalue
  exact ⟨hkey ▸ (hall first hfirst).1, hvalue ▸ (hall second hsecond).2⟩

theorem numbers_operation {endpoint : Endpoint} (hpart : endpoint.part.Numbers admits)
    (h : operation endpoint = .ok rendered) : rendered.Numbers admits := by
  obtain ⟨data, names, nested⟩ := hpart
  obtain ⟨parameters, body, tags, found, hparameters, hbody, htags, hfound, rfl⟩ := operation_eq_ok_iff.mp h
  simp only [Endpoint.part, Part.data, Part.names, Part.nested, List.forall_mem_cons, List.forall_mem_append,
    List.forall_mem_map] at data names nested
  have hlist : (if parameters.isEmpty then .null else Datum.list parameters).Numbers admits := by
    split_ifs
    · trivial
    · refine Datum.numbers_list_iff.mpr fun item hitem => ?_
      obtain ⟨part, hpart, hitem⟩ := Result.mem_of_mapM_eq_ok hparameters hitem
      exact numbers_parameter hint (nested.1.1 part hpart) hitem
  have hbodies : body.Numbers admits := by
    cases hpart : endpoint.body with
    | none =>
        rw [hpart] at hbody
        cases hbody
        trivial
    | some part =>
        rw [hpart] at hbody
        exact numbers_requestBody hint (nested.1.2 part (by simp [hpart])) hbody
  have hanswers := numbers_responses hint nested.2 hfound
  refine numbers_compact ?_
  generalize (if parameters.isEmpty then .null else Datum.list parameters) = listed at hlist ⊢
  simp only [operationFields, List.forall_mem_cons]
  simp [data, numbers_several hint names.2.1 htags, Datum.numbers_settled _ hlist,
    Datum.numbers_settled _ hbodies, Datum.numbers_settled _ hanswers]

theorem numbers_methods {endpoints : List (Datum × Endpoint)}
    (hparts : ∀ found ∈ endpoints, found.1.Numbers admits ∧ found.2.part.Numbers admits)
    (h : methods endpoints = .ok rendered) : rendered.Numbers admits := by
  obtain ⟨order, laid, hperm, hlaid, rfl⟩ := methods_eq_ok h
  rw [Datum.numbers_map_iff]
  intro entry hentry
  obtain ⟨found, hfound, hname, hoperation⟩ := Result.exists_left_of_forall₂ hlaid hentry
  obtain ⟨hmethod, hpart⟩ := hparts found (hperm.mem_iff.mp hfound)
  exact ⟨hname ▸ hmethod, numbers_operation hint hpart hoperation⟩

theorem numbers_paths {model : Model}
    (hparts : ∀ entry ∈ model.paths, ∀ found ∈ entry.2,
      found.1.Numbers admits ∧ found.2.part.Numbers admits)
    (h : paths model = .ok rendered) : rendered.Numbers admits := by
  obtain ⟨order, laid, hperm, hlaid, rfl⟩ := paths_eq_ok h
  refine Datum.numbers_record fun field hfield => ?_
  obtain ⟨given, hgiven, -, hmethods⟩ := Result.exists_left_of_forall₂ hlaid hfield
  exact numbers_methods hint (hparts given (hperm.mem_iff.mp hgiven)) hmethods

omit hint

theorem numbers_securityScheme {part : Part} (hpart : part.Numbers admits)
    (h : securityScheme part = .ok rendered) : rendered.Numbers admits := by
  obtain ⟨data, -, -⟩ := hpart
  cases part with
  | securityScheme scheme =>
      cases h
      simp only [Part.data, List.forall_mem_cons] at data
      refine numbers_compact ?_
      simp [data]
  | _ => cases h

theorem numbers_contact {part : Part} (hpart : part.Numbers admits) (h : contact part = .ok rendered) :
    rendered.Numbers admits := by
  obtain ⟨data, -, -⟩ := hpart
  cases part with
  | contact value =>
      cases h
      simp only [Part.data, List.forall_mem_cons] at data
      refine numbers_compact ?_
      simp [data]
  | _ => cases h

theorem numbers_license {part : Part} (hpart : part.Numbers admits) (h : license part = .ok rendered) :
    rendered.Numbers admits := by
  obtain ⟨data, -, -⟩ := hpart
  cases part with
  | license value =>
      cases h
      simp only [Part.data, List.forall_mem_cons] at data
      refine numbers_compact ?_
      simp [data]
  | _ => cases h

theorem numbers_server {part : Part} (hpart : part.Numbers admits) (h : server part = .ok rendered) :
    rendered.Numbers admits := by
  obtain ⟨data, -, -⟩ := hpart
  cases part with
  | server value =>
      cases h
      simp only [Part.data, List.forall_mem_cons] at data
      refine numbers_compact ?_
      simp [data]
  | _ => cases h

theorem numbers_tag {part : Part} (hpart : part.Numbers admits) (h : tag part = .ok rendered) :
    rendered.Numbers admits := by
  obtain ⟨data, -, -⟩ := hpart
  cases part with
  | tag value | parameter value _ | schema facets _ _ | securityScheme value =>
      cases h
      simp only [Part.data, List.forall_mem_cons] at data
      refine numbers_compact ?_
      simp [data]
  | _ => cases h

/-- A part that may be absent is rendered with admitted numbers when one that is there is. -/
theorem numbers_elim {render : Part → Except ShapeError Datum} {found : Option Part}
    (hrender : ∀ part ∈ found, ∀ rendered, render part = .ok rendered → rendered.Numbers admits)
    (h : found.elim (pure .null) render = .ok rendered) : rendered.Numbers admits := by
  cases found with
  | none =>
      cases h
      trivial
  | some part => exact hrender part rfl rendered h

theorem numbers_info {part : Part} (hpart : part.Numbers admits) (h : info part = .ok rendered) :
    rendered.Numbers admits := by
  obtain ⟨data, -, nested⟩ := hpart
  cases part with
  | info value person terms =>
      simp only [info, Result.bind_eq_ok_iff, Result.pure_eq_ok_iff] at h
      obtain ⟨contact, hcontact, license, hlicense, rfl⟩ := h
      simp only [Part.data, Part.nested, List.forall_mem_cons, List.forall_mem_append] at data nested
      have hperson : contact.Numbers admits := numbers_elim
        (fun part hpart _ => numbers_contact (nested.1 part (by simpa using hpart))) hcontact
      have hterms : license.Numbers admits := numbers_elim
        (fun part hpart _ => numbers_license (nested.2 part (by simpa using hpart))) hlicense
      refine numbers_compact ?_
      simp [data, Datum.numbers_settled _ hperson, Datum.numbers_settled _ hterms]
  | _ => cases h

include hint

theorem numbers_component {collection : Collection} {part : Part} (hpart : part.Numbers admits)
    (h : component collection part = .ok rendered) : rendered.Numbers admits := by
  cases collection with
  | schemas => exact numbers_schema hint hpart h
  | parameters => exact numbers_parameter hint hpart h
  | requestBodies => exact numbers_requestBody hint hpart h
  | responses => exact numbers_response hint hpart h

theorem numbers_components {components : Components} (hparts : components.Numbers admits)
    (h : Layout.components components = .ok rendered) : rendered.Numbers admits := by
  have hentries : ∀ collection found,
      entries (component collection) (components.entries collection) = .ok found →
        (Datum.map found).Numbers admits := fun collection found hfound =>
    Datum.numbers_map_iff.mpr <| numbers_entries hfound
      (fun given hgiven => (hparts.entries collection given hgiven).1)
      fun given hgiven _ => numbers_component hint (hparts.entries collection given hgiven).2
  simp only [Layout.components, Result.bind_eq_ok_iff, Result.pure_eq_ok_iff] at h
  obtain ⟨schemas, hschemas, parameters, hparameters, requestBodies, hrequestBodies, responses,
    hresponses, schemes, hschemes, rfl⟩ := h
  have hsecurity : (Datum.map schemes).Numbers admits :=
    Datum.numbers_map_iff.mpr <| numbers_entries hschemes (fun given hgiven => (hparts.schemes given hgiven).1)
      fun given hgiven _ => numbers_securityScheme (hparts.schemes given hgiven).2
  refine Datum.numbers_record (List.forall_mem_append.mpr ⟨?_, ?_⟩)
  · simp [hentries .schemas _ hschemas, hentries .parameters _ hparameters,
      hentries .requestBodies _ hrequestBodies, hentries .responses _ hresponses]
  · split_ifs
    · simp
    · simpa using hsecurity

/-- A model is rendered with the numbers in its data. -/
theorem numbers_document {model : Model} (hparts : model.Numbers admits) {version : String}
    (h : document model version = .ok rendered) : rendered.Numbers admits := by
  obtain ⟨components, info, servers, tags, paths, hcomponents, hinfo, hservers, htags, hpaths, rfl⟩ :=
    document_eq_ok_iff.mp h
  have hserved : (Datum.list servers).Numbers admits := by
    refine Datum.numbers_list_iff.mpr fun item hitem => ?_
    obtain ⟨part, hpart, hitem⟩ := Result.mem_of_mapM_eq_ok hservers hitem
    exact numbers_server (hparts.servers part hpart) hitem
  have htagged : (Datum.list tags).Numbers admits := by
    refine Datum.numbers_list_iff.mpr fun item hitem => ?_
    obtain ⟨part, hpart, hitem⟩ := Result.mem_of_mapM_eq_ok htags hitem
    obtain ⟨entry, hentry, rfl⟩ := List.mem_map.mp hpart
    exact numbers_tag (hparts.tags entry hentry) hitem
  refine Datum.numbers_record ?_
  simp [Datum.numbers_text, numbers_info hparts.info hinfo, hserved, htagged,
    numbers_paths hint hparts.paths hpaths, numbers_components hint hparts.components hcomponents]

end Layout

end Numbers

end DocCompiler
