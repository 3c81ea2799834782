import DocCompiler.Proofs.Document.Follow

/-!
Schemas in documents, at any depth: each comes from a schema of the model.
-/

namespace DocCompiler

/-- A value stands in a document where a schema does: among the components, in a parameter, in content,
or in another schema. -/
inductive Document.HasSchema (document : Datum) : Datum → Prop
  | component {entry : Datum × Datum} (h : entry ∈ components document .schemas) :
      HasSchema document entry.2
  | parameter {value schema : Datum} (h : value ∈ positions document)
      (hschema : value.field? "schema" = some schema) : HasSchema document schema
  | content {value schema : Datum} {entry : Datum × Datum} (h : value ∈ positions document)
      (hentry : entry ∈ value.entriesUnder "content")
      (hschema : entry.2.field? "schema" = some schema) : HasSchema document schema
  | property {schema : Datum} {entry : Datum × Datum} (h : HasSchema document schema)
      (hentry : entry ∈ schema.entriesUnder "properties") : HasSchema document entry.2
  | items {schema inner : Datum} (h : HasSchema document schema)
      (hitems : schema.field? "items" = some inner) : HasSchema document inner

variable {terms : Terms}

namespace Layout

/-- A schema in a field is the rendering of the one that was given for it. -/
theorem exists_of_field?_compact {fields : List (String × Datum)} (h : (fields.map (·.1)).Nodup)
    {name : String} {found : Option Part} {rendered value : Datum}
    (hlookup : fields.lookup name = some rendered) (hrendered : schema? found = .ok rendered)
    (hfound : ∀ part ∈ found, part.IsSchema terms) (hvalue : (compact fields).field? name = some value) :
    ∃ part ∈ found, schema part = .ok value := by
  cases found with
  | none =>
      obtain rfl : Datum.null = rendered := Except.ok.inj hrendered
      rw [field?_compact_of_isSettled h hlookup rfl] at hvalue
      cases hvalue
  | some part =>
      obtain ⟨other, hother, hsettled⟩ := (hfound part rfl).layout
      obtain rfl : other = rendered := Except.ok.inj (hother.symm.trans hrendered)
      rw [field?_compact_of_isSettled h hlookup hsettled] at hvalue
      split at hvalue
      · cases hvalue
      · exact ⟨part, rfl, Option.some.inj hvalue ▸ hrendered⟩

/-- Keys that are texts stay as they are in a mapping. -/
theorem isSettled_of_forall₂ {entry : Part → Except ShapeError Datum} {registry : Registry}
    {found : List (Datum × Datum)} (hdistinct : Datum.Distinct registry)
    (hkeys : ∀ given ∈ registry, given.1.asText = given.1)
    (hsettled : ∀ given ∈ registry, ∀ rendered, entry given.2 = .ok rendered → rendered.IsSettled)
    (h : List.Forall₂ (fun given result => result.1 = given.1 ∧ entry given.2 = .ok result.2)
      registry found) : (Datum.map found).IsSettled := by
  have hnames : found.map (·.1) = registry.map (·.1) := by
    induction h with
    | nil => rfl
    | cons hfirst _ ih =>
        have hrest := ih (List.pairwise_cons.mp hdistinct).2
          (fun given hgiven => hkeys given (List.mem_cons_of_mem _ hgiven))
          fun given hgiven => hsettled given (List.mem_cons_of_mem _ hgiven)
        rw [List.map_cons, List.map_cons, hfirst.1, hrest]
  refine Datum.isSettled_map ?_ (fun result hresult => ?_) fun result hresult => ?_
  · rw [Datum.distinct_iff_keys, hnames]
    exact Datum.distinct_iff_keys.mp hdistinct
  · obtain ⟨given, hgiven, hname, -⟩ := Result.exists_left_of_forall₂ h hresult
    rw [hname, hkeys given hgiven]
  · obtain ⟨given, hgiven, -, hrendered⟩ := Result.exists_left_of_forall₂ h hresult
    exact hsettled given hgiven _ hrendered

section Schemas

variable {facets : Facets} {properties : Registry} {items : Option Part}
  (h : (Part.schema facets properties items).IsSchema terms) {rendered : Datum}
  (hrendered : schema (.schema facets properties items) = .ok rendered)

include h hrendered

theorem properties_of_schema (hkeys : ∀ name, terms.leaf .string name → name.asText = name) :
    List.Forall₂ (fun given entry => entry.1 = given.1 ∧ schema given.2 = .ok entry.2)
      properties (rendered.entriesUnder "properties") := by
  obtain ⟨-, hdistinct, hproperties, -⟩ := Part.isSchema_schema_iff.mp h
  obtain ⟨entries, required, inner, hentries, -, -, rfl⟩ := schema_eq_ok_iff.mp hrendered
  have hall := schemas_eq_ok_iff.mp hentries
  rw [entriesUnder_compact (nodup_schemaFields ..) rfl]
  · exact hall
  · refine isSettled_of_forall₂ hdistinct (fun given hgiven => hkeys _ (hproperties given hgiven).1)
      (fun given hgiven result hresult => ?_) hall
    obtain ⟨other, hother, hsettled⟩ := (hproperties given hgiven).2.layout
    exact Except.ok.inj (hother.symm.trans hresult) ▸ hsettled

theorem items_of_schema {inner : Datum} (hinner : rendered.field? "items" = some inner) :
    ∃ part ∈ items, schema part = .ok inner := by
  obtain ⟨-, -, -, hitems⟩ := Part.isSchema_schema_iff.mp h
  obtain ⟨entries, required, found, -, -, hfound, rfl⟩ := schema_eq_ok_iff.mp hrendered
  exact exists_of_field?_compact (nodup_schemaFields ..) rfl hfound hitems hinner

omit h in
theorem required_of_schema {names : List Datum} (hnames : facets.required = .list names)
    (hsettled : ∀ name ∈ names, name.IsSettled) : rendered.itemsUnder "required" = names := by
  obtain ⟨entries, required, found, -, hrequired, -, rfl⟩ := schema_eq_ok_iff.mp hrendered
  rw [hnames] at hrequired
  obtain rfl := Except.ok.inj hrequired
  exact itemsUnder_compact (nodup_schemaFields ..) rfl hsettled

end Schemas

theorem schema_of_parameter {value : Parameter} {inner : Option Part}
    (h : ∀ part ∈ inner, part.IsSchema terms) {rendered found : Datum}
    (hrendered : parameter (.parameter value inner) = .ok rendered)
    (hfound : rendered.field? "schema" = some found) : ∃ part ∈ inner, schema part = .ok found := by
  obtain ⟨other, hother, rfl⟩ := parameter_eq_ok_iff.mp hrendered
  exact exists_of_field?_compact (nodup_parameterFields ..) rfl hother h hfound

/-- The content of bodies and responses consists of media types with schemas. -/
theorem schema_of_content {content : Registry} (h : IsContent terms content)
    {entries : List (Datum × Datum)} (hentries : Layout.entries mediaType content = .ok entries) :
    (Datum.map entries).IsSettled ∧ ∀ entry ∈ entries, ∀ found, entry.2.field? "schema" = some found →
      ∃ type sample inner, (type, .mediaType sample inner) ∈ content ∧
        ∃ part ∈ inner, part.IsSchema terms ∧ schema part = .ok found := by
  have hall := entries_eq_ok_iff.mp hentries
  have hmedia : ∀ given ∈ content, ∀ rendered, mediaType given.2 = .ok rendered →
      ∃ sample inner schema, given.2 = .mediaType sample inner ∧
        (∀ part ∈ inner, part.IsSchema terms) ∧ schema? inner = .ok schema ∧
          rendered = compact [("schema", schema), ("example", sample)] := by
    intro given hgiven rendered hrendered
    obtain ⟨sample, inner, hpart, hinner⟩ := Part.isMedia_iff.mp (h.media given hgiven)
    rw [hpart, mediaType, Result.bind_eq_ok_iff] at hrendered
    obtain ⟨schema, hschema, heq⟩ := hrendered
    exact ⟨sample, inner, schema, hpart, hinner, hschema, (Except.ok.inj heq).symm⟩
  refine ⟨isSettled_of_forall₂ h.distinct h.named (fun given hgiven rendered hrendered => ?_) hall,
    fun entry hentry found hfound => ?_⟩
  · obtain ⟨sample, inner, schema, -, -, -, rfl⟩ := hmedia given hgiven rendered hrendered
    exact isSettled_compact (by simp)
  · obtain ⟨given, hgiven, -, hrendered⟩ := Result.exists_left_of_forall₂ hall hentry
    obtain ⟨sample, inner, schema, hpart, hinner, hschema, heq⟩ := hmedia given hgiven _ hrendered
    rw [heq] at hfound
    obtain ⟨part, hmem, hlaid⟩ := exists_of_field?_compact (by simp) rfl hschema hinner hfound
    exact ⟨given.1, sample, inner, hpart ▸ hgiven, part, hmem, hinner part hmem, hlaid⟩

end Layout

section Positions

variable {holds : Part → Prop} {place : Collection} {part : Part} {value : Datum}
  (hpart : part.IsEntry terms place) (hplace : place ≠ .schemas) (hall : part.Throughout holds)
  (hvalue : Layout.component place part = .ok value)

include hpart hplace hall hvalue

/-- Of what stands where a component does only parameters have a schema themselves. -/
theorem Part.IsEntry.exists_of_field?_schema {found : Datum}
    (hfound : value.field? "schema" = some found) :
    ∃ inner : Part, inner.IsSchema terms ∧ inner.Throughout holds ∧ Layout.schema inner = .ok found := by
  cases place with
  | schemas => exact absurd rfl hplace
  | parameters =>
      obtain ⟨link, rfl, -⟩ | ⟨given, inner, rfl, -, hinner⟩ := Part.isEntry_parameters_iff.mp hpart
      · obtain rfl := Except.ok.inj hvalue
        rw [Layout.field?_reference_of_ne link (by decide)] at hfound
        cases hfound
      · obtain ⟨part, hmem, hschema⟩ := Layout.schema_of_parameter hinner hvalue hfound
        exact ⟨part, hinner part hmem, (Part.throughout_parameter hall).2 part hmem, hschema⟩
  | requestBodies =>
      obtain ⟨link, rfl, -⟩ | ⟨given, content, rfl, -, -⟩ := Part.isEntry_requestBodies_iff.mp hpart
      · obtain rfl := Except.ok.inj hvalue
        rw [Layout.field?_reference_of_ne link (by decide)] at hfound
        cases hfound
      · obtain ⟨entries, -, rfl⟩ := Layout.requestBody_eq_ok_iff.mp hvalue
        rw [Layout.field?_compact (by simp)] at hfound
        cases hfound
  | responses =>
      obtain ⟨link, rfl, -⟩ | ⟨given, content, rfl, -, -⟩ := Part.isEntry_responses_iff.mp hpart
      · obtain rfl := Except.ok.inj hvalue
        rw [Layout.field?_reference_of_ne link (by decide)] at hfound
        cases hfound
      · obtain ⟨entries, -, rfl⟩ := Layout.response_eq_ok_iff.mp hvalue
        rw [Layout.field?_compact (by simp)] at hfound
        cases hfound

/-- The schemas in the content of what stands where a component does. -/
theorem Part.IsEntry.exists_of_content {entry : Datum × Datum} {found : Datum}
    (hentry : entry ∈ value.entriesUnder "content") (hfound : entry.2.field? "schema" = some found) :
    ∃ inner : Part, inner.IsSchema terms ∧ inner.Throughout holds ∧ Layout.schema inner = .ok found := by
  cases place with
  | schemas => exact absurd rfl hplace
  | parameters =>
      obtain ⟨link, rfl, -⟩ | ⟨given, inner, rfl, -, -⟩ := Part.isEntry_parameters_iff.mp hpart
      · obtain rfl := Except.ok.inj hvalue
        rw [Layout.entriesUnder_reference link (by decide)] at hentry
        cases hentry
      · obtain ⟨schema, -, rfl⟩ := Layout.parameter_eq_ok_iff.mp hvalue
        rw [Layout.entriesUnder_compact_of_lookup_eq_none (Layout.nodup_parameterFields ..) rfl] at hentry
        cases hentry
  | requestBodies =>
      obtain ⟨link, rfl, -⟩ | ⟨given, content, rfl, -, hcontent⟩ :=
        Part.isEntry_requestBodies_iff.mp hpart
      · obtain rfl := Except.ok.inj hvalue
        rw [Layout.entriesUnder_reference link (by decide)] at hentry
        cases hentry
      · obtain ⟨entries, hentries, rfl⟩ := Layout.requestBody_eq_ok_iff.mp hvalue
        obtain ⟨hsettled, hschemas⟩ := Layout.schema_of_content hcontent hentries
        rw [Layout.entriesUnder_compact_map (by simp) rfl hsettled] at hentry
        obtain ⟨type, sample, inner, hmem, part, hinner, hschema, hlaid⟩ :=
          hschemas entry hentry found hfound
        exact ⟨part, hschema, Part.throughout_requestBody hall hmem part hinner, hlaid⟩
  | responses =>
      obtain ⟨link, rfl, -⟩ | ⟨given, content, rfl, -, hcontent⟩ := Part.isEntry_responses_iff.mp hpart
      · obtain rfl := Except.ok.inj hvalue
        rw [Layout.entriesUnder_reference link (by decide)] at hentry
        cases hentry
      · obtain ⟨entries, hentries, rfl⟩ := Layout.response_eq_ok_iff.mp hvalue
        obtain ⟨hsettled, hschemas⟩ := Layout.schema_of_content hcontent hentries
        rw [Layout.entriesUnder_compact (by simp) rfl hsettled] at hentry
        obtain ⟨type, sample, inner, hmem, part, hinner, hschema, hlaid⟩ :=
          hschemas entry hentry found hfound
        exact ⟨part, hschema, Part.throughout_response hall hmem part hinner, hlaid⟩

end Positions

/-- A schema in the document of a model is the rendering of a schema of the model. -/
theorem Model.Fits.exists_of_hasSchema {model : Model} {version : String} {document : Datum}
    (h : model.Fits terms) (hkeys : ∀ name, terms.leaf .string name → name.asText = name)
    (hdocument : Layout.document model version = .ok document) {holds : Part → Prop}
    (hall : Walk.All holds model.walk) {value : Datum} (hvalue : Document.HasSchema document value) :
    ∃ part : Part, part.IsSchema terms ∧ part.Throughout holds ∧ Layout.schema part = .ok value := by
  induction hvalue with
  | @component entry hentry =>
      obtain ⟨found, hfound, hfield⟩ := Layout.field?_document hdocument .schemas
      rw [Document.components_of_field? hfield] at hentry
      obtain ⟨given, hgiven, -, hrendered⟩ :=
        Result.exists_left_of_forall₂ (Layout.entries_eq_ok_iff.mp hfound) hentry
      exact ⟨given.2, Part.isEntry_schemas_iff.mp (h.components.entries .schemas given hgiven),
        Model.throughout_of_mem_entries hall hgiven, hrendered⟩
  | parameter hposition hschema =>
      obtain ⟨place, part, hplace, hpart, hthroughout, hrendered⟩ :=
        h.exists_of_mem_positions hdocument hall hposition
      exact hpart.exists_of_field?_schema hplace hthroughout hrendered hschema
  | content hposition hentry hschema =>
      obtain ⟨place, part, hplace, hpart, hthroughout, hrendered⟩ :=
        h.exists_of_mem_positions hdocument hall hposition
      exact hpart.exists_of_content hplace hthroughout hrendered hentry hschema
  | @property schema entry _ hentry ih =>
      obtain ⟨part, hpart, hthroughout, hrendered⟩ := ih
      cases part with
      | reference link =>
          obtain rfl := Except.ok.inj hrendered
          rw [Layout.entriesUnder_reference link (by decide)] at hentry
          cases hentry
      | schema facets properties items =>
          obtain ⟨given, hgiven, -, hlaid⟩ :=
            Result.exists_left_of_forall₂ (Layout.properties_of_schema hpart hrendered hkeys) hentry
          exact ⟨given.2, ((Part.isSchema_schema_iff.mp hpart).2.2.1 given hgiven).2,
            (Part.throughout_schema hthroughout).2.1 given hgiven, hlaid⟩
      | _ => exact hpart.elim
  | @items schema inner _ hitems ih =>
      obtain ⟨part, hpart, hthroughout, hrendered⟩ := ih
      cases part with
      | reference link =>
          obtain rfl := Except.ok.inj hrendered
          rw [Layout.field?_reference_of_ne link (by decide)] at hitems
          cases hitems
      | schema facets properties items =>
          obtain ⟨part, hmem, hlaid⟩ := Layout.items_of_schema hpart hrendered hitems
          exact ⟨part, (Part.isSchema_schema_iff.mp hpart).2.2.2 part hmem,
            (Part.throughout_schema hthroughout).2.2 part hmem, hlaid⟩
      | _ => exact hpart.elim

end DocCompiler
