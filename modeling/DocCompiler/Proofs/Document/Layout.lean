import DocCompiler.Document.Layout
import DocCompiler.Proofs.Data.Registry
import DocCompiler.Proofs.Data.Result
import DocCompiler.Proofs.Document.Form

/-!
Values as they stand in documents: settling a value twice changes nothing more, and what a compact mapping holds
under a name is what it was given there. A model in form has a document, in which the components are found under
their names.
-/

namespace DocCompiler

section Settled

namespace Datum

variable {α : Type}

theorem settledEntries_eq_map (entries : List (Datum × Datum)) :
    settledEntries entries = entries.map fun entry => (entry.1.asText, entry.2.settled) := by
  induction entries with
  | nil => rfl
  | cons entry rest ih => rw [settledEntries, ih, List.map_cons]

theorem settledItems_eq_map (items : List Datum) : settledItems items = items.map settled := by
  induction items with
  | nil => rfl
  | cons item rest ih => rw [settledItems, ih, List.map_cons]

/-- A value that is as it stands in documents. -/
def IsSettled (value : Datum) : Prop :=
  value.settled = value

theorem isSettled_text (value : String) : (Datum.text value).IsSettled :=
  rfl

theorem isSettled_list {items : List Datum} (h : ∀ item ∈ items, item.IsSettled) :
    (Datum.list items).IsSettled := by
  rw [IsSettled, settled, settledItems_eq_map, (List.map_congr_left h).trans (List.map_id' _)]

/-- A mapping with distinct texts as keys stays as it is when its values do. -/
theorem isSettled_map {entries : List (Datum × Datum)} (hdistinct : Distinct entries)
    (hkeys : ∀ entry ∈ entries, entry.1.asText = entry.1)
    (hvalues : ∀ entry ∈ entries, entry.2.IsSettled) : (Datum.map entries).IsSettled := by
  have hsame : settledEntries entries = entries := by
    rw [settledEntries_eq_map]
    refine (List.map_congr_left fun entry hentry => ?_).trans (List.map_id' _)
    exact Prod.ext (hkeys entry hentry) (hvalues entry hentry)
  rw [IsSettled, settled, hsame, distinctEntries_of_distinct hdistinct]

mutual

/-- What is settled stays as it is. -/
theorem isSettled_settled : (value : Datum) → value.settled.IsSettled
  | .list items => isSettled_list (isSettled_settledItems items)
  | .map entries => by
      have hentries := isSettled_settledEntries entries
      refine isSettled_map (distinct_distinctEntries _) (fun entry hentry => ?_) fun entry hentry => ?_
      · obtain ⟨other, hother, heq⟩ := List.mem_map.mp (mem_distinctEntries hentry).1
        exact heq ▸ (hentries other hother).1
      · obtain ⟨other, hother, heq⟩ := List.mem_map.mp (mem_distinctEntries hentry).2
        exact heq ▸ (hentries other hother).2
  | .pair first second => isSettled_list (by
      simpa using ⟨isSettled_settled first, isSettled_settled second⟩)
  | .unresolved _ | .null | .bool _ | .number _ | .text _ | .codes _ | .date _ | .moment _
  | .bytes _ | .set _ | .again _ => rfl

theorem isSettled_settledItems : (items : List Datum) → ∀ item ∈ settledItems items, item.IsSettled
  | [] => by simp [settledItems]
  | item :: rest => by
      rw [settledItems, List.forall_mem_cons]
      exact ⟨isSettled_settled item, isSettled_settledItems rest⟩

theorem isSettled_settledEntries : (entries : List (Datum × Datum)) →
    ∀ entry ∈ settledEntries entries, entry.1.asText = entry.1 ∧ entry.2.IsSettled
  | [] => by simp [settledEntries]
  | (key, item) :: rest => by
      rw [settledEntries, List.forall_mem_cons]
      exact ⟨⟨asText_asText key, isSettled_settled item⟩, isSettled_settledEntries rest⟩

end

theorem lookup_text_map {entries : List (String × α)} {name : String} :
    lookup (.text name) (entries.map fun entry => (Datum.text entry.1, entry.2)) =
      List.lookup name entries := by
  induction entries with
  | nil => rfl
  | cons entry rest ih =>
      rcases entry with ⟨key, value⟩
      by_cases h : key = name
      · simp [lookup, sameKey, h]
      · have hne : (name == key) = false := by simpa using Ne.symm h
        simp [lookup, sameKey, h, hne, List.lookup_cons, ih]

theorem field?_record {entries : List (String × Datum)} {name : String} :
    (Datum.record entries).field? name = List.lookup name entries :=
  lookup_text_map

end Datum

namespace Layout

/-- What a compact mapping holds under a name: what it was given, unless that was nothing. -/
theorem field?_compact {fields : List (String × Datum)} (h : (fields.map (·.1)).Nodup) (name : String) :
    (compact fields).field? name =
      ((fields.lookup name).filter fun value => !value.isNull).map Datum.settled := by
  rw [compact, Datum.field?_record]
  induction fields with
  | nil => rfl
  | cons field rest ih =>
      rcases field with ⟨key, value⟩
      obtain ⟨hkey, hrest⟩ := List.nodup_cons.mp h
      by_cases hname : name = key
      · subst hname
        have hnone : rest.lookup name = none := by
          refine List.lookup_eq_none_iff.mpr fun entry hentry => ?_
          have hne : name ≠ entry.1 := by
            rintro rfl
            exact hkey (List.mem_map.mpr ⟨entry, hentry, rfl⟩)
          simpa using hne
        cases hnull : value.isNull with
        | true =>
            have htail := ih hrest
            rw [hnone] at htail
            simp [hnull, htail, Option.filter]
        | false => simp [hnull, Option.filter]
      · have hne : (name == key) = false := by simpa using hname
        cases hnull : value.isNull <;> simp [hnull, List.lookup_cons, hne, ih hrest]

theorem field?_compact_of_isSettled {fields : List (String × Datum)} (h : (fields.map (·.1)).Nodup)
    {name : String} {value : Datum} (hlookup : fields.lookup name = some value)
    (hvalue : value.IsSettled) :
    (compact fields).field? name = if value.isNull then none else some value := by
  rw [field?_compact h, hlookup]
  cases hnull : value.isNull with
  | true => simp [hnull, Option.filter]
  | false => simp [hnull, Option.filter, show value.settled = value from hvalue]

theorem isSettled_compact {fields : List (String × Datum)} (h : (fields.map (·.1)).Nodup) :
    (compact fields).IsSettled := by
  refine Datum.isSettled_map ?_ ?_ ?_
  · have hnames : (((fields.filter fun field => !field.2.isNull).map fun field =>
        (field.1, field.2.settled)).map (·.1)).Nodup := by
      rw [List.map_map]
      exact h.sublist (List.filter_sublist.map _)
    rw [Datum.Distinct, List.pairwise_map]
    refine (List.pairwise_map.mp hnames).imp fun {first second} hne => ?_
    simpa [Datum.sameKey] using hne
  · simp only [List.mem_map]
    rintro _ ⟨entry, -, rfl⟩
    rfl
  · simp only [List.mem_map]
    rintro _ ⟨_, ⟨field, -, rfl⟩, rfl⟩
    exact Datum.isSettled_settled field.2

end Layout

end Settled

variable {terms : Terms}

namespace Layout

/-- A component of a collection, as it stands in a document. -/
def component : Collection → Part → Except ShapeError Datum
  | .schemas => schema
  | .parameters => parameter
  | .requestBodies => requestBody
  | .responses => response

theorem isSettled_reference (link : Reference) : (reference link).IsSettled := by
  refine Datum.isSettled_map (List.pairwise_singleton _ _) ?_ ?_
  · simp [Datum.asText, Datum.display]
  · simp [Datum.isSettled_text]

theorem several_of_listed {value : Datum} (h : terms.Listed value) :
    ∃ items, value = .list items ∧ several value = .ok (if items.isEmpty then .null else .list items) := by
  obtain ⟨items, rfl, -⟩ := h
  exact ⟨items, rfl, rfl⟩

theorem nodup_schemaFields (facets : Facets) (required properties items : Datum) :
    ((schemaFields facets required properties items).map (·.1)).Nodup := by
  simp [schemaFields]

theorem nodup_parameterFields (value : Parameter) (schema : Datum) :
    ((parameterFields value schema).map (·.1)).Nodup := by
  simp [parameterFields]

theorem nodup_operationFields (value : Operation) (tags parameters body responses : Datum) :
    ((operationFields value tags parameters body responses).map (·.1)).Nodup := by
  simp [operationFields]

section Results

variable {rendered : Datum}

theorem schemas_eq_ok_iff {properties : Registry} {entries : List (Datum × Datum)} :
    schemas properties = .ok entries ↔
      List.Forall₂ (fun given entry => entry.1 = given.1 ∧ schema given.2 = .ok entry.2)
        properties entries := by
  induction properties generalizing entries with
  | nil => simp [schemas, eq_comm]
  | cons given rest ih =>
      rcases given with ⟨name, part⟩
      simp only [schemas, Result.bind_eq_ok_iff, Result.pure_eq_ok_iff, ih,
        List.forall₂_cons_left_iff]
      constructor
      · rintro ⟨rendered, hrendered, others, hothers, rfl⟩
        exact ⟨_, _, ⟨rfl, hrendered⟩, hothers, rfl⟩
      · rintro ⟨⟨_, rendered⟩, others, ⟨rfl, hrendered⟩, hothers, rfl⟩
        exact ⟨rendered, hrendered, others, hothers, rfl⟩

theorem entries_eq_ok_iff {entry : Part → Except ShapeError Datum} {registry : Registry}
    {found : List (Datum × Datum)} :
    entries entry registry = .ok found ↔
      List.Forall₂ (fun given result => result.1 = given.1 ∧ entry given.2 = .ok result.2)
        registry found := by
  rw [entries, Result.mapM_eq_ok_iff]
  refine Iff.intro (fun h => h.imp fun given result => ?_) fun h => h.imp fun given result => ?_
  · simp only [Result.bind_eq_ok_iff, Result.pure_eq_ok_iff]
    rintro ⟨value, hvalue, rfl⟩
    exact ⟨rfl, hvalue⟩
  · rintro ⟨hname, hvalue⟩
    simp only [Result.bind_eq_ok_iff, Result.pure_eq_ok_iff]
    exact ⟨result.2, hvalue, Prod.ext hname.symm rfl⟩

theorem schema_eq_ok_iff {facets : Facets} {properties : Registry} {items : Option Part} :
    schema (.schema facets properties items) = .ok rendered ↔
      ∃ entries required inner, schemas properties = .ok entries ∧
        several facets.required = .ok required ∧ schema? items = .ok inner ∧
          rendered = compact (schemaFields facets required (mapping entries) inner) := by
  simp only [schema, Result.bind_eq_ok_iff, Result.pure_eq_ok_iff, exists_and_left, @eq_comm _ rendered]

theorem parameter_eq_ok_iff {value : Parameter} {inner : Option Part} :
    parameter (.parameter value inner) = .ok rendered ↔
      ∃ schema, schema? inner = .ok schema ∧ rendered = compact (parameterFields value schema) := by
  simp only [parameter, Result.bind_eq_ok_iff, Result.pure_eq_ok_iff, @eq_comm _ rendered]

theorem requestBody_eq_ok_iff {value : RequestBody} {content : Registry} :
    requestBody (.requestBody value content) = .ok rendered ↔
      ∃ found, entries mediaType content = .ok found ∧
        rendered = compact [("description", value.description), ("content", .map found),
          ("required", value.required)] := by
  simp only [requestBody, Result.bind_eq_ok_iff, Result.pure_eq_ok_iff, @eq_comm _ rendered]

theorem response_eq_ok_iff {value : Response} {content : Registry} :
    response (.response value content) = .ok rendered ↔
      ∃ found, entries mediaType content = .ok found ∧
        rendered = compact
          [("description", if value.description.isTruthy then value.description else .text ""),
            ("content", mapping found)] := by
  simp only [response, described, Result.bind_eq_ok_iff, Result.pure_eq_ok_iff,
    @eq_comm _ rendered]

theorem responses_eq_ok_iff {registry : Registry} {found : List (Datum × Datum)} :
    responses registry = .ok found ↔
      ∃ entries, List.Forall₂ (fun given result =>
          result.1 = given.1.asText ∧ response given.2 = .ok result.2) registry entries ∧
        found = Datum.distinctEntries entries := by
  simp only [responses, Result.bind_eq_ok_iff, Result.pure_eq_ok_iff, Result.mapM_eq_ok_iff,
    @eq_comm _ found]
  refine exists_congr fun entries => and_congr_left' ?_
  refine Iff.intro (fun h => h.imp fun given result => ?_) fun h => h.imp fun given result => ?_
  · rintro ⟨value, hvalue, rfl⟩
    exact ⟨rfl, hvalue⟩
  · rintro ⟨hname, hvalue⟩
    exact ⟨result.2, hvalue, Prod.ext hname.symm rfl⟩

theorem operation_eq_ok_iff {endpoint : Endpoint} :
    operation endpoint = .ok rendered ↔
      ∃ parameters body tags found, endpoint.parameters.mapM parameter = .ok parameters ∧
        endpoint.body.elim (pure .null) requestBody = .ok body ∧
          several endpoint.operation.tags = .ok tags ∧ responses endpoint.responses = .ok found ∧
            rendered = compact (operationFields endpoint.operation tags
              (if parameters.isEmpty then .null else .list parameters) body (.map found)) := by
  simp only [operation, Result.bind_eq_ok_iff, Result.pure_eq_ok_iff, exists_and_left, @eq_comm _ rendered]

end Results

/-- Members that have renderings have them together. -/
theorem entries_ok {entry : Part → Except ShapeError Datum} {registry : Registry}
    (h : ∀ given ∈ registry, ∃ rendered, entry given.2 = .ok rendered) :
    ∃ found, entries entry registry = .ok found := by
  refine Result.mapM_ok_of_forall fun given hgiven => ?_
  obtain ⟨rendered, hrendered⟩ := h given hgiven
  exact ⟨(given.1, rendered), by simp [hrendered]⟩

theorem schemas_ok {properties : Registry}
    (h : ∀ entry ∈ properties, ∃ rendered, schema entry.2 = .ok rendered) :
    ∃ entries, schemas properties = .ok entries := by
  obtain ⟨found, hfound⟩ := entries_ok h
  exact ⟨found, schemas_eq_ok_iff.mpr (entries_eq_ok_iff.mp hfound)⟩

end Layout

theorem Part.IsSchema.layout {part : Part} (h : part.IsSchema terms) :
    ∃ rendered, Layout.schema part = .ok rendered ∧ rendered.IsSettled := by
  refine h.induction (motive := fun part =>
    ∃ rendered, Layout.schema part = .ok rendered ∧ rendered.IsSettled) ?_ ?_
  · intro link _
    exact ⟨_, rfl, Layout.isSettled_reference link⟩
  · intro facets properties items hfacets _ hproperties hitems
    obtain ⟨entries, hentries⟩ := Layout.schemas_ok fun entry hentry =>
      (hproperties entry hentry).2.2.imp fun _ => And.left
    obtain ⟨names, -, hrequired⟩ := Layout.several_of_listed hfacets.required
    have hinner : ∃ rendered, Layout.schema? items = .ok rendered := by
      cases items with
      | none => exact ⟨.null, rfl⟩
      | some part => exact (hitems part rfl).2.imp fun _ => And.left
    obtain ⟨inner, hinner⟩ := hinner
    exact ⟨_, Layout.schema_eq_ok_iff.mpr ⟨entries, _, inner, hentries, hrequired, hinner, rfl⟩,
      Layout.isSettled_compact (Layout.nodup_schemaFields ..)⟩

theorem Part.layout_schema? {found : Option Part} (h : ∀ part ∈ found, part.IsSchema terms) :
    ∃ rendered, Layout.schema? found = .ok rendered ∧ rendered.IsSettled := by
  cases found with
  | none => exact ⟨.null, rfl, rfl⟩
  | some part => exact (h part rfl).layout

theorem IsContent.layout {content : Registry} (h : IsContent terms content) :
    ∃ entries, Layout.entries Layout.mediaType content = .ok entries := by
  refine Layout.entries_ok fun given hgiven => ?_
  obtain ⟨sample, inner, hmedia, hinner⟩ := Part.isMedia_iff.mp (h.media given hgiven)
  obtain ⟨rendered, hrendered, -⟩ := Part.layout_schema? hinner
  rw [hmedia, Layout.mediaType, hrendered]
  exact ⟨_, rfl⟩

/-- Every component has a place in a document. -/
theorem Part.IsEntry.layout {collection : Collection} {part : Part}
    (h : part.IsEntry terms collection) :
    ∃ rendered, Layout.component collection part = .ok rendered ∧ rendered.IsSettled := by
  cases collection with
  | schemas => exact (Part.isEntry_schemas_iff.mp h).layout
  | parameters =>
      obtain ⟨link, rfl, -⟩ | ⟨value, inner, rfl, -, hinner⟩ := Part.isEntry_parameters_iff.mp h
      · exact ⟨_, rfl, Layout.isSettled_reference link⟩
      · obtain ⟨schema, hschema, -⟩ := Part.layout_schema? hinner
        exact ⟨_, Layout.parameter_eq_ok_iff.mpr ⟨schema, hschema, rfl⟩,
          Layout.isSettled_compact (Layout.nodup_parameterFields ..)⟩
  | requestBodies =>
      obtain ⟨link, rfl, -⟩ | ⟨value, content, rfl, -, hcontent⟩ := Part.isEntry_requestBodies_iff.mp h
      · exact ⟨_, rfl, Layout.isSettled_reference link⟩
      · obtain ⟨entries, hentries⟩ := hcontent.layout
        exact ⟨_, Layout.requestBody_eq_ok_iff.mpr ⟨entries, hentries, rfl⟩,
          Layout.isSettled_compact (by simp)⟩
  | responses =>
      obtain ⟨link, rfl, -⟩ | ⟨value, content, rfl, -, hcontent⟩ := Part.isEntry_responses_iff.mp h
      · exact ⟨_, rfl, Layout.isSettled_reference link⟩
      · obtain ⟨entries, hentries⟩ := hcontent.layout
        exact ⟨_, Layout.response_eq_ok_iff.mpr ⟨entries, hentries, rfl⟩,
          Layout.isSettled_compact (by simp)⟩

theorem Part.IsEntry.isSettled {collection : Collection} {part : Part}
    (h : part.IsEntry terms collection) {rendered : Datum}
    (hrendered : Layout.component collection part = .ok rendered) : rendered.IsSettled := by
  obtain ⟨other, hother, hsettled⟩ := h.layout
  obtain rfl : other = rendered := Except.ok.inj (hother.symm.trans hrendered)
  exact hsettled

theorem Endpoint.Fits.layout {endpoint : Endpoint} (h : endpoint.Fits terms) :
    ∃ rendered, Layout.operation endpoint = .ok rendered := by
  obtain ⟨parameters, hparameters⟩ := Result.mapM_ok_of_forall fun part hpart =>
    (h.parameters part hpart).layout.imp fun _ => And.left
  have hbody : ∃ body, endpoint.body.elim (pure .null) Layout.requestBody = .ok body := by
    cases hcase : endpoint.body with
    | none => exact ⟨.null, rfl⟩
    | some part => exact (h.body part hcase).layout.imp fun _ => And.left
  obtain ⟨body, hbody⟩ := hbody
  obtain ⟨names, -, htags⟩ := Layout.several_of_listed h.operation.tags
  have hresponses : ∃ found, Layout.responses endpoint.responses = .ok found := by
    obtain ⟨entries, hentries⟩ := Layout.entries_ok fun given hgiven =>
      (h.responses given hgiven).layout.imp fun _ => And.left
    refine ⟨_, Layout.responses_eq_ok_iff.mpr
      ⟨entries.map fun entry => (entry.1.asText, entry.2), ?_, rfl⟩⟩
    rw [List.forall₂_map_right_iff]
    exact (Layout.entries_eq_ok_iff.mp hentries).imp fun given entry hentry =>
      ⟨by rw [hentry.1], hentry.2⟩
  obtain ⟨found, hfound⟩ := hresponses
  exact ⟨_, Layout.operation_eq_ok_iff.mpr
    ⟨parameters, body, _, found, hparameters, hbody, htags, hfound, rfl⟩⟩

namespace Layout

theorem methodRank_ok {method : Datum} (h : ∃ name ∈ methodOrder, method = .text name) :
    ∃ rank, methodRank method = .ok rank := by
  obtain ⟨name, hname, rfl⟩ := h
  obtain ⟨rank, hrank⟩ := Option.isSome_iff_exists.mp (List.isSome_idxOf?.mpr hname)
  exact ⟨rank, by simp [methodRank, Datum.text?, hrank]⟩

/-- The operations of a path stand in a document in some order. -/
theorem methods_eq_ok {endpoints : List (Datum × Endpoint)} {rendered : Datum}
    (h : methods endpoints = .ok rendered) :
    ∃ order laid, order.Perm endpoints ∧
      List.Forall₂ (fun found entry => entry.1 = found.1 ∧ operation found.2 = .ok entry.2) order laid ∧
        rendered = .map laid := by
  simp only [methods, Result.bind_eq_ok_iff, Result.pure_eq_ok_iff, Result.mapM_eq_ok_iff] at h
  obtain ⟨ranked, hranked, laid, hlaid, rfl⟩ := h
  have hsame : ranked.map (·.2) = endpoints := by
    clear hlaid
    induction hranked with
    | nil => rfl
    | cons hfirst _ ih =>
        obtain ⟨rank, -, rfl⟩ := hfirst
        rw [List.map_cons, ih]
  refine ⟨(ranked.mergeSort fun a b => a.1 ≤ b.1).map (·.2), laid, ?_, ?_, rfl⟩
  · exact hsame ▸ (List.mergeSort_perm ranked _).map _
  · rw [List.forall₂_map_left_iff]
    refine hlaid.imp fun found entry hentry => ?_
    obtain ⟨value, hvalue, rfl⟩ := hentry
    exact ⟨rfl, hvalue⟩

theorem methods_ok {endpoints : List (Datum × Endpoint)}
    (h : ∀ found ∈ endpoints, found.2.Fits terms ∧ found.1 = found.2.operation.method) :
    ∃ rendered, methods endpoints = .ok rendered := by
  simp only [methods, Result.bind_eq_ok_iff, Result.pure_eq_ok_iff]
  have hranked : ∃ ranked, (endpoints.mapM fun found => do
      return (← methodRank found.1, found.1, found.2) :
        Except ShapeError (List (Nat × Datum × Endpoint))) = .ok ranked := by
    refine Result.mapM_ok_of_forall fun found hfound => ?_
    obtain ⟨hfits, hmethod⟩ := h found hfound
    obtain ⟨rank, hrank⟩ := methodRank_ok (hmethod ▸ hfits.operation.method)
    exact ⟨(rank, found.1, found.2), by simp [hrank]⟩
  obtain ⟨ranked, hranked⟩ := hranked
  have hlaid : ∃ laid, ((ranked.mergeSort fun a b => a.1 ≤ b.1).mapM fun entry => do
      return (entry.2.1, ← operation entry.2.2) : Except ShapeError (List (Datum × Datum))) = .ok laid := by
    refine Result.mapM_ok_of_forall fun entry hentry => ?_
    obtain ⟨found, hfound, hentry⟩ :=
      Result.mem_of_mapM_eq_ok hranked (List.mem_mergeSort.mp hentry)
    simp only [Result.bind_eq_ok_iff, Result.pure_eq_ok_iff] at hentry
    obtain ⟨rank, -, rfl⟩ := hentry
    obtain ⟨rendered, hrendered⟩ := (h found hfound).1.layout
    exact ⟨(found.1, rendered), by simp [hrendered]⟩
  obtain ⟨laid, hlaid⟩ := hlaid
  exact ⟨_, ranked, hranked, laid, hlaid, rfl⟩

theorem paths_eq_ok {model : Model} {rendered : Datum} (h : paths model = .ok rendered) :
    ∃ order laid, order.Perm model.paths ∧
      List.Forall₂ (fun given entry => entry.1 = given.1 ∧ methods given.2 = .ok entry.2) order laid ∧
        rendered = .record laid := by
  simp only [paths, Result.bind_eq_ok_iff, Result.pure_eq_ok_iff, Result.mapM_eq_ok_iff] at h
  obtain ⟨laid, hlaid, rfl⟩ := h
  refine ⟨_, laid, List.mergeSort_perm _ _, hlaid.imp fun given entry hentry => ?_, rfl⟩
  obtain ⟨value, hvalue, rfl⟩ := hentry
  exact ⟨rfl, hvalue⟩

end Layout

namespace Layout

/-- The entries of a collection stand under its name. -/
theorem field?_components {components : Components} {rendered : Datum}
    (h : Layout.components components = .ok rendered) (collection : Collection) :
    ∃ found, entries (component collection) (components.entries collection) = .ok found ∧
      rendered.field? collection.name = some (.map found) := by
  simp only [Layout.components, Result.bind_eq_ok_iff, Result.pure_eq_ok_iff] at h
  obtain ⟨schemas, hschemas, parameters, hparameters, requestBodies, hrequestBodies, responses,
    hresponses, schemes, -, rfl⟩ := h
  rw [Datum.field?_record]
  cases collection with
  | schemas => exact ⟨schemas, hschemas, rfl⟩
  | parameters => exact ⟨parameters, hparameters, rfl⟩
  | requestBodies => exact ⟨requestBodies, hrequestBodies, rfl⟩
  | responses => exact ⟨responses, hresponses, rfl⟩

theorem document_eq_ok_iff {model : Model} {version : String} {rendered : Datum} :
    document model version = .ok rendered ↔
      ∃ components info servers tags paths, Layout.components model.components = .ok components ∧
        Layout.info model.info = .ok info ∧ model.servers.mapM server = .ok servers ∧
          model.tags.values.mapM tag = .ok tags ∧ Layout.paths model = .ok paths ∧
            rendered = .record [("openapi", .text version), ("info", info),
              ("servers", .list servers), ("tags", .list tags), ("paths", paths),
              ("components", components)] := by
  simp only [document, Result.bind_eq_ok_iff, Result.pure_eq_ok_iff, exists_and_left,
    @eq_comm _ rendered]

theorem field?_document {model : Model} {version : String} {rendered : Datum}
    (h : document model version = .ok rendered) (collection : Collection) :
    ∃ found, entries (component collection) (model.components.entries collection) = .ok found ∧
      (rendered.field? "components").bind (Datum.field? collection.name) = some (.map found) := by
  obtain ⟨components, info, servers, tags, paths, hcomponents, -, -, -, -, rfl⟩ :=
    document_eq_ok_iff.mp h
  obtain ⟨found, hfound, hfield⟩ := field?_components hcomponents collection
  refine ⟨found, hfound, ?_⟩
  rw [Datum.field?_record]
  exact hfield

end Layout

theorem Components.Fits.layout {components : Components} (h : components.Fits terms) :
    ∃ rendered, Layout.components components = .ok rendered := by
  have hentries : ∀ collection, ∃ found,
      Layout.entries (Layout.component collection) (components.entries collection) = .ok found :=
    fun collection => Layout.entries_ok fun given hgiven =>
      (h.entries collection given hgiven).layout.imp fun _ => And.left
  obtain ⟨schemas, hschemas⟩ := hentries .schemas
  obtain ⟨parameters, hparameters⟩ := hentries .parameters
  obtain ⟨requestBodies, hrequestBodies⟩ := hentries .requestBodies
  obtain ⟨responses, hresponses⟩ := hentries .responses
  have hschemes : ∃ found, Layout.entries Layout.securityScheme components.securitySchemes = .ok found := by
    refine Layout.entries_ok fun given hgiven => ?_
    obtain ⟨scheme, hscheme, -⟩ := h.schemes given hgiven
    exact ⟨_, by rw [hscheme, Layout.securityScheme]⟩
  obtain ⟨schemes, hschemes⟩ := hschemes
  simp only [Layout.components, Result.bind_eq_ok_iff, Result.pure_eq_ok_iff]
  exact ⟨_, schemas, hschemas, parameters, hparameters, requestBodies, hrequestBodies, responses,
    hresponses, schemes, hschemes, rfl⟩

theorem Part.IsInfo.layout {part : Part} (h : part.IsInfo terms) :
    ∃ rendered, Layout.info part = .ok rendered := by
  cases part with
  | info value person conditions =>
      obtain ⟨-, hperson, hconditions⟩ := h
      simp only [Layout.info, Result.bind_eq_ok_iff, Result.pure_eq_ok_iff]
      have hcontact : ∃ rendered, person.elim (pure .null) Layout.contact = .ok rendered := by
        cases person with
        | none => exact ⟨.null, rfl⟩
        | some part =>
            obtain ⟨contact, rfl, -⟩ := hperson part rfl
            exact ⟨_, rfl⟩
      have hlicense : ∃ rendered, conditions.elim (pure .null) Layout.license = .ok rendered := by
        cases conditions with
        | none => exact ⟨.null, rfl⟩
        | some part =>
            obtain ⟨license, rfl, -⟩ := hconditions part rfl
            exact ⟨_, rfl⟩
      obtain ⟨contact, hcontact⟩ := hcontact
      obtain ⟨license, hlicense⟩ := hlicense
      exact ⟨_, contact, hcontact, license, hlicense, rfl⟩
  | _ => exact h.elim

/-- A model in form has a document. -/
theorem Model.Fits.layout {model : Model} (h : model.Fits terms) (version : String) :
    ∃ document, Layout.document model version = .ok document := by
  obtain ⟨components, hcomponents⟩ := h.components.layout
  obtain ⟨info, hinfo⟩ := h.info.layout
  have hservers : ∃ servers, model.servers.mapM Layout.server = .ok servers := by
    refine Result.mapM_ok_of_forall fun part hpart => ?_
    obtain ⟨server, rfl, -⟩ := h.servers part hpart
    exact ⟨_, rfl⟩
  have htags : ∃ tags, model.tags.values.mapM Layout.tag = .ok tags := by
    refine Result.mapM_ok_of_forall fun part hpart => ?_
    obtain ⟨entry, hentry, rfl⟩ := List.mem_map.mp hpart
    obtain ⟨tag, htag, -⟩ := h.tags entry hentry
    exact ⟨_, by rw [htag, Layout.tag]⟩
  have hpaths : ∃ paths, Layout.paths model = .ok paths := by
    simp only [Layout.paths, Result.bind_eq_ok_iff, Result.pure_eq_ok_iff]
    have hlaid : ∃ laid, ((model.paths.mergeSort fun a b => decide (a.1 ≤ b.1)).mapM
        fun entry => do return (entry.1, ← Layout.methods entry.2) :
          Except ShapeError (List (String × Datum))) = .ok laid := by
      refine Result.mapM_ok_of_forall fun entry hentry => ?_
      obtain ⟨rendered, hrendered⟩ := Layout.methods_ok fun found hfound =>
        (h.endpoints entry (List.mem_mergeSort.mp hentry) found hfound).imp_right And.left
      exact ⟨(entry.1, rendered), by simp [hrendered]⟩
    obtain ⟨laid, hlaid⟩ := hlaid
    exact ⟨_, laid, hlaid, rfl⟩
  obtain ⟨servers, hservers⟩ := hservers
  obtain ⟨tags, htags⟩ := htags
  obtain ⟨paths, hpaths⟩ := hpaths
  exact ⟨_, Layout.document_eq_ok_iff.mpr
    ⟨components, info, servers, tags, paths, hcomponents, hinfo, hservers, htags, hpaths, rfl⟩⟩

end DocCompiler
