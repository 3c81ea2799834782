import DocCompiler.Proofs.Document.Consistency
import DocCompiler.Proofs.Document.Nesting

/-!
Accepted documents are consistent, as their models are.
-/

namespace DocCompiler

open Annotation

namespace Document

/-- What stands in a document where a parameter does. -/
def parameters (document : Datum) : List Datum :=
  (operations document).flatMap (fun entry => entry.2.itemsUnder "parameters") ++
    (components document .parameters).map (·.2)

/-- The names of the parameters that an operation of a document has in its path, references
followed. -/
def pathNames (document operation : Datum) : Set Datum :=
  { name | ∃ value ∈ operation.itemsUnder "parameters", ∃ target, Leads document value target ∧
      target.field? "in" = some (.text "path") ∧ target.field? "name" = some name }

/-- A document in which operations, parameters, schemas, servers, tags and general information are
consistent. -/
structure Consistent (document : Datum) : Prop where
  responses : ∀ entry ∈ operations document, entry.2.entriesUnder "responses" ≠ []
  identified : ∀ entry ∈ operations document, ∃ id, entry.2.field? "operationId" = some id ∧ id.IsName
  distinctIds : ((operations document).map fun entry => entry.2.field? "operationId").Nodup
  placeholders : ∀ entry ∈ operations document, ∃ path, entry.1 = .text path ∧
    { name | ∃ placeholder ∈ Route.placeholders path, name = .text placeholder } =
      pathNames document entry.2
  parameters : ∀ value ∈ parameters document, value.field? "$ref" = none →
    (∃ name, value.field? "name" = some name ∧ name.IsName) ∧
      ∃ location ∈ Rule.parameterLocations, value.field? "in" = some (.text location) ∧
        (location = "path" → value.field? "required" = some (.bool true))
  required : ∀ schema, HasSchema document schema →
    schema.itemsUnder "required" ⊆ (schema.entriesUnder "properties").map (·.1)
  servers : ((document.itemsUnder "servers").map (Datum.field? "url")).Nodup
  tags : ((document.itemsUnder "tags").map (Datum.field? "name")).Nodup
  info : ∃ info title version, document.field? "info" = some info ∧
    info.field? "title" = some title ∧ title.IsName ∧
      info.field? "version" = some version ∧ version.IsName

theorem Leads.target_eq {document value target other : Datum} (h : Leads document value target)
    (hother : Leads document value other) : target = other := by
  induction h with
  | here hend =>
      cases hother with
      | here => rfl
      | follow hnext => cases hend.symm.trans hnext
  | follow hnext hpointer _ ih =>
      cases hother with
      | here hend => cases hend.symm.trans hnext
      | follow hfound hfoundPointer hrest =>
          obtain rfl := Datum.text.inj (Option.some.inj (hnext.symm.trans hfound))
          obtain rfl := Option.some.inj (hpointer.symm.trans hfoundPointer)
          exact ih hrest

end Document

namespace Layout

theorem field?_compact_isName {fields : List (String × Datum)} (h : (fields.map (·.1)).Nodup)
    {name : String} {value : Datum} (hlookup : fields.lookup name = some value) (hvalue : value.IsName) :
    (compact fields).field? name = some value := by
  obtain ⟨points, -, rfl⟩ := hvalue
  exact field?_compact_ofCodes h hlookup

/-- The name and the location of a consistent parameter stand in its rendering. -/
theorem field?_parameter {value : Parameter} {inner : Option Part} {rendered : Datum}
    (h : (Part.parameter value inner).Consistent)
    (hrendered : parameter (.parameter value inner) = .ok rendered) :
    rendered.field? "name" = some value.name ∧ rendered.field? "in" = some value.location ∧
      (value.location = .text "path" → rendered.field? "required" = some (.bool true)) := by
  obtain ⟨hname, location, -, hlocation, hpath⟩ := h
  obtain ⟨schema, -, rfl⟩ := parameter_eq_ok_iff.mp hrendered
  have hnodup := nodup_parameterFields value schema
  have hin : (parameterFields value schema).lookup "in" = some value.location := rfl
  have hrequired : (parameterFields value schema).lookup "required" = some value.required := rfl
  refine ⟨field?_compact_isName hnodup rfl hname, ?_, fun heq => ?_⟩
  · rw [hlocation] at hin ⊢
    exact field?_compact_of_isSettled hnodup hin rfl
  · rw [hlocation] at heq
    rw [hpath (Datum.text.inj heq)] at hrequired
    exact field?_compact_of_isSettled hnodup hrequired rfl

theorem distinctEntries_ne_nil {entries : List (Datum × Datum)} (h : entries ≠ []) :
    Datum.distinctEntries entries ≠ [] := by
  have hfold : ∀ (rest done : List (Datum × Datum)), done ≠ [] →
      rest.foldl (fun done entry => Datum.insertEntry entry.1 entry.2 done) done ≠ [] := by
    intro rest
    induction rest with
    | nil => exact fun _ hdone => hdone
    | cons entry rest ih =>
        intro done hdone
        refine ih _ ?_
        cases done with
        | nil => exact absurd rfl hdone
        | cons first others =>
            rcases first with ⟨key, value⟩
            simp only [Datum.insertEntry]
            split <;> simp
  cases entries with
  | nil => exact absurd rfl h
  | cons entry rest => exact hfold rest _ (by simp [Datum.insertEntry])

end Layout

section Operations

variable {terms : Terms} {endpoint : Endpoint} (h : endpoint.Fits terms) {operation : Datum}
  (hoperation : Layout.operation endpoint = .ok operation)

include hoperation

include h in
theorem Endpoint.Fits.entriesUnder_responses_ne_nil (hresponses : endpoint.responses ≠ []) :
    operation.entriesUnder "responses" ≠ [] := by
  obtain ⟨entries, hentries, heq⟩ := Layout.responses_eq_ok_iff.mp (h.entriesUnder_responses hoperation)
  rw [heq]
  refine Layout.distinctEntries_ne_nil ?_
  rintro rfl
  exact hresponses (List.forall₂_nil_right_iff.mp hentries)

theorem Endpoint.field?_operationId (hid : endpoint.operation.operationId.IsName) :
    operation.field? "operationId" = some endpoint.operation.operationId := by
  obtain ⟨parameters, body, tags, found, -, -, -, -, rfl⟩ := Layout.operation_eq_ok_iff.mp hoperation
  exact Layout.field?_compact_isName (Layout.nodup_operationFields ..) rfl hid

end Operations

section Paths

variable {terms : Terms} {model : Model} {version : String} {document : Datum}

/-- The parameters in the path of an operation have the same names in the document as in the model. -/
theorem Model.Closed.pathNames_eq (h : model.Closed terms)
    (hconsistent : Walk.All Part.Consistent model.walk)
    (hdocument : Layout.document model version = .ok document) {route : String × Endpoint}
    (hroute : route ∈ model.routes) {operation : Datum}
    (hoperation : Layout.operation route.2 = .ok operation) :
    model.pathNames route.2 = Document.pathNames document operation := by
  have hfits := (h.fits.of_mem_routes hroute).1
  have hthroughout := Model.throughout_of_mem_routes hconsistent hroute
  have hparameters := Result.mapM_eq_ok_iff.mp (hfits.itemsUnder_parameters hoperation)
  have htarget : ∀ part ∈ route.2.parameters, ∀ steps target,
      model.components.Leads steps part target →
        ∃ value inner, target = .parameter value inner ∧ (Part.parameter value inner).Consistent := by
    intro part hpart steps target hleads
    obtain ⟨htarget, hfound, hne⟩ := h.target_of_leads
      (fun entry hentry => Model.throughout_of_mem_entries hconsistent hentry)
      (hfits.parameters part hpart) (hthroughout.parameters part hpart) hleads
    obtain ⟨link, rfl, -⟩ | ⟨value, inner, rfl, -, -⟩ := Part.isEntry_parameters_iff.mp htarget
    · exact absurd rfl (hne link)
    · exact ⟨value, inner, rfl, (Part.throughout_parameter hfound).1⟩
  ext name
  constructor
  · rintro ⟨part, hpart, steps, value, inner, hleads, hlocation, rfl⟩
    obtain ⟨rendered, hmem, hrendered⟩ := Result.exists_right_of_forall₂ hparameters hpart
    obtain ⟨found, hfound, hdocumentLeads⟩ := h.leads_document hdocument (by decide)
      (hfits.parameters part hpart) hleads hrendered
    obtain ⟨_, _, ⟨⟩, hvalue⟩ := htarget part hpart steps _ hleads
    obtain ⟨hname, hin, -⟩ := Layout.field?_parameter hvalue hfound
    exact ⟨rendered, hmem, found, hdocumentLeads, hlocation ▸ hin, hname⟩
  · rintro ⟨rendered, hmem, target, hdocumentLeads, hin, hname⟩
    obtain ⟨part, hpart, hrendered⟩ := Result.exists_left_of_forall₂ hparameters hmem
    obtain ⟨steps, source, -, hleads⟩ := h.exists_leads (by decide) (hfits.parameters part hpart)
    obtain ⟨found, hfound, hfoundLeads⟩ := h.leads_document hdocument (by decide)
      (hfits.parameters part hpart) hleads hrendered
    obtain rfl := hdocumentLeads.target_eq hfoundLeads
    obtain ⟨value, inner, rfl, hvalue⟩ := htarget part hpart steps source hleads
    obtain ⟨hfoundName, hfoundIn, -⟩ := Layout.field?_parameter hvalue hfound
    refine ⟨part, hpart, steps, value, inner, hleads, ?_, ?_⟩
    · exact Option.some.inj (hfoundIn.symm.trans hin)
    · exact Option.some.inj (hfoundName.symm.trans hname)

/-- Wherever a parameter stands in a document, it comes from a parameter of the model. -/
theorem Model.Fits.exists_of_mem_parameters (h : model.Fits terms)
    (hdocument : Layout.document model version = .ok document) {holds : Part → Prop}
    (hall : Walk.All holds model.walk) {value : Datum} (hvalue : value ∈ Document.parameters document) :
    ∃ part : Part, part.IsEntry terms .parameters ∧ part.Throughout holds ∧
      Layout.parameter part = .ok value := by
  rcases List.mem_append.mp hvalue with hoperation | hcomponent
  · obtain ⟨entry, hentry, hitem⟩ := List.mem_flatMap.mp hoperation
    obtain ⟨routes, hroutes, hrendered⟩ := Document.operations_forall₂ hdocument
    obtain ⟨route, hroute, -, hlaid⟩ := Result.exists_left_of_forall₂ hrendered hentry
    have hfits := (h.of_mem_routes (hroutes.subset hroute)).1
    obtain ⟨part, hpart, hparameter⟩ :=
      Result.mem_of_mapM_eq_ok (hfits.itemsUnder_parameters hlaid) hitem
    exact ⟨part, hfits.parameters part hpart,
      (Model.throughout_of_mem_routes hall (hroutes.subset hroute)).parameters part hpart, hparameter⟩
  · obtain ⟨entry, hentry, rfl⟩ := List.mem_map.mp hcomponent
    obtain ⟨found, hfound, hfield⟩ := Layout.field?_document hdocument .parameters
    rw [Document.components_of_field? hfield] at hentry
    obtain ⟨given, hgiven, -, hrendered⟩ :=
      Result.exists_left_of_forall₂ (Layout.entries_eq_ok_iff.mp hfound) hentry
    exact ⟨given.2, h.components.entries .parameters given hgiven,
      Model.throughout_of_mem_entries hall hgiven, hrendered⟩

end Paths

section Lists

variable {link : Collection → Reference → Prop}

/-- A text that is there and no marker stands in a rendering as it is. -/
theorem Layout.field?_compact_of_stated {fields : List (String × Datum)}
    (h : (fields.map (·.1)).Nodup) {name : String} {value : Datum}
    (hlookup : fields.lookup name = some value)
    (hvalue : (Terms.typed.withLink link).Stated .string value) (hmarker : ¬ value.IsMarker) :
    (compact fields).field? name = some value := by
  obtain ⟨points, rfl⟩ := hvalue.resolve_left hmarker
  exact field?_compact_ofCodes h hlookup

theorem Layout.field?_server {server : Server} (h : server.Fits (Terms.typed.withLink link))
    (hmarkers : Rule.markers (.server server) = []) {rendered : Datum}
    (hrendered : Layout.server (.server server) = .ok rendered) :
    rendered.field? "url" = (Part.server server).url? := by
  obtain rfl := Except.ok.inj hrendered
  exact field?_compact_of_stated (by simp) rfl h.url
    (Rule.not_isMarker_of_markers hmarkers (by simp [Rule.fieldsOf]))

theorem Layout.field?_tag {tag : ApiTag} (h : tag.Fits (Terms.typed.withLink link))
    (hmarkers : Rule.markers (.tag tag) = []) {rendered : Datum}
    (hrendered : Layout.tag (.tag tag) = .ok rendered) :
    rendered.field? "name" = (Part.tag tag).name? := by
  obtain rfl := Except.ok.inj hrendered
  exact field?_compact_of_stated (by simp) rfl h.name
    (Rule.not_isMarker_of_markers hmarkers (by simp [Rule.fieldsOf]))

theorem Layout.map_field?_eq {render : Part → Except ShapeError Datum} {parts : List Part}
    {results : List Datum} {name : String} {field : Part → Option Datum}
    (h : parts.mapM render = .ok results)
    (hfield : ∀ part ∈ parts, ∀ rendered, render part = .ok rendered →
      rendered.field? name = field part) : results.map (Datum.field? name) = parts.map field := by
  have hall := Result.mapM_eq_ok_iff.mp h
  clear h
  induction hall with
  | nil => rfl
  | cons hfirst _ ih =>
      obtain ⟨hpart, hrest⟩ := List.forall_mem_cons.mp hfield
      rw [List.map_cons, List.map_cons, hpart _ hfirst, ih hrest]

end Lists

section Accepting

variable {units : List AnnotatedUnit} {overrides : Overrides} {model : Model} {version : String}
  {document : Datum}
  (h : Accepted units overrides model) (htyped : ∀ unit ∈ units, unit.WellTyped)
  (hdocument : Layout.document model version = .ok document)

include h htyped hdocument

theorem Accepted.operation_consistent {entry : Datum × Datum}
    (hentry : entry ∈ Document.operations document) :
    entry.2.entriesUnder "responses" ≠ [] ∧
      (∃ id, entry.2.field? "operationId" = some id ∧ id.IsName) ∧
        ∃ path, entry.1 = .text path ∧
          { name | ∃ placeholder ∈ Route.placeholders path, name = .text placeholder } =
            Document.pathNames document entry.2 := by
  have hclosed := h.closed_typed htyped
  have hconsistent := h.all_consistent htyped
  obtain ⟨routes, hroutes, hrendered⟩ := Document.operations_forall₂ hdocument
  obtain ⟨route, hmem, hpath, hoperation⟩ := Result.exists_left_of_forall₂ hrendered hentry
  have hroute := hroutes.subset hmem
  obtain ⟨hresponses, hid⟩ := (Model.throughout_of_mem_routes hconsistent hroute).self
  refine ⟨?_, ⟨_, Endpoint.field?_operationId hoperation hid, hid⟩, route.1, hpath, ?_⟩
  · exact (hclosed.fits.of_mem_routes hroute).1.entriesUnder_responses_ne_nil hoperation hresponses
  · rw [h.placeholders_eq htyped hroute]
    exact hclosed.pathNames_eq hconsistent hdocument hroute hoperation

theorem Accepted.nodup_document_operationIds :
    ((Document.operations document).map fun entry => entry.2.field? "operationId").Nodup := by
  have hconsistent := h.all_consistent htyped
  obtain ⟨routes, hroutes, hrendered⟩ := Document.operations_forall₂ hdocument
  have hids : (Document.operations document).map (fun entry => entry.2.field? "operationId") =
      routes.map fun route => some route.2.operation.operationId := by
    have hsubset := hroutes.subset
    clear hroutes
    generalize Document.operations document = operations at hrendered
    induction hrendered with
    | nil => rfl
    | @cons route entry _ _ hfirst _ ih =>
        obtain ⟨hroute, hrest⟩ := List.cons_subset.mp hsubset
        have hid := (Model.throughout_of_mem_routes hconsistent hroute).self.2
        rw [List.map_cons, List.map_cons, ih hrest, Endpoint.field?_operationId hfirst.2 hid]
  have hnodup := (hroutes.map fun route => route.2.operation.operationId).nodup_iff.mpr
    (h.nodup_operationIds htyped)
  rw [List.Nodup, List.pairwise_map] at hnodup
  rw [hids, List.Nodup, List.pairwise_map]
  exact hnodup.imp fun hne heq => hne (Option.some.inj heq)

theorem Accepted.parameter_consistent {value : Datum} (hvalue : value ∈ Document.parameters document)
    (hreference : value.field? "$ref" = none) :
    (∃ name, value.field? "name" = some name ∧ name.IsName) ∧
      ∃ location ∈ Rule.parameterLocations, value.field? "in" = some (.text location) ∧
        (location = "path" → value.field? "required" = some (.bool true)) := by
  obtain ⟨part, hpart, hthroughout, hrendered⟩ :=
    (h.closed_typed htyped).fits.exists_of_mem_parameters hdocument (h.all_consistent htyped) hvalue
  obtain ⟨link, rfl, -⟩ | ⟨given, inner, rfl, -, -⟩ := Part.isEntry_parameters_iff.mp hpart
  · obtain rfl := Except.ok.inj hrendered
    rw [Layout.field?_reference] at hreference
    cases hreference
  · have hgiven := (Part.throughout_parameter hthroughout).1
    obtain ⟨hname, hin, hrequired⟩ := Layout.field?_parameter hgiven hrendered
    obtain ⟨hgivenName, location, hknown, hlocation, -⟩ := hgiven
    rw [hlocation] at hin hrequired
    exact ⟨⟨given.name, hname, hgivenName⟩, location, hknown, hin,
      fun hpath => hrequired (congrArg Datum.text hpath)⟩

theorem Accepted.required_declared {schema : Datum} (hschema : Document.HasSchema document schema) :
    schema.itemsUnder "required" ⊆ (schema.entriesUnder "properties").map (·.1) := by
  obtain ⟨part, hpart, hthroughout, hrendered⟩ :=
    (h.closed_typed htyped).fits.exists_of_hasSchema Terms.asText_of_typed hdocument (h.all_consistent htyped) hschema
  cases part with
  | reference link =>
      obtain rfl := Except.ok.inj hrendered
      rw [Layout.itemsUnder_reference link (by decide)]
      exact List.nil_subset _
  | schema facets properties items =>
      obtain ⟨names, hnames, hdeclared⟩ := (Part.throughout_schema hthroughout).1
      have hlaid := Layout.properties_of_schema hpart hrendered Terms.asText_of_typed
      have hsame : (schema.entriesUnder "properties").map (·.1) = properties.map (·.1) :=
        Result.map_eq_map_of_forall₂ hlaid fun _ _ hentry => hentry.1
      have hsettled : ∀ name ∈ names, name.IsSettled := by
        intro name hname
        obtain ⟨entry, hentry, rfl⟩ := List.mem_map.mp (hdeclared hname)
        obtain ⟨points, hpoints⟩ := ((Part.isSchema_schema_iff.mp hpart).2.2.1 entry hentry).1
        rw [hpoints]
        exact Datum.isSettled_ofCodes points
      rw [hsame, Layout.required_of_schema hrendered hnames hsettled]
      exact hdeclared
  | _ => exact hpart.elim

/-- The documents of accepted models are consistent. -/
theorem Accepted.document_consistent : Document.Consistent document := by
  have hclosed := h.closed_typed htyped
  obtain ⟨hinfoMarkers, hserverMarkers, htagMarkers, -, -⟩ := Model.all_walk_iff.mp hclosed.unmarked
  obtain ⟨components, info, servers, tags, paths, -, hinfo, hservers, htags, -, hrecord⟩ :=
    Layout.document_eq_ok_iff.mp hdocument
  have hserversUnder : document.itemsUnder "servers" = servers := by
    rw [Datum.itemsUnder, hrecord, Datum.field?_record]
    rfl
  have htagsUnder : document.itemsUnder "tags" = tags := by
    rw [Datum.itemsUnder, hrecord, Datum.field?_record]
    rfl
  refine
    { responses := fun entry hentry => (h.operation_consistent htyped hdocument hentry).1
      identified := fun entry hentry => (h.operation_consistent htyped hdocument hentry).2.1
      distinctIds := h.nodup_document_operationIds htyped hdocument
      placeholders := fun entry hentry => (h.operation_consistent htyped hdocument hentry).2.2
      parameters := fun value hvalue => h.parameter_consistent htyped hdocument hvalue
      required := fun schema hschema => h.required_declared htyped hdocument hschema
      servers := ?_
      tags := ?_
      info := ?_ }
  · rw [hserversUnder, Layout.map_field?_eq hservers fun part hpart rendered hrendered => ?_]
    · exact h.nodup_servers htyped
    · obtain ⟨server, rfl, hfits⟩ := hclosed.fits.servers part hpart
      exact Layout.field?_server hfits (hserverMarkers _ hpart) hrendered
  · rw [htagsUnder, @Layout.map_field?_eq _ _ _ _ Part.name? htags fun part hpart rendered hrendered => ?_]
    · rw [OrderedMap.values, List.map_map]
      exact h.nodup_tags htyped
    · obtain ⟨entry, hentry, rfl⟩ := List.mem_map.mp hpart
      obtain ⟨tag, htag, hfits, -⟩ := hclosed.fits.tags entry hentry
      rw [htag] at hrendered ⊢
      exact Layout.field?_tag hfits (htag ▸ htagMarkers entry hentry) hrendered
  · obtain ⟨given, contact, license, hgiven, htitle, hversion⟩ := h.info_given htyped
    rw [hgiven] at hinfo
    obtain ⟨person, -, hrest⟩ := Result.bind_eq_ok_iff.mp hinfo
    obtain ⟨terms, -, heq⟩ := Result.bind_eq_ok_iff.mp hrest
    have hcompact := Except.ok.inj heq
    refine ⟨info, given.title, given.version, ?_, ?_, htitle, ?_, hversion⟩
    · rw [hrecord, Datum.field?_record]
      rfl
    · rw [← hcompact]
      exact Layout.field?_compact_isName (by simp) rfl htitle
    · rw [← hcompact]
      exact Layout.field?_compact_isName (by simp) rfl hversion

omit hdocument in
/-- Accepted models and their documents are consistent. -/
theorem Accepted.consistency (version : String) :
    ∃ document, Layout.document model version = .ok document ∧ model.Consistent ∧
      Document.Consistent document := by
  obtain ⟨document, hdocument⟩ := (h.closed_typed htyped).fits.layout version
  exact ⟨document, hdocument, h.model_consistent htyped, h.document_consistent htyped hdocument⟩

end Accepting

/-- A document with a server, a schema with a required property, and a parameter in the path. -/
theorem consistency_pets :
    ∃ document, Layout.document Pets.model "3.0.3" = .ok document ∧ Pets.model.Consistent ∧
      Document.Consistent document :=
  Accepted.consistency Pets.accepted Pets.wellTyped "3.0.3"

end DocCompiler
