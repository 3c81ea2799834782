import DocCompiler.Proofs.Document.Layout
import DocCompiler.Document.Example
import DocCompiler.Proofs.Document.Resolution
import DocCompiler.Proofs.Document.Accept

/-!
References in the documents of accepted models. The pointers of bound references address the components they
are bound to: each reference leads to the component that its pointer names, and following references from a
parameter, a body or a response comes to an end where following aliases does, at one that is none. So accepted
documents are closed under references.
-/

namespace DocCompiler

section Fields

namespace Datum

/-- The entries of a mapping; other values have none. -/
def entries : Datum → List (Datum × Datum)
  | .map entries => entries
  | _ => []

/-- The items of a list; other values have none. -/
def items : Datum → List Datum
  | .list items => items
  | _ => []

/-- The entries of a mapping in a field. -/
def entriesUnder (value : Datum) (name : String) : List (Datum × Datum) :=
  ((value.field? name).map entries).getD []

/-- The items of a list in a field. -/
def itemsUnder (value : Datum) (name : String) : List Datum :=
  ((value.field? name).map items).getD []

theorem isSettled_ofCodes (points : List Nat) : (ofCodes points).IsSettled := by
  rcases ofCodes_cases points with ⟨text, htext⟩ | hcodes
  · rw [htext]
    rfl
  · rw [hcodes]
    rfl

theorem asText_ofCodes (points : List Nat) : (ofCodes points).asText = ofCodes points := by
  rcases ofCodes_cases points with ⟨text, htext⟩ | hcodes
  · rw [htext]
    rfl
  · rw [hcodes]
    rfl

theorem isNull_ofCodes (points : List Nat) : (ofCodes points).isNull = false := by
  rcases ofCodes_cases points with ⟨text, htext⟩ | hcodes
  · rw [htext]
    rfl
  · rw [hcodes]
    rfl

end Datum

namespace Layout

section Compact

variable {fields : List (String × Datum)} (h : (fields.map (·.1)).Nodup) {name : String}

include h

theorem field?_compact_ofCodes {points : List Nat} (hlookup : fields.lookup name = some (.ofCodes points)) :
    (compact fields).field? name = some (.ofCodes points) := by
  rw [field?_compact_of_isSettled h hlookup (Datum.isSettled_ofCodes points), Datum.isNull_ofCodes]
  rfl

theorem itemsUnder_compact {items : List Datum}
    (hlookup : fields.lookup name = some (if items.isEmpty then .null else .list items))
    (hitems : ∀ item ∈ items, item.IsSettled) : (compact fields).itemsUnder name = items := by
  cases items with
  | nil =>
      rw [Datum.itemsUnder, field?_compact_of_isSettled h hlookup rfl]
      rfl
  | cons first rest =>
      rw [Datum.itemsUnder, field?_compact_of_isSettled h hlookup (Datum.isSettled_list hitems)]
      rfl

theorem entriesUnder_compact {entries : List (Datum × Datum)}
    (hlookup : fields.lookup name = some (mapping entries)) (hentries : (Datum.map entries).IsSettled) :
    (compact fields).entriesUnder name = entries := by
  cases entries with
  | nil =>
      rw [Datum.entriesUnder, field?_compact_of_isSettled h hlookup rfl]
      rfl
  | cons first rest =>
      rw [Datum.entriesUnder, field?_compact_of_isSettled h hlookup hentries]
      rfl

theorem entriesUnder_compact_map {entries : List (Datum × Datum)}
    (hlookup : fields.lookup name = some (.map entries)) (hentries : (Datum.map entries).IsSettled) :
    (compact fields).entriesUnder name = entries := by
  rw [Datum.entriesUnder, field?_compact_of_isSettled h hlookup hentries]
  rfl

theorem entriesUnder_compact_of_lookup_eq_none (hlookup : fields.lookup name = none) :
    (compact fields).entriesUnder name = [] := by
  rw [Datum.entriesUnder, field?_compact h, hlookup]
  rfl

end Compact

section Reference

theorem field?_reference (link : Reference) :
    (reference link).field? "$ref" = some (.text link.pointer) := by
  rw [reference, Datum.field?_record]
  rfl

theorem field?_reference_of_ne (link : Reference) {name : String} (h : name ≠ "$ref") :
    (reference link).field? name = none := by
  rw [reference, Datum.field?_record, List.lookup_cons, beq_eq_false_iff_ne.mpr h]
  rfl

theorem entriesUnder_reference (link : Reference) {name : String} (h : name ≠ "$ref") :
    (reference link).entriesUnder name = [] := by
  rw [Datum.entriesUnder, field?_reference_of_ne link h]
  rfl

theorem itemsUnder_reference (link : Reference) {name : String} (h : name ≠ "$ref") :
    (reference link).itemsUnder name = [] := by
  rw [Datum.itemsUnder, field?_reference_of_ne link h]
  rfl

end Reference

end Layout

end Fields

section Pointers

variable {terms : Terms}

theorem Text.splitOn_append {first : String} (h : '/' ∉ first.toList) (rest : String) :
    Text.splitOn '/' (first ++ "/" ++ rest) = first :: Text.splitOn '/' rest := by
  have hslash : "/".toList = ['/'] := rfl
  simp only [Text.splitOn, String.toList_append, hslash, List.append_assoc, List.singleton_append]
  rw [List.splitOn_append_cons_self_of_not_mem h]
  simp

theorem Text.splitOn_of_notMem {text : String} (h : '/' ∉ text.toList) :
    Text.splitOn '/' text = [text] := by
  rw [Text.splitOn, List.splitOn_eq_singleton h]
  simp

/-- The pointer to a component leads through the collection to the name. -/
theorem resolvePointer_component (document : Datum) (collection : Collection) {name : String}
    (h : '/' ∉ name.toList) :
    resolvePointer document ("#/components/" ++ collection.name ++ "/" ++ name) =
      ((document.field? "components").bind (Datum.field? collection.name)).bind (Datum.field? name) := by
  have hsplit : Text.splitOn '/' ("components" ++ "/" ++ (collection.name ++ "/" ++ name)) =
      ["components", collection.name, name] := by
    rw [Text.splitOn_append (by decide), Text.splitOn_append (by cases collection <;> decide),
      Text.splitOn_of_notMem h]
  have hpointer : "#/components/" ++ collection.name ++ "/" ++ name =
      "#/" ++ ("components" ++ "/" ++ (collection.name ++ "/" ++ name)) := by
    rw [show "#/components/" = "#/" ++ ("components" ++ "/") from rfl]
    simp only [String.append_assoc]
  have hstart : "#/".toList = ['#', '/'] := rfl
  rw [resolvePointer, hpointer, if_pos (by simp [Text.startsWith, hstart]), String.toList_append,
    hstart, List.cons_append, List.cons_append, List.nil_append, List.drop_succ_cons,
    List.drop_succ_cons, List.drop_zero, String.ofList_toList, hsplit]
  rfl

namespace Layout

/-- What is found under a name among rendered entries is the rendering of what is found there. -/
theorem lookup_entries {entry : Part → Except ShapeError Datum} {registry : Registry}
    {found : List (Datum × Datum)} (h : entries entry registry = .ok found) {key : Datum} {part : Part}
    (hpart : Datum.lookup key registry = some part) :
    ∃ rendered, entry part = .ok rendered ∧ Datum.lookup key found = some rendered := by
  have hall := entries_eq_ok_iff.mp h
  clear h
  induction hall with
  | nil => cases hpart
  | @cons given result rest others hfirst _ ih =>
      rcases given with ⟨name, first⟩
      rcases result with ⟨other, rendered⟩
      obtain ⟨hsame, hrendered⟩ := hfirst
      dsimp only at hsame hrendered
      subst hsame
      by_cases hname : other.sameKey key = true
      · obtain rfl : first = part := by simpa [Datum.lookup, hname] using hpart
        exact ⟨rendered, hrendered, by simp [Datum.lookup, hname]⟩
      · obtain ⟨value, hvalue, hlookup⟩ := ih (by simpa [Datum.lookup, hname] using hpart)
        exact ⟨value, hvalue, by simpa [Datum.lookup, hname] using hlookup⟩

end Layout

/-- The pointer of a bound reference addresses the rendering of the component it is bound to. -/
theorem resolvePointer_of_bound {model : Model} {version : String} {document : Datum}
    (hdocument : Layout.document model version = .ok document) {place : Collection}
    {link : Reference} (h : link.Bound model.components place) :
    ∃ target rendered, model.components.target? link = some target ∧
      Layout.component place target = .ok rendered ∧
        resolvePointer document link.pointer = some rendered := by
  obtain ⟨found, hfound, hfield⟩ := Layout.field?_document hdocument place
  obtain ⟨name, hname, hslash⟩ := h.name
  obtain ⟨target, htarget⟩ := Option.isSome_iff_exists.mp h.found
  obtain ⟨rendered, hrendered, hlookup⟩ := Layout.lookup_entries hfound htarget
  refine ⟨target, rendered, ?_, hrendered, ?_⟩
  · rw [Components.target?, h.binding, h.collection, Collection.ofDatum?_name]
    exact htarget
  · rw [hname] at hlookup
    rw [Reference.pointer, h.collection, hname, Datum.display, Datum.display,
      resolvePointer_component _ _ hslash]
    rw [hfield, Option.bind_some]
    exact hlookup

end Pointers

section Following

namespace Document

/-- The operations of a document, each with its path. -/
def operations (document : Datum) : List (Datum × Datum) :=
  (document.entriesUnder "paths").flatMap fun item =>
    item.2.entries.map fun entry => (item.1, entry.2)

/-- The components of a collection in a document. -/
def components (document : Datum) (collection : Collection) : List (Datum × Datum) :=
  ((document.field? "components").map (·.entriesUnder collection.name)).getD []

theorem components_of_field? {document : Datum} {collection : Collection}
    {found : List (Datum × Datum)}
    (h : (document.field? "components").bind (Datum.field? collection.name) = some (.map found)) :
    components document collection = found := by
  obtain ⟨inner, hinner, hfield⟩ := Option.bind_eq_some_iff.mp h
  rw [components, hinner, Option.map_some, Option.getD_some, Datum.entriesUnder, hfield]
  rfl

/-- What stands in an operation where a parameter, a body or a response does. -/
def operationPositions (operation : Datum) : List Datum :=
  operation.itemsUnder "parameters" ++ (operation.field? "requestBody").toList ++
    (operation.entriesUnder "responses").map (·.2)

/-- What stands in a document where a parameter, a body or a response does. -/
def positions (document : Datum) : List Datum :=
  (operations document).flatMap (fun entry => operationPositions entry.2) ++
    [Collection.parameters, .requestBodies, .responses].flatMap fun collection =>
      (components document collection).map (·.2)

/-- Following references from a value leads to a target that is none. -/
inductive Leads (document : Datum) : Datum → Datum → Prop
  | here {value : Datum} (h : value.field? "$ref" = none) : Leads document value value
  | follow {value next target : Datum} {pointer : String}
      (h : value.field? "$ref" = some (.text pointer))
      (hpointer : resolvePointer document pointer = some next) (hnext : Leads document next target) :
      Leads document value target

end Document

variable {terms : Terms} {model : Model} {version : String} {document : Datum}

namespace Layout

/-- Of components only references are rendered as such. -/
theorem field?_component {place : Collection} (hplace : place ≠ .schemas) {part : Part}
    (hpart : part.IsEntry terms place) (hne : ∀ link, part ≠ .reference link) {rendered : Datum}
    (hrendered : component place part = .ok rendered) : rendered.field? "$ref" = none := by
  cases place with
  | schemas => exact absurd rfl hplace
  | parameters =>
      obtain ⟨link, rfl, -⟩ | ⟨value, inner, rfl, -, -⟩ := Part.isEntry_parameters_iff.mp hpart
      · exact absurd rfl (hne link)
      · obtain ⟨schema, -, rfl⟩ := parameter_eq_ok_iff.mp hrendered
        rw [field?_compact (nodup_parameterFields ..)]
        rfl
  | requestBodies =>
      obtain ⟨link, rfl, -⟩ | ⟨value, content, rfl, -, -⟩ := Part.isEntry_requestBodies_iff.mp hpart
      · exact absurd rfl (hne link)
      · obtain ⟨found, -, rfl⟩ := requestBody_eq_ok_iff.mp hrendered
        rw [field?_compact (by simp)]
        rfl
  | responses =>
      obtain ⟨link, rfl, -⟩ | ⟨value, content, rfl, -, -⟩ := Part.isEntry_responses_iff.mp hpart
      · exact absurd rfl (hne link)
      · obtain ⟨found, -, rfl⟩ := response_eq_ok_iff.mp hrendered
        rw [field?_compact (by simp)]
        rfl

end Layout

namespace Model.Closed

variable (h : model.Closed terms)

include h

/-- What stands where a component may leads to a target. -/
theorem exists_leads {place : Collection} (hplace : place ≠ .schemas) {part : Part}
    (hpart : part.IsEntry (terms.withLink (Reference.Bound model.components)) place) :
    ∃ steps target, steps ≤ model.components.size ∧ model.components.Leads steps part target := by
  cases part with
  | reference link =>
      obtain ⟨name, next, -, hmem, htarget⟩ :=
        Components.target?_of_bound (Part.isEntry_reference_iff.mp hpart)
      obtain ⟨steps, target, hsteps, hleads⟩ := h.aliasesEnd place hplace _ hmem
      exact ⟨steps + 1, target, hsteps, .follow htarget hleads⟩
  | _ => exact ⟨0, _, Nat.zero_le _, .here rfl⟩

/-- The target of an alias stands where the alias may, and has what all components and the alias have. -/
theorem target_of_leads {holds : Part → Prop} {place : Collection}
    (hentries : ∀ entry ∈ model.components.entries place, holds entry.2) {steps : Nat}
    {part target : Part}
    (hpart : part.IsEntry (terms.withLink (Reference.Bound model.components)) place)
    (hholds : holds part) (hleads : model.components.Leads steps part target) :
    target.IsEntry (terms.withLink (Reference.Bound model.components)) place ∧ holds target ∧
      ∀ link, target ≠ .reference link := by
  induction hleads with
  | @here part hend =>
      refine ⟨hpart, hholds, ?_⟩
      rintro link rfl
      obtain ⟨name, next, -, -, htarget⟩ :=
        Components.target?_of_bound (Part.isEntry_reference_iff.mp hpart)
      cases hend.symm.trans htarget
  | @follow steps part next target hnext _ ih =>
      cases part with
      | reference link =>
          obtain ⟨name, found, -, hmem, htarget⟩ :=
            Components.target?_of_bound (Part.isEntry_reference_iff.mp hpart)
          obtain rfl : found = next := Option.some.inj (htarget.symm.trans hnext)
          exact ih (h.fits.components.entries place _ hmem) (hentries _ hmem)
      | _ => cases hnext

/-- Where an alias leads in a model its rendering leads in the document. -/
theorem leads_document (hdocument : Layout.document model version = .ok document)
    {place : Collection} (hplace : place ≠ .schemas) {steps : Nat} {part target : Part}
    (hpart : part.IsEntry (terms.withLink (Reference.Bound model.components)) place)
    (hleads : model.components.Leads steps part target) {rendered : Datum}
    (hrendered : Layout.component place part = .ok rendered) :
    ∃ found, Layout.component place target = .ok found ∧ Document.Leads document rendered found := by
  induction hleads generalizing rendered with
  | @here part hend =>
      refine ⟨rendered, hrendered, .here (Layout.field?_component hplace hpart ?_ hrendered)⟩
      rintro link rfl
      obtain ⟨name, next, -, -, htarget⟩ :=
        Components.target?_of_bound (Part.isEntry_reference_iff.mp hpart)
      cases hend.symm.trans htarget
  | @follow steps part next target hnext _ ih =>
      cases part with
      | reference link =>
          have hbound := Part.isEntry_reference_iff.mp hpart
          obtain ⟨member, result, hmember, hresult, hpointer⟩ := resolvePointer_of_bound hdocument hbound
          obtain ⟨name, other, -, hmem, hother⟩ := Components.target?_of_bound hbound
          obtain rfl : member = next := Option.some.inj (hmember.symm.trans hnext)
          obtain rfl : other = member := Option.some.inj (hother.symm.trans hmember)
          have hreference : Layout.reference link = rendered := by
            cases place <;> exact Except.ok.inj hrendered
          obtain ⟨found, hfound, hdocumentLeads⟩ := ih (h.fits.components.entries place _ hmem) hresult
          refine ⟨found, hfound, ?_⟩
          exact .follow (hreference ▸ Layout.field?_reference link) hpointer hdocumentLeads
      | _ => cases hnext

end Model.Closed

section Operations

variable {endpoint : Endpoint} (h : endpoint.Fits terms) {operation : Datum}
  (hoperation : Layout.operation endpoint = .ok operation)

include h hoperation

theorem Endpoint.Fits.itemsUnder_parameters :
    endpoint.parameters.mapM Layout.parameter = .ok (operation.itemsUnder "parameters") := by
  obtain ⟨parameters, body, tags, found, hparameters, -, -, -, rfl⟩ :=
    Layout.operation_eq_ok_iff.mp hoperation
  rw [hparameters, Layout.itemsUnder_compact (Layout.nodup_operationFields ..) rfl]
  intro item hitem
  obtain ⟨part, hpart, hrendered⟩ := Result.mem_of_mapM_eq_ok hparameters hitem
  exact (h.parameters part hpart).isSettled hrendered

theorem Endpoint.Fits.exists_of_field?_requestBody {body : Datum}
    (hbody : operation.field? "requestBody" = some body) :
    ∃ part ∈ endpoint.body, Layout.requestBody part = .ok body := by
  obtain ⟨parameters, given, tags, found, -, hgiven, -, -, rfl⟩ :=
    Layout.operation_eq_ok_iff.mp hoperation
  have hlookup : (Layout.operationFields endpoint.operation tags
      (if parameters.isEmpty then .null else .list parameters) given (.map found)).lookup
        "requestBody" = some given := rfl
  cases hpart : endpoint.body with
  | none =>
      rw [hpart] at hgiven
      obtain rfl : Datum.null = given := Except.ok.inj hgiven
      rw [Layout.field?_compact_of_isSettled (Layout.nodup_operationFields ..) hlookup rfl] at hbody
      cases hbody
  | some part =>
      rw [hpart] at hgiven
      have hsettled := (h.body part hpart).isSettled hgiven
      rw [Layout.field?_compact_of_isSettled (Layout.nodup_operationFields ..) hlookup hsettled] at hbody
      split at hbody
      · cases hbody
      · obtain rfl := Option.some.inj hbody
        exact ⟨part, rfl, hgiven⟩

omit hoperation in
theorem Endpoint.Fits.isSettled_responses {found : List (Datum × Datum)}
    (hfound : Layout.responses endpoint.responses = .ok found) : (Datum.map found).IsSettled := by
  obtain ⟨entries, hentries, rfl⟩ := Layout.responses_eq_ok_iff.mp hfound
  refine Datum.isSettled_map (Datum.distinct_distinctEntries _) (fun entry hentry => ?_)
    fun entry hentry => ?_
  · obtain ⟨other, hother, heq⟩ := List.mem_map.mp (Datum.mem_distinctEntries hentry).1
    obtain ⟨given, -, hname, -⟩ := Result.exists_left_of_forall₂ hentries hother
    rw [← heq, hname, Datum.asText_asText]
  · obtain ⟨other, hother, heq⟩ := List.mem_map.mp (Datum.mem_distinctEntries hentry).2
    obtain ⟨given, hgiven, -, hrendered⟩ := Result.exists_left_of_forall₂ hentries hother
    exact heq ▸ (h.responses given hgiven).isSettled hrendered

theorem Endpoint.Fits.entriesUnder_responses :
    Layout.responses endpoint.responses = .ok (operation.entriesUnder "responses") := by
  obtain ⟨parameters, body, tags, found, -, -, -, hfound, rfl⟩ :=
    Layout.operation_eq_ok_iff.mp hoperation
  rw [hfound, Layout.entriesUnder_compact_map (Layout.nodup_operationFields ..) rfl (h.isSettled_responses hfound)]

/-- What stands in an operation comes from a part of its kind. -/
theorem Endpoint.Fits.exists_of_mem_positions {holds : Part → Prop} (hall : endpoint.Throughout holds)
    {value : Datum} (hvalue : value ∈ Document.operationPositions operation) :
    ∃ place part, place ≠ .schemas ∧ part.IsEntry terms place ∧ part.Throughout holds ∧
      Layout.component place part = .ok value := by
  simp only [Document.operationPositions, List.mem_append, Option.mem_toList, List.mem_map] at hvalue
  rcases hvalue with (hparameter | hbody) | ⟨entry, hentry, rfl⟩
  · obtain ⟨part, hpart, hrendered⟩ :=
      Result.mem_of_mapM_eq_ok (h.itemsUnder_parameters hoperation) hparameter
    exact ⟨.parameters, part, by decide, h.parameters part hpart, hall.parameters part hpart, hrendered⟩
  · obtain ⟨part, hpart, hrendered⟩ := h.exists_of_field?_requestBody hoperation hbody
    exact ⟨.requestBodies, part, by decide, h.body part hpart, hall.body part hpart, hrendered⟩
  · obtain ⟨entries, hentries, hfound⟩ :=
      Layout.responses_eq_ok_iff.mp (h.entriesUnder_responses hoperation)
    rw [hfound] at hentry
    obtain ⟨other, hother, heq⟩ := List.mem_map.mp (Datum.mem_distinctEntries hentry).2
    obtain ⟨given, hgiven, -, hrendered⟩ := Result.exists_left_of_forall₂ hentries hother
    exact ⟨.responses, given.2, by decide, h.responses given hgiven, hall.responses given hgiven,
      heq ▸ hrendered⟩

end Operations

/-- The operations of a model, each with its path. -/
def Model.routes (model : Model) : List (String × Endpoint) :=
  model.paths.flatMap fun entry => entry.2.map fun found => (entry.1, found.2)

/-- The operations that are laid out path by path are those that were given. -/
theorem Layout.exists_routes {order : List (String × List (Datum × Endpoint))}
    {laid : List (String × Datum)}
    (h : List.Forall₂ (fun given entry => entry.1 = given.1 ∧ methods given.2 = .ok entry.2) order laid) :
    ∃ routes : List (String × Endpoint),
      routes.Perm (order.flatMap fun entry => entry.2.map fun found => (entry.1, found.2)) ∧
        List.Forall₂ (fun route entry => entry.1 = Datum.text route.1 ∧ operation route.2 = .ok entry.2) routes
          (laid.flatMap fun item => item.2.entries.map fun entry => (Datum.text item.1, entry.2)) := by
  induction h with
  | nil => exact ⟨[], List.Perm.refl _, .nil⟩
  | @cons given item _ _ hfirst _ ih =>
      obtain ⟨routes, hroutes, hentries⟩ := ih
      obtain ⟨hname, hmethods⟩ := hfirst
      obtain ⟨endpoints, found, hendpoints, hfound, hitem⟩ := methods_eq_ok hmethods
      refine ⟨(endpoints.map fun found => (given.1, found.2)) ++ routes, ?_, ?_⟩
      · exact (hendpoints.map _).append hroutes
      · rw [List.flatMap_cons, hitem]
        refine List.rel_append ?_ hentries
        rw [List.forall₂_map_left_iff, Datum.entries, List.forall₂_map_right_iff]
        exact hfound.imp fun endpoint entry hentry => ⟨by rw [hname], hentry.2⟩

/-- The operations of a document are those of its model. -/
theorem Document.operations_forall₂ (h : Layout.document model version = .ok document) :
    ∃ routes : List (String × Endpoint), routes.Perm model.routes ∧
      List.Forall₂ (fun route entry => entry.1 = Datum.text route.1 ∧
        Layout.operation route.2 = .ok entry.2) routes (operations document) := by
  obtain ⟨components, info, servers, tags, paths, -, -, -, -, hpaths, rfl⟩ :=
    Layout.document_eq_ok_iff.mp h
  obtain ⟨order, laid, horder, hlaid, rfl⟩ := Layout.paths_eq_ok hpaths
  obtain ⟨routes, hroutes, hentries⟩ := Layout.exists_routes hlaid
  refine ⟨routes, hroutes.trans (horder.flatMap_right _), ?_⟩
  have hunder : operations (.record [("openapi", .text version), ("info", info),
      ("servers", .list servers), ("tags", .list tags), ("paths", .record laid),
      ("components", components)]) =
        laid.flatMap fun item => item.2.entries.map fun entry => (Datum.text item.1, entry.2) := by
    rw [operations, Datum.entriesUnder, Datum.field?_record]
    exact List.flatMap_map ..
  rw [hunder]
  exact hentries

theorem Model.throughout_of_mem_routes {holds : Part → Prop} (h : Walk.All holds model.walk)
    {route : String × Endpoint} (hroute : route ∈ model.routes) : route.2.Throughout holds := by
  obtain ⟨entry, hentry, hroute⟩ := List.mem_flatMap.mp hroute
  obtain ⟨found, hfound, rfl⟩ := List.mem_map.mp hroute
  rw [Model.all_walk_iff] at h
  exact Endpoint.throughout_of_walk (h.2.2.2.1 entry hentry found hfound)

theorem Model.Fits.of_mem_routes (h : model.Fits terms) {route : String × Endpoint}
    (hroute : route ∈ model.routes) :
    route.2.Fits terms ∧ route.1 = route.2.operation.path.display := by
  obtain ⟨entry, hentry, hroute⟩ := List.mem_flatMap.mp hroute
  obtain ⟨found, hfound, rfl⟩ := List.mem_map.mp hroute
  obtain ⟨hfits, -, hpath⟩ := h.endpoints entry hentry found hfound
  exact ⟨hfits, hpath⟩

/-- Wherever a parameter, a body or a response stands in a document, it comes from a part of its
kind. -/
theorem Model.Fits.exists_of_mem_positions (h : model.Fits terms)
    (hdocument : Layout.document model version = .ok document) {holds : Part → Prop}
    (hall : Walk.All holds model.walk) {value : Datum} (hvalue : value ∈ Document.positions document) :
    ∃ place part, place ≠ .schemas ∧ part.IsEntry terms place ∧ part.Throughout holds ∧
      Layout.component place part = .ok value := by
  rcases List.mem_append.mp hvalue with hoperation | hcomponent
  · obtain ⟨entry, hentry, hposition⟩ := List.mem_flatMap.mp hoperation
    obtain ⟨routes, hroutes, hrendered⟩ := Document.operations_forall₂ hdocument
    obtain ⟨route, hroute, -, hlaid⟩ := Result.exists_left_of_forall₂ hrendered hentry
    exact (h.of_mem_routes (hroutes.subset hroute)).1.exists_of_mem_positions hlaid
      (Model.throughout_of_mem_routes hall (hroutes.subset hroute)) hposition
  · obtain ⟨place, hplace, hmem⟩ := List.mem_flatMap.mp hcomponent
    obtain ⟨entry, hentry, rfl⟩ := List.mem_map.mp hmem
    obtain ⟨found, hfound, hfield⟩ := Layout.field?_document hdocument place
    rw [Document.components_of_field? hfield] at hentry
    obtain ⟨given, hgiven, -, hrendered⟩ :=
      Result.exists_left_of_forall₂ (Layout.entries_eq_ok_iff.mp hfound) hentry
    refine ⟨place, given.2, ?_, h.components.entries place given hgiven,
      Model.throughout_of_mem_entries hall hgiven, hrendered⟩
    rintro rfl
    simp at hplace

end Following

open Annotation

/-- Any data, and references as they are read. -/
def Terms.any : Terms where
  leaf _ _ := True
  link place link := link.Fresh place
  text _ := trivial
  bool _ := trivial

section Accepting

variable {units : List AnnotatedUnit} {overrides : Overrides} {model : Model}

theorem Accepted.closed_any (h : Accepted units overrides model) : model.Closed Terms.any :=
  (h.closed (fun unit _ => unit.leaves_of_forall _ fun _ _ => trivial) fun _ _ => Iff.rfl).1

/-- The document of an accepted model is closed under references. -/
theorem Accepted.reference_closure (h : Accepted units overrides model) (version : String) :
    ∃ parts document, model.parts = .ok parts ∧ Layout.document model version = .ok document ∧
      (∀ entry ∈ parts.references, ∃ collection target rendered,
        Collection.ofDatum? entry.2.collection = some collection ∧
          model.components.target? entry.2 = some target ∧
            Layout.component collection target = .ok rendered ∧
              resolvePointer document entry.2.pointer = some rendered) ∧
      ∀ value ∈ Document.positions document, ∃ target, Document.Leads document value target := by
  have hclosed := h.closed_any
  obtain ⟨parts, hparts, -⟩ := h.breaches_eq_nil
  obtain ⟨document, hdocument⟩ := hclosed.fits.layout version
  refine ⟨parts, document, hparts, hdocument, fun entry hentry => ?_, fun value hvalue => ?_⟩
  · obtain ⟨place, hbound⟩ :=
      hclosed.fits.all_inForm.of_mem_parts hparts (Parts.mem_of_mem_references hentry)
    obtain ⟨target, rendered, htarget, hrendered, hpointer⟩ := resolvePointer_of_bound hdocument hbound
    refine ⟨place, target, rendered, ?_, htarget, hrendered, hpointer⟩
    rw [hbound.collection, Collection.ofDatum?_name]
  · obtain ⟨place, part, hplace, hpart, -, hrendered⟩ :=
      hclosed.fits.exists_of_mem_positions hdocument hclosed.unmarked hvalue
    obtain ⟨steps, target, -, hleads⟩ := hclosed.exists_leads hplace hpart
    obtain ⟨found, -, hfound⟩ := hclosed.leads_document hdocument hplace hpart hleads hrendered
    exact ⟨found, hfound⟩

end Accepting

/-- A document in which a parameter of an operation is a reference. -/
theorem reference_closure_pets :
    ∃ parts document, Pets.model.parts = .ok parts ∧
      Layout.document Pets.model "3.0.3" = .ok document ∧
      (∀ entry ∈ parts.references, ∃ collection target rendered,
        Collection.ofDatum? entry.2.collection = some collection ∧
          Pets.model.components.target? entry.2 = some target ∧
            Layout.component collection target = .ok rendered ∧
              resolvePointer document entry.2.pointer = some rendered) ∧
      ∀ value ∈ Document.positions document, ∃ target, Document.Leads document value target :=
  Accepted.reference_closure Pets.accepted "3.0.3"

end DocCompiler
