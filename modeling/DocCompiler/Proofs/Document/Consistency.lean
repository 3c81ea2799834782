import DocCompiler.Proofs.Document.Follow
import Mathlib.Data.Set.Basic

/-!
Accepted models are consistent: what the rules check and what building takes care of fit together.
-/

namespace DocCompiler

open Annotation

/-- A text that is not empty. -/
def Datum.IsName (value : Datum) : Prop :=
  ∃ points, points ≠ [] ∧ value = .ofCodes points

/-- The data of leaves as they are read from a source, and references as they are read. -/
def Terms.typed : Terms where
  leaf := LeafKind.Fits
  link place link := link.Fresh place
  text value := ⟨_, (Datum.ofCodes_toList value).symm⟩
  bool value := ⟨value, rfl⟩

namespace Terms

variable {link : Collection → Reference → Prop} {value : Datum}

/-- A text that counts as given is not empty. -/
theorem isName_of_stated (h : (typed.withLink link).Stated .string value) (hmarker : ¬ value.IsMarker)
    (htruthy : value.isTruthy = true) : value.IsName := by
  obtain ⟨points, rfl⟩ := h.resolve_left hmarker
  refine ⟨points, ?_, rfl⟩
  rintro rfl
  cases htruthy

theorem isName_of_given (h : (typed.withLink link).Given .string value) (hmarker : ¬ value.IsMarker)
    (htruthy : value.isTruthy = true) : value.IsName := by
  rcases h with rfl | hstated
  · cases htruthy
  · exact isName_of_stated hstated hmarker htruthy

theorem asText_of_typed (name : Datum) (h : typed.leaf .string name) : name.asText = name := by
  obtain ⟨points, rfl⟩ := h
  exact Datum.asText_ofCodes points

end Terms

theorem Datum.IsName.sameKey_self {value : Datum} (h : value.IsName) : value.sameKey value = true := by
  obtain ⟨points, -, rfl⟩ := h
  exact sameKey_ofCodes.mpr rfl

theorem Datum.IsName.asText_eq {value : Datum} (h : value.IsName) : value.asText = value := by
  obtain ⟨points, -, rfl⟩ := h
  exact asText_ofCodes points

/-- The names of the parameters that an operation has in its path, aliases followed. -/
def Model.pathNames (model : Model) (endpoint : Endpoint) : Set Datum :=
  { name | ∃ part ∈ endpoint.parameters, ∃ steps value inner,
      model.components.Leads steps part (.parameter value inner) ∧
        value.location = .text "path" ∧ value.name = name }

/-- What a part must be on its own: operations have responses and identifiers; parameters have names
and known locations, and are required in the path; required properties of schemas are declared. -/
def Part.Consistent : Part → Prop
  | .operation value _ _ responses => responses ≠ [] ∧ value.operationId.IsName
  | .parameter value _ =>
      value.name.IsName ∧ ∃ location ∈ Rule.parameterLocations, value.location = .text location ∧
        (location = "path" → value.required = .bool true)
  | .schema facets properties _ =>
      ∃ names, facets.required = .list names ∧ names ⊆ properties.map (·.1)
  | _ => True

/-- A model that is consistent in all parts, in its operations, servers and tags together, and in its
general information. -/
structure Model.Consistent (model : Model) : Prop where
  parts : Walk.All Part.Consistent model.walk
  distinctIds : (model.routes.map fun route => route.2.operation.operationId).Nodup
  placeholders : ∀ route ∈ model.routes,
    { name | ∃ placeholder ∈ Route.placeholders route.1, name = .text placeholder } =
      model.pathNames route.2
  servers : (model.servers.map Part.url?).Nodup
  tags : (model.tags.map fun entry => entry.2.name?).Nodup
  info : ∃ info contact license, model.info = .info info contact license ∧
    info.title.IsName ∧ info.version.IsName

section Servers

variable {terms : Terms} {model : Model}

/-- Servers with distinct addresses in messages have distinct addresses. -/
theorem Model.Fits.nodup_urls (h : model.Fits terms) (hdistinct : model.serverUrls.Nodup) :
    (model.servers.map Part.url?).Nodup := by
  rw [Model.serverUrls, List.Nodup, List.pairwise_filterMap] at hdistinct
  rw [List.Nodup, List.pairwise_map]
  refine hdistinct.imp_of_mem fun {first second} hfirst hsecond hne heq => ?_
  obtain ⟨one, rfl, -⟩ := h.servers first hfirst
  obtain ⟨other, rfl, -⟩ := h.servers second hsecond
  obtain hurl : one.url = other.url := Option.some.inj heq
  refine hne one.url.display rfl one.url.display ?_ rfl
  rw [hurl]
  rfl

/-- The server of a configuration takes the place of those with its address. -/
theorem Model.nodup_urls_applyOverrides (h : (model.servers.map Part.url?).Nodup)
    (overrides : Overrides) : ((model.applyOverrides overrides).1.servers.map Part.url?).Nodup := by
  have hservers : (model.overrideInfo overrides).servers = model.servers := by
    rw [Model.overrideInfo]
    split <;> rfl
  unfold Model.applyOverrides
  split
  · rw [hservers]
    exact h
  · next url hurl =>
    dsimp only
    split
    · rw [hservers]
      exact h
    · rw [hservers]
      have hothers := h.sublist ((List.filter_sublist
        (p := fun server : Part => !server.url?.any (·.isText url))).map Part.url?)
      simp only [Model.addServer, Model.change, if_true]
      split
      · exact hothers
      · refine List.nodup_cons.mpr ⟨fun hmem => ?_, hothers⟩
        obtain ⟨server, hserver, heq⟩ := List.mem_map.mp hmem
        have hdifferent := (List.mem_filter.mp hserver).2
        rw [heq] at hdifferent
        simp [Part.url?, Datum.isText, Datum.text?] at hdifferent

end Servers

section Operations

/-- The operations that a walk meets. -/
def Walk.endpoints (walk : Walk) : List Endpoint :=
  walk.filterMap fun step => step.toOption.bind (·.2.endpoint?)

theorem Walk.sublist_endpoints_flatMap {α : Type} {items : List α} {found : α → List Endpoint}
    {walk : α → Walk} (h : ∀ item, (found item).Sublist (Walk.endpoints (walk item))) :
    (items.flatMap found).Sublist (Walk.endpoints (items.flatMap walk)) := by
  induction items with
  | nil => exact List.Sublist.slnil
  | cons item rest ih =>
      rw [List.flatMap_cons, List.flatMap_cons, Walk.endpoints, List.filterMap_append]
      exact (h item).append ih

/-- The walk over a model meets its operations in order. -/
theorem Model.endpoints_sublist (model : Model) :
    (model.routes.map (·.2)).Sublist (Walk.endpoints model.walk) := by
  have hroutes : model.routes.map (·.2) = model.paths.flatMap fun entry => entry.2.flatMap fun found =>
      [found.2] := by
    rw [Model.routes, List.map_flatMap]
    congr 1
    funext entry
    rw [List.map_map, ← List.flatMap_pure_eq_map]
    rfl
  rw [hroutes, Model.walk]
  simp only [Walk.endpoints, List.filterMap_append]
  refine List.Sublist.trans ?_ (List.sublist_append_left _ _)
  refine List.Sublist.trans ?_ (List.sublist_append_right _ _)
  refine Walk.sublist_endpoints_flatMap fun entry => Walk.sublist_endpoints_flatMap fun found => ?_
  exact List.cons_sublist_cons.mpr (List.nil_sublist _)

theorem Model.endpoints_walk {model : Model} {parts : Parts} (h : model.parts = .ok parts) :
    Walk.endpoints model.walk = (Rule.endpointsOf parts).map (·.2) := by
  have hwalk : model.walk = parts.map .ok := by
    have hall := Result.mapM_eq_ok_iff.mp h
    rw [← List.forall₂_eq_eq_eq, List.forall₂_map_right_iff]
    exact hall
  rw [hwalk, Walk.endpoints, Rule.endpointsOf, List.filterMap_map, List.map_filterMap]
  refine List.filterMap_congr fun entry _ => ?_
  cases hpart : entry.2.endpoint? <;> simp [hpart, Except.toOption]

theorem Rule.mem_endpointsOf_iff {parts : Parts} {entry : String × Endpoint} :
    entry ∈ Rule.endpointsOf parts ↔ (entry.1, entry.2.part) ∈ parts := by
  rw [Rule.endpointsOf, List.mem_filterMap]
  constructor
  · rintro ⟨⟨path, part⟩, hmem, hfound⟩
    cases part with
    | operation value parameters body responses =>
        obtain rfl := Option.some.inj hfound
        exact hmem
    | _ => cases hfound
  · intro hmem
    exact ⟨_, hmem, rfl⟩

/-- Operations whose identifiers are no equal keys have distinct identifiers. -/
theorem Model.nodup_operationIds {model : Model} {parts : Parts} (hparts : model.parts = .ok parts)
    (hnames : ∀ entry ∈ Rule.endpointsOf parts, entry.2.operation.operationId.IsName)
    (hdistinct : (Rule.endpointsOf parts).Pairwise fun first second =>
      first.2.operation.operationId.sameKey second.2.operation.operationId = false) :
    (model.routes.map fun route => route.2.operation.operationId).Nodup := by
  have hall : ((Rule.endpointsOf parts).map fun entry => entry.2.operation.operationId).Nodup := by
    rw [List.Nodup, List.pairwise_map]
    refine hdistinct.imp_of_mem fun {first second} _ hsecond hne heq => ?_
    rw [heq, (hnames second hsecond).sameKey_self] at hne
    cases hne
  have hsublist := model.endpoints_sublist.map fun endpoint : Endpoint => endpoint.operation.operationId
  rw [Model.endpoints_walk hparts, List.map_map, List.map_map] at hsublist
  exact hall.sublist hsublist

end Operations

section Parts

variable {link : Collection → Reference → Prop} {model : Model} {parts : Parts}

theorem Parameter.consistent {path : String} {value : Parameter} {inner : Option Part}
    (hmem : (path, .parameter value inner) ∈ parts)
    (hrule : Rule.parameterShape.breaches model parts = .ok [])
    (hfits : value.Fits (Terms.typed.withLink link))
    (hmarkers : Rule.markers (.parameter value inner) = []) :
    (Part.parameter value inner).Consistent := by
  have hname : ¬ value.name.IsMarker :=
    Rule.not_isMarker_of_markers hmarkers (by simp [Rule.fieldsOf])
  have hlocation : ¬ value.location.IsMarker :=
    Rule.not_isMarker_of_markers hmarkers (by simp [Rule.fieldsOf])
  have hrequired : ¬ value.required.IsMarker :=
    Rule.not_isMarker_of_markers hmarkers (by simp [Rule.fieldsOf])
  obtain ⟨htruthy, hamong, hfalse⟩ := Rule.shape_of_parameterShape hrule hmem hlocation
  obtain ⟨location, hknown, heq⟩ := Datum.isAmong_iff.mp hamong
  refine ⟨Terms.isName_of_stated hfits.name hname htruthy, location, hknown, heq, ?_⟩
  rintro rfl
  have hpath : value.location.isText "path" = true := Datum.isText_iff.mpr heq
  rcases hfits.required with hnull | hmarker | ⟨flag, hflag⟩
  · exact absurd hnull (hfits.inPath hpath)
  · exact absurd hmarker hrequired
  · have htrue := hfalse hpath
    rw [hflag] at htrue ⊢
    cases flag with
    | true => rfl
    | false => cases htrue

theorem Facets.consistent {path : String} {facets : Facets} {properties : Registry} {items : Option Part}
    (hmem : (path, .schema facets properties items) ∈ parts)
    (hrule : Rule.requiredProperties.breaches model parts = .ok [])
    (hfits : facets.Fits (Terms.typed.withLink link))
    (hmarkers : Rule.markers (.schema facets properties items) = []) :
    (Part.schema facets properties items).Consistent := by
  obtain ⟨names, hnames, hstated⟩ := hfits.required
  have hlist : Rule.datumMarkers (.list names) = [] := by
    rw [← hnames]
    exact Rule.datumMarkers_of_markers hmarkers (by simp [Rule.fieldsOf])
  refine ⟨names, hnames, fun name hname => ?_⟩
  have hmarker : ¬ name.IsMarker :=
    Rule.not_isMarker_of_datumMarkers (Rule.datumMarkers_of_mem_items hlist hname)
  obtain ⟨points, rfl⟩ := (hstated name hname).resolve_left hmarker
  have hmembers : facets.required.members = .ok names := by
    rw [hnames]
    rfl
  obtain ⟨part, hpart⟩ := Option.isSome_iff_exists.mp
    (Rule.declared_of_requiredProperties hrule hmem hmembers hname hmarker)
  obtain ⟨key, hkey, hentry⟩ := Datum.mem_of_lookup_eq_some hpart
  rw [Datum.sameKey_ofCodes] at hkey
  exact List.mem_map.mpr ⟨_, hentry, hkey⟩

end Parts

section Paths

variable {terms : Terms} {model : Model}

theorem Rule.pathName?_eq_some_iff {part : Part} {name : Datum} :
    Rule.pathName? part = some name ↔ ∃ value inner, part = .parameter value inner ∧
      value.location = .text "path" ∧ value.name.asText = name := by
  cases part with
  | parameter value inner =>
      simp only [Rule.pathName?, Option.ite_none_right_eq_some, Option.some.injEq, Datum.isText_iff]
      constructor
      · intro h
        exact ⟨value, inner, rfl, h⟩
      · rintro ⟨_, _, ⟨⟩, h⟩
        exact h
  | _ => simp [Rule.pathName?]

/-- The rules find the names of the parameters that an operation has in its path. -/
theorem Model.Closed.mem_pathParameterNames_iff (h : model.Closed terms)
    (hconsistent : Walk.All Part.Consistent model.walk) {route : String × Endpoint}
    (hroute : route ∈ model.routes) {name : Datum} :
    name ∈ Rule.pathParameterNames model.linked route.2 ↔ name ∈ model.pathNames route.2 := by
  have hname : ∀ part ∈ route.2.parameters, ∀ steps value inner,
      model.components.Leads steps part (.parameter value inner) → value.name.asText = value.name := by
    intro part hpart steps value inner hleads
    have hfits := (h.fits.of_mem_routes hroute).1.parameters part hpart
    have hpartConsistent := (Model.throughout_of_mem_routes hconsistent hroute).parameters part hpart
    obtain ⟨-, htarget, -⟩ := h.target_of_leads
      (fun entry hentry => Model.throughout_of_mem_entries hconsistent hentry) hfits hpartConsistent hleads
    exact (Part.throughout_parameter htarget).1.1.asText_eq
  rw [Rule.pathParameterNames, List.mem_filterMap, h.linked]
  constructor
  · rintro ⟨part, hpart, hfound⟩
    have hfits := (h.fits.of_mem_routes hroute).1.parameters part hpart
    obtain ⟨steps, target, hsteps, hleads⟩ := h.exists_leads (by decide) hfits
    rw [hleads.dereference (by omega), Rule.pathName?_eq_some_iff] at hfound
    obtain ⟨value, inner, rfl, hlocation, heq⟩ := hfound
    exact ⟨part, hpart, steps, value, inner, hleads, hlocation,
      (hname part hpart steps value inner hleads).symm.trans heq⟩
  · rintro ⟨part, hpart, steps, value, inner, hleads, hlocation, rfl⟩
    refine ⟨part, hpart, ?_⟩
    have hfits := (h.fits.of_mem_routes hroute).1.parameters part hpart
    obtain ⟨count, target, hcount, hfound⟩ := h.exists_leads (by decide) hfits
    obtain rfl := hleads.target_eq hfound
    rw [hfound.dereference (by omega), Rule.pathName?_eq_some_iff]
    exact ⟨value, inner, rfl, hlocation, hname part hpart steps value inner hleads⟩

end Paths

section Accepting

variable {units : List AnnotatedUnit} {overrides : Overrides} {model : Model}
  (h : Accepted units overrides model) (htyped : ∀ unit ∈ units, unit.WellTyped)

include h htyped

theorem Accepted.closed_typed : model.Closed Terms.typed :=
  (@Accepted.closed _ _ _ Terms.typed h htyped fun _ _ => Iff.rfl).1

theorem Accepted.all_consistent : Walk.All Part.Consistent model.walk := by
  have hclosed := h.closed_typed htyped
  obtain ⟨parts, hparts, hrules⟩ := h.breaches_eq_nil
  refine Model.all_walk_of_parts hparts fun entry hentry => ?_
  have hform := hclosed.fits.all_inForm.of_mem_parts hparts hentry
  have hmarkers := hclosed.unmarked.of_mem_parts hparts hentry
  rcases entry with ⟨path, part⟩
  cases part with
  | operation value parameters body responses =>
      have hendpoint : (path, Endpoint.mk value parameters body responses) ∈ Rule.endpointsOf parts :=
        Rule.mem_endpointsOf_iff.mpr hentry
      have hids := (Rule.distinct_of_uniqueOperationId (hrules _ (by simp [Rule.all]))
        fun found hfound => Rule.not_isMarker_of_markers
          (hclosed.unmarked.of_mem_parts hparts (Rule.mem_endpointsOf_iff.mp hfound))
          (by simp [Rule.fieldsOf, Endpoint.part])).1
      refine ⟨Rule.responses_ne_nil (hrules _ (by simp [Rule.all])) hendpoint, ?_⟩
      have hid : ¬ value.operationId.IsMarker :=
        Rule.not_isMarker_of_markers hmarkers (by simp [Rule.fieldsOf])
      exact Terms.isName_of_stated hform.operationId hid (hids _ hendpoint)
  | parameter value inner =>
      exact Parameter.consistent hentry (hrules _ (by simp [Rule.all])) hform hmarkers
  | schema facets properties items =>
      exact Facets.consistent hentry (hrules _ (by simp [Rule.all])) hform.1 hmarkers
  | _ => trivial

theorem Accepted.nodup_operationIds :
    (model.routes.map fun route => route.2.operation.operationId).Nodup := by
  have hconsistent := h.all_consistent htyped
  obtain ⟨parts, hparts, hrules⟩ := h.breaches_eq_nil
  have hnames : ∀ entry ∈ Rule.endpointsOf parts, entry.2.operation.operationId.IsName :=
    fun entry hentry => (hconsistent.of_mem_parts hparts (Rule.mem_endpointsOf_iff.mp hentry)).2
  refine Model.nodup_operationIds hparts hnames ?_
  refine (Rule.distinct_of_uniqueOperationId (hrules _ (by simp [Rule.all])) fun entry hentry => ?_).2
  exact Rule.not_isMarker_of_markers
    (h.unmarked.of_mem_parts hparts (Rule.mem_endpointsOf_iff.mp hentry))
    (by simp [Rule.fieldsOf, Endpoint.part])

/-- The paths of operations are texts, whose placeholders are the names of the parameters in them. -/
theorem Accepted.placeholders_eq {route : String × Endpoint} (hroute : route ∈ model.routes) :
    { name | ∃ placeholder ∈ Route.placeholders route.1, name = .text placeholder } =
      model.pathNames route.2 := by
  have hclosed := h.closed_typed htyped
  have hconsistent := h.all_consistent htyped
  obtain ⟨parts, hparts, hrules⟩ := h.breaches_eq_nil
  have hendpoint : route.2 ∈ (Rule.endpointsOf parts).map (·.2) := by
    rw [← Model.endpoints_walk hparts]
    exact model.endpoints_sublist.subset (List.mem_map_of_mem hroute)
  obtain ⟨entry, hentry, heq⟩ := List.mem_map.mp hendpoint
  have hmarker : ¬ entry.2.operation.path.IsMarker :=
    Rule.not_isMarker_of_markers
      (h.unmarked.of_mem_parts hparts (Rule.mem_endpointsOf_iff.mp hentry))
      (by simp [Rule.fieldsOf, Endpoint.part])
  obtain ⟨path, hpath, hnames⟩ :=
    Rule.placeholders_of_pathParameters (hrules _ (by simp [Rule.all])) hentry hmarker
  rw [heq] at hpath hnames
  have hroutePath : route.1 = path := by
    rw [(hclosed.fits.of_mem_routes hroute).2, hpath]
    rfl
  ext name
  rw [Set.mem_ofPred_eq, hroutePath, hnames]
  exact hclosed.mem_pathParameterNames_iff hconsistent hroute

theorem Accepted.nodup_servers : (model.servers.map Part.url?).Nodup := by
  obtain ⟨-, context, hsound, -, hservers, -⟩ :=
    @Accepted.closed _ _ _ Terms.typed h htyped fun _ _ => Iff.rfl
  rw [hservers]
  exact Model.nodup_urls_applyOverrides (hsound.fits.nodup_urls hsound.distinct) overrides

theorem Accepted.nodup_tags : (model.tags.map fun entry => entry.2.name?).Nodup := by
  have hfits := (h.closed_typed htyped).fits
  have hdistinct := hfits.distinctTags
  rw [List.Nodup, List.pairwise_map] at hdistinct ⊢
  refine hdistinct.imp_of_mem fun {first second} hfirst hsecond hne heq => hne ?_
  obtain ⟨one, hone, -, hname⟩ := hfits.tags first hfirst
  obtain ⟨other, hother, -, hotherName⟩ := hfits.tags second hsecond
  rw [hone, hother] at heq
  rw [hname, hotherName, Option.some.inj heq]

theorem Accepted.info_given : ∃ info contact license, model.info = .info info contact license ∧
    info.title.IsName ∧ info.version.IsName := by
  have hclosed := h.closed_typed htyped
  obtain ⟨parts, hparts, hrules⟩ := h.breaches_eq_nil
  obtain ⟨info, contact, license, hinfo, htitle, hversion⟩ :=
    Rule.given_of_infoMetadata (hrules _ (by simp [Rule.all]))
  have hfits := hclosed.fits.info
  rw [hinfo] at hfits
  have hmarkers := (Model.all_walkInfo_iff hinfo).mp (Model.all_walk_iff.mp hclosed.unmarked).1
  refine ⟨info, contact, license, hinfo, ?_, ?_⟩
  · exact Terms.isName_of_given hfits.1.title
      (Rule.not_isMarker_of_markers hmarkers.1 (by simp [Rule.fieldsOf])) htitle
  · exact Terms.isName_of_given hfits.1.version
      (Rule.not_isMarker_of_markers hmarkers.1 (by simp [Rule.fieldsOf])) hversion

/-- Accepted models are consistent. -/
theorem Accepted.model_consistent : model.Consistent where
  parts := h.all_consistent htyped
  distinctIds := h.nodup_operationIds htyped
  placeholders _ hroute := h.placeholders_eq htyped hroute
  servers := h.nodup_servers htyped
  tags := h.nodup_tags htyped
  info := h.info_given htyped

end Accepting

end DocCompiler
