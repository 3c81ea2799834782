import DocCompiler.Proofs.Document.Form
import DocCompiler.Document.Walk

/-!
Replacing the references of a model leaves its other parts alone, so that a model in form stays in
form.
-/

namespace DocCompiler

variable (f : Reference → Reference)

/-- Parts under names with the references in them replaced. -/
def Part.mapRegistry (registry : Registry) : Registry :=
  registry.map fun entry => (entry.1, Part.mapReferences (m := Id) f entry.2)

theorem mapM_id {α β : Type} (f : α → Id β) (items : List α) :
    (items.mapM f : Id (List β)) = items.map f :=
  List.idRun_mapM

theorem Part.mapProperties_id (properties : Registry) :
    Part.mapProperties (m := Id) f properties = Part.mapRegistry f properties := by
  induction properties with
  | nil => rfl
  | cons entry rest ih =>
      rw [Part.mapRegistry, List.map_cons, ← Part.mapRegistry, ← ih]
      rfl

theorem Part.mapSchema_id (found : Option Part) :
    Part.mapSchema (m := Id) f found = found.map (Part.mapReferences (m := Id) f) := by
  cases found <;> rfl

theorem Part.mapContent_id (content : Registry) :
    Part.mapContent (m := Id) f content =
      content.map fun entry => (entry.1, Part.mapMedia (m := Id) f entry.2) := by
  induction content with
  | nil => rfl
  | cons entry rest ih =>
      rw [List.map_cons, ← ih]
      rfl

theorem Endpoint.mapReferences_id (endpoint : Endpoint) :
    endpoint.mapReferences (m := Id) f =
      { endpoint with
        parameters := endpoint.parameters.map (Part.mapReferences (m := Id) f)
        body := endpoint.body.map (Part.mapReferences (m := Id) f)
        responses := Part.mapRegistry f endpoint.responses } := by
  rw [← Part.mapSchema_id, Part.mapRegistry, ← mapM_id, ← mapM_id]
  rfl

theorem Components.entries_mapReferences (components : Components) (collection : Collection) :
    Components.entries (components.mapReferences (m := Id) f) collection =
      Part.mapRegistry f (components.entries collection) := by
  rw [Part.mapRegistry, ← mapM_id]
  cases collection <;> rfl

theorem Components.securitySchemes_mapReferences (components : Components) :
    Components.securitySchemes (components.mapReferences (m := Id) f) =
      components.securitySchemes.map fun entry => (entry.1, Part.mapReference (m := Id) f entry.2) := by
  rw [← mapM_id]
  rfl

theorem Datum.distinct_map {α β : Type} {entries : List (Datum × α)} (h : Datum.Distinct entries)
    (g : Datum × α → β) : Datum.Distinct (entries.map fun entry => (entry.1, g entry)) :=
  List.pairwise_map.mpr h

section Fitting

variable {f} {terms : Terms} {link' : Collection → Reference → Prop}
  (hlink : ∀ place link, terms.link place link → link' place (f link))

include hlink

theorem Part.IsSchema.mapReferences {part : Part} (h : part.IsSchema terms) :
    Part.IsSchema (terms.withLink link') (part.mapReferences (m := Id) f) := by
  refine h.induction (motive := fun part =>
    Part.IsSchema (terms.withLink link') (part.mapReferences (m := Id) f)) ?_ ?_
  · intro link hterms
    exact hlink _ _ hterms
  · intro facets properties items hfacets hdistinct hproperties hitems
    change Part.IsSchema _ (.schema facets (Part.mapProperties (m := Id) f properties)
      (Part.mapSchema (m := Id) f items))
    rw [Part.mapProperties_id, Part.mapSchema_id, Part.isSchema_schema_iff]
    refine ⟨{ hfacets with }, Datum.distinct_map hdistinct _, ?_, ?_⟩
    · rw [Part.mapRegistry, List.forall_mem_map]
      exact fun entry hentry => ⟨(hproperties entry hentry).1, (hproperties entry hentry).2.2⟩
    · intro part hpart
      obtain ⟨given, hgiven, rfl⟩ := Option.map_eq_some_iff.mp hpart
      exact (hitems given hgiven).2

theorem Part.isSchema?_mapSchema {found : Option Part} (h : ∀ part ∈ found, part.IsSchema terms) :
    Part.IsSchema? (terms.withLink link') (Part.mapSchema (m := Id) f found) := by
  rw [Part.mapSchema_id, Part.isSchema?_iff]
  intro part hpart
  obtain ⟨given, hgiven, rfl⟩ := Option.map_eq_some_iff.mp hpart
  exact (h given hgiven).mapReferences hlink

theorem IsContent.mapContent {content : Registry} (h : IsContent terms content) :
    IsContent (terms.withLink link') (Part.mapContent f content : Id Registry) := by
  rw [Part.mapContent_id]
  refine ⟨Datum.distinct_map h.distinct _, ?_, ?_⟩
  · rw [List.forall_mem_map]
    exact h.named
  · rw [List.forall_mem_map]
    intro entry hentry
    obtain ⟨sample, inner, hmedia, hinner⟩ := Part.isMedia_iff.mp (h.media entry hentry)
    rw [hmedia, Part.isMedia_iff]
    exact ⟨sample, _, rfl, Part.isSchema?_iff.mp (Part.isSchema?_mapSchema hlink hinner)⟩

theorem Part.IsEntry.mapReferences {collection : Collection} {part : Part}
    (h : part.IsEntry terms collection) :
    Part.IsEntry (terms.withLink link') collection (part.mapReferences (m := Id) f) := by
  cases collection with
  | schemas =>
      rw [Part.isEntry_schemas_iff] at h ⊢
      exact h.mapReferences hlink
  | parameters =>
      rw [Part.isEntry_parameters_iff] at h ⊢
      obtain ⟨link, rfl, hterms⟩ | ⟨value, inner, rfl, hvalue, hinner⟩ := h
      · exact .inl ⟨f link, rfl, hlink _ _ hterms⟩
      · exact .inr ⟨value, _, rfl, { hvalue with }, Part.isSchema?_iff.mp (Part.isSchema?_mapSchema hlink hinner)⟩
  | requestBodies =>
      rw [Part.isEntry_requestBodies_iff] at h ⊢
      obtain ⟨link, rfl, hterms⟩ | ⟨value, content, rfl, hvalue, hcontent⟩ := h
      · exact .inl ⟨f link, rfl, hlink _ _ hterms⟩
      · exact .inr ⟨value, _, rfl, { hvalue with }, hcontent.mapContent hlink⟩
  | responses =>
      rw [Part.isEntry_responses_iff] at h ⊢
      obtain ⟨link, rfl, hterms⟩ | ⟨value, content, rfl, hvalue, hcontent⟩ := h
      · exact .inl ⟨f link, rfl, hlink _ _ hterms⟩
      · exact .inr ⟨value, _, rfl, hvalue, hcontent.mapContent hlink⟩

theorem Endpoint.Fits.mapReferences {endpoint : Endpoint} (h : endpoint.Fits terms) :
    Endpoint.Fits (terms.withLink link') (endpoint.mapReferences (m := Id) f) := by
  rw [Endpoint.mapReferences_id]
  exact
    { operation := { h.operation with }
      parameters := by
        rw [List.forall_mem_map]
        exact fun part hpart => (h.parameters part hpart).mapReferences hlink
      body := by
        intro part hpart
        obtain ⟨given, hgiven, rfl⟩ := Option.map_eq_some_iff.mp hpart
        exact (h.body given hgiven).mapReferences hlink
      distinct := Datum.distinct_map h.distinct _
      statuses := by
        rw [Part.mapRegistry, List.forall_mem_map]
        exact h.statuses
      responses := by
        rw [Part.mapRegistry, List.forall_mem_map]
        exact fun entry hentry => (h.responses entry hentry).mapReferences hlink }

theorem Components.Fits.mapReferences {components : Components} (h : components.Fits terms) :
    Components.Fits (terms.withLink link') (components.mapReferences (m := Id) f) := by
  have hschemes : ∀ entry ∈ components.securitySchemes,
      Part.mapReference (m := Id) f entry.2 = entry.2 := by
    intro entry hentry
    obtain ⟨scheme, hscheme, -⟩ := h.schemes entry hentry
    rw [hscheme]
    rfl
  exact
    { distinct := fun collection => by
        rw [Components.entries_mapReferences]
        exact Datum.distinct_map (h.distinct collection) _
      named := fun collection => by
        rw [Components.entries_mapReferences, Part.mapRegistry, List.forall_mem_map]
        exact h.named collection
      entries := fun collection => by
        rw [Components.entries_mapReferences, Part.mapRegistry, List.forall_mem_map]
        exact fun entry hentry => (h.entries collection entry hentry).mapReferences hlink
      schemes := by
        rw [Components.securitySchemes_mapReferences, List.forall_mem_map]
        intro entry hentry
        rw [hschemes entry hentry]
        exact (h.schemes entry hentry).imp fun _ => .imp_right SecurityScheme.Fits.withLink
      distinctSchemes := by
        rw [Components.securitySchemes_mapReferences]
        exact Datum.distinct_map h.distinctSchemes _
      namedSchemes := by
        rw [Components.securitySchemes_mapReferences, List.forall_mem_map]
        exact h.namedSchemes }

end Fitting

section Models

variable {terms : Terms}

theorem Part.mapReference_of_ne {part : Part} (h : ∀ link, part ≠ .reference link) :
    Part.mapReference (m := Id) f part = part := by
  cases part with
  | reference link => exact absurd rfl (h link)
  | _ => rfl

theorem Part.mapM_mapReference_of_ne {found : Option Part}
    (h : ∀ part ∈ found, ∀ link, part ≠ .reference link) :
    (found.mapM (Part.mapReference f) : Id (Option Part)) = found := by
  cases found with
  | none => rfl
  | some part =>
      change some (Part.mapReference (m := Id) f part) = some part
      rw [Part.mapReference_of_ne f (h part rfl)]

theorem Part.IsInfo.mapInfo {part : Part} (h : part.IsInfo terms) :
    Part.mapInfo (m := Id) f part = part := by
  cases part with
  | info value person conditions =>
      obtain ⟨-, hperson, hconditions⟩ := h
      change Part.info value (person.mapM (Part.mapReference f) : Id (Option Part))
        (conditions.mapM (Part.mapReference f) : Id (Option Part)) = _
      rw [Part.mapM_mapReference_of_ne, Part.mapM_mapReference_of_ne]
      · rintro part hpart link rfl
        obtain ⟨license, hlicense, -⟩ := hconditions _ hpart
        cases hlicense
      · rintro part hpart link rfl
        obtain ⟨contact, hcontact, -⟩ := hperson _ hpart
        cases hcontact
  | _ => exact h.elim

/-- Of a model in form, the operations and components alone have references. -/
theorem Model.Fits.mapReferences_id {model : Model} (h : model.Fits terms) :
    model.mapReferences (m := Id) f =
      { model with
        paths := model.paths.map fun entry =>
          (entry.1, entry.2.map fun found => (found.1, found.2.mapReferences (m := Id) f))
        components := model.components.mapReferences (m := Id) f } := by
  have hservers : model.servers.map (Part.mapReference (m := Id) f) = model.servers := by
    refine (List.map_congr_left fun part hpart => ?_).trans (List.map_id' _)
    obtain ⟨server, rfl, -⟩ := h.servers part hpart
    rfl
  have htags : model.tags.map (fun entry => (entry.1, Part.mapReference (m := Id) f entry.2)) =
      model.tags := by
    refine (List.map_congr_left fun entry hentry => ?_).trans (List.map_id' _)
    obtain ⟨tag, htag, -⟩ := h.tags entry hentry
    exact Prod.ext rfl (by rw [htag]; rfl)
  calc model.mapReferences (m := Id) f
      = { model with
          info := Part.mapInfo (m := Id) f model.info
          servers := (model.servers.mapM (Part.mapReference f) : Id (List Part))
          tags := (model.tags.mapM (fun entry => (entry.1, Part.mapReference (m := Id) f entry.2) :
            String × Part → Id (String × Part)) : Id (List (String × Part)))
          paths := (model.paths.mapM (fun entry => (entry.1, (entry.2.mapM
              (fun found => (found.1, found.2.mapReferences (m := Id) f) :
                Datum × Endpoint → Id (Datum × Endpoint)) : Id (List (Datum × Endpoint)))) :
            String × List (Datum × Endpoint) → Id (String × List (Datum × Endpoint))) :
              Id (List (String × List (Datum × Endpoint))))
          components := model.components.mapReferences (m := Id) f } := rfl
    _ = _ := by
      simp only [mapM_id, h.info.mapInfo f, hservers, htags]

/-- A model stays in form when references give way to others that may stand in their places. -/
theorem Model.Fits.mapReferences {f : Reference → Reference}
    {link' : Collection → Reference → Prop} {model : Model} (h : model.Fits terms)
    (hlink : ∀ place link, terms.link place link → link' place (f link)) :
    Model.Fits (terms.withLink link') (model.mapReferences (m := Id) f) := by
  rw [h.mapReferences_id f]
  exact
    { info := h.info.withLink
      servers := fun part hpart => (h.servers part hpart).imp fun _ => .imp_right Server.Fits.withLink
      tags := fun entry hentry => (h.tags entry hentry).imp fun _ =>
        .imp_right (.imp_left ApiTag.Fits.withLink)
      endpoints := by
        rw [List.forall_mem_map]
        intro entry hentry
        rw [List.forall_mem_map]
        intro found hfound
        obtain ⟨hfits, hnames⟩ := h.endpoints entry hentry found hfound
        refine ⟨hfits.mapReferences hlink, ?_⟩
        rw [Endpoint.mapReferences_id]
        exact hnames
      distinctMethods := by
        rw [List.forall_mem_map]
        exact fun entry hentry => Datum.distinct_map (h.distinctMethods entry hentry) _
      distinctPaths := by
        rw [List.map_map]
        exact h.distinctPaths
      distinctTags := h.distinctTags
      components := h.components.mapReferences hlink }

end Models

end DocCompiler
