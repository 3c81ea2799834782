import DocCompiler.Document.Walk
import DocCompiler.Proofs.Document.Form

/-!
What holds of all parts that a walk meets, taken apart along the nesting of parts. A walk over a model
in form meets no obstacle, and what it tells of references can be added to the form.
-/

namespace DocCompiler

/-- A walk without obstacles whose parts all have a property. -/
def Walk.All (holds : Part → Prop) (walk : Walk) : Prop :=
  ∀ step ∈ walk, ∃ path part, step = .ok (path, part) ∧ holds part

namespace Walk

variable {holds : Part → Prop}

theorem all_iff {walk : Walk} :
    Walk.All holds walk ↔ ∀ step ∈ walk, ∃ entry ∈ step.toOption, holds entry.2 := by
  refine forall₂_congr fun step _ => ?_
  cases step with
  | error error => simp [Except.toOption]
  | ok entry => simp [Except.toOption, Prod.ext_iff]

instance [DecidablePred holds] : DecidablePred (Walk.All holds) :=
  fun _ => decidable_of_iff' _ all_iff

@[simp] theorem all_nil : Walk.All holds [] := by
  simp [Walk.All]

theorem All.and {other : Part → Prop} {walk : Walk} (h : Walk.All holds walk) (hother : Walk.All other walk) :
    Walk.All (fun part => holds part ∧ other part) walk := by
  intro step hstep
  obtain ⟨path, part, rfl, hpart⟩ := h step hstep
  obtain ⟨_, _, heq, hsame⟩ := hother _ hstep
  obtain ⟨rfl, rfl⟩ := Prod.mk.inj (Except.ok.inj heq)
  exact ⟨path, part, rfl, hpart, hsame⟩

@[simp] theorem all_ok_cons {path : String} {part : Part} {rest : Walk} :
    Walk.All holds (.ok (path, part) :: rest) ↔ holds part ∧ Walk.All holds rest := by
  simp [Walk.All]

@[simp] theorem all_append {first second : Walk} :
    Walk.All holds (first ++ second) ↔ Walk.All holds first ∧ Walk.All holds second := by
  simp [Walk.All, or_imp, forall_and]

theorem all_flatMap {α : Type} {items : List α} {walk : α → Walk} :
    Walk.All holds (items.flatMap walk) ↔ ∀ item ∈ items, Walk.All holds (walk item) := by
  simp only [Walk.All, List.mem_flatMap]
  constructor
  · intro h item hitem step hstep
    exact h step ⟨item, hitem, hstep⟩
  · rintro h step ⟨item, hitem, hstep⟩
    exact h item hitem step hstep

theorem all_map_ok {α : Type} {items : List α} {found : α → String × Part} :
    Walk.All holds (items.map fun item => .ok (found item)) ↔ ∀ item ∈ items, holds (found item).2 := by
  simp only [Walk.All, List.forall_mem_map, Except.ok.injEq]
  constructor
  · intro h item hitem
    obtain ⟨path, part, heq, hpart⟩ := h item hitem
    rw [heq]
    exact hpart
  · intro h item hitem
    exact ⟨(found item).1, (found item).2, rfl, h item hitem⟩

end Walk

section Steps

variable {path : String}

theorem Part.walk_schema (facets : Facets) (properties : Registry) (items : Option Part) :
    (Part.schema facets properties items).walk path =
      .ok (path, .schema facets properties items) ::
        (Part.walkProperties path properties ++ Part.walkSchema (path ++ ".items") items) :=
  rfl

theorem Part.walk_parameter (value : Parameter) (inner : Option Part) :
    (Part.parameter value inner).walk path =
      .ok (path, .parameter value inner) :: Part.walkSchema (path ++ ".schema") inner :=
  rfl

theorem Part.walk_requestBody (value : RequestBody) (content : Registry) :
    (Part.requestBody value content).walk path =
      .ok (path, .requestBody value content) :: Part.walkContent path content :=
  rfl

theorem Part.walk_response (value : Response) (content : Registry) :
    (Part.response value content).walk path =
      .ok (path, .response value content) :: Part.walkContent path content :=
  rfl

theorem Part.walkProperties_cons (name : Datum) (part : Part) (rest : Registry) :
    Part.walkProperties path ((name, part) :: rest) =
      part.walk (path ++ ".properties." ++ name.display) ++ Part.walkProperties path rest :=
  rfl

theorem Part.walkSchema_some (part : Part) : Part.walkSchema path (some part) = part.walk path :=
  rfl

theorem Part.walkContent_cons (type : Datum) (media : Part) (rest : Registry) :
    Part.walkContent path ((type, media) :: rest) =
      media.walkMedia (path ++ ".content." ++ type.display) ++ Part.walkContent path rest :=
  rfl

theorem Part.walkMedia_mediaType (sample : Datum) (inner : Option Part) :
    (Part.mediaType sample inner).walkMedia path =
      .ok (path, .mediaType sample inner) :: Part.walkSchema (path ++ ".schema") inner :=
  rfl

end Steps

section Parts

variable {holds : Part → Prop} {path : String}

theorem Part.all_walkProperties_iff {properties : Registry} :
    Walk.All holds (Part.walkProperties path properties) ↔
      ∀ entry ∈ properties, Walk.All holds (entry.2.walk (path ++ ".properties." ++ entry.1.display)) := by
  induction properties with
  | nil => exact ⟨fun _ => nofun, fun _ => Walk.all_nil⟩
  | cons entry rest ih => rw [Part.walkProperties_cons, Walk.all_append, ih, List.forall_mem_cons]

theorem Part.all_walkSchema_iff {found : Option Part} :
    Walk.All holds (Part.walkSchema path found) ↔ ∀ part ∈ found, Walk.All holds (part.walk path) := by
  cases found with
  | none => exact ⟨fun _ => nofun, fun _ => Walk.all_nil⟩
  | some part => simp only [Part.walkSchema_some, Option.mem_some_iff, forall_eq']

theorem Part.all_walkContent_iff {content : Registry} :
    Walk.All holds (Part.walkContent path content) ↔
      ∀ entry ∈ content, Walk.All holds (entry.2.walkMedia (path ++ ".content." ++ entry.1.display)) := by
  induction content with
  | nil => exact ⟨fun _ => nofun, fun _ => Walk.all_nil⟩
  | cons entry rest ih => rw [Part.walkContent_cons, Walk.all_append, ih, List.forall_mem_cons]

theorem Part.all_walk_schema_iff {facets : Facets} {properties : Registry} {items : Option Part} :
    Walk.All holds ((Part.schema facets properties items).walk path) ↔
      holds (.schema facets properties items) ∧
        (∀ entry ∈ properties,
          Walk.All holds (entry.2.walk (path ++ ".properties." ++ entry.1.display))) ∧
        ∀ part ∈ items, Walk.All holds (part.walk (path ++ ".items")) := by
  rw [Part.walk_schema, Walk.all_ok_cons, Walk.all_append, Part.all_walkProperties_iff, Part.all_walkSchema_iff]

theorem Part.all_walk_reference_iff {link : Reference} :
    Walk.All holds ((Part.reference link).walk path) ↔ holds (.reference link) := by
  change Walk.All holds [.ok (path, .reference link)] ↔ _
  rw [Walk.all_ok_cons, and_iff_left Walk.all_nil]

theorem Part.all_walk_parameter_iff {value : Parameter} {inner : Option Part} :
    Walk.All holds ((Part.parameter value inner).walk path) ↔
      holds (.parameter value inner) ∧ ∀ part ∈ inner, Walk.All holds (part.walk (path ++ ".schema")) := by
  rw [Part.walk_parameter, Walk.all_ok_cons, Part.all_walkSchema_iff]

theorem Part.all_walk_requestBody_iff {value : RequestBody} {content : Registry} :
    Walk.All holds ((Part.requestBody value content).walk path) ↔
      holds (.requestBody value content) ∧
        ∀ entry ∈ content, Walk.All holds (entry.2.walkMedia (path ++ ".content." ++ entry.1.display)) := by
  rw [Part.walk_requestBody, Walk.all_ok_cons, Part.all_walkContent_iff]

theorem Part.all_walk_response_iff {value : Response} {content : Registry} :
    Walk.All holds ((Part.response value content).walk path) ↔
      holds (.response value content) ∧
        ∀ entry ∈ content, Walk.All holds (entry.2.walkMedia (path ++ ".content." ++ entry.1.display)) := by
  rw [Part.walk_response, Walk.all_ok_cons, Part.all_walkContent_iff]

theorem Part.all_walkMedia_iff {sample : Datum} {inner : Option Part} :
    Walk.All holds ((Part.mediaType sample inner).walkMedia path) ↔
      holds (.mediaType sample inner) ∧ ∀ part ∈ inner, Walk.All holds (part.walk (path ++ ".schema")) := by
  rw [Part.walkMedia_mediaType, Walk.all_ok_cons, Part.all_walkSchema_iff]

end Parts

section Endpoints

variable {holds : Part → Prop}

theorem Endpoint.all_walk_iff {endpoint : Endpoint} {path : String} :
    Walk.All holds (endpoint.walk path) ↔
      holds endpoint.part ∧
        (∀ found ∈ endpoint.parameters.zipIdx,
          Walk.All holds (found.1.walk (path ++ ".parameters[" ++ toString found.2 ++ "]"))) ∧
        (∀ part ∈ endpoint.body, Walk.All holds (part.walk (path ++ ".requestBody"))) ∧
        ∀ entry ∈ endpoint.responses,
          Walk.All holds (entry.2.walk (path ++ ".responses." ++ entry.1.display)) := by
  simp only [Endpoint.walk, Walk.all_ok_cons, Walk.all_append, Walk.all_flatMap,
    Part.all_walkSchema_iff, and_assoc]

theorem Components.all_walk_iff {components : Components} :
    Walk.All holds components.walk ↔
      (∀ collection, ∀ entry ∈ components.entries collection,
        Walk.All holds (entry.2.walk ("components." ++ collection.name ++ "." ++ entry.1.display))) ∧
      ∀ entry ∈ components.securitySchemes, holds entry.2 := by
  have hall : ∀ collection, collection ∈ Collection.all := by
    intro collection
    cases collection <;> decide
  simp only [Components.walk, Walk.all_append, Walk.all_flatMap, Components.walkEntries,
    Walk.all_map_ok]
  exact and_congr_left' ⟨fun h collection => h collection (hall collection), fun h collection _ => h collection⟩

theorem Model.all_walk_iff {model : Model} :
    Walk.All holds model.walk ↔
      Walk.All holds model.walkInfo ∧ (∀ part ∈ model.servers, holds part) ∧
        (∀ entry ∈ model.tags, holds entry.2) ∧
        (∀ entry ∈ model.paths, ∀ found ∈ entry.2,
          Walk.All holds (found.2.walk ("paths." ++ entry.1 ++ "." ++ found.1.display))) ∧
        Walk.All holds model.components.walk := by
  have hservers : (∀ found ∈ model.servers.zipIdx, holds found.1) ↔ ∀ part ∈ model.servers, holds part := by
    rw [← List.forall_mem_map (f := Prod.fst), List.zipIdx_map_fst]
  simp only [Model.walk, Walk.all_append, Walk.all_flatMap, Walk.all_map_ok, hservers, and_assoc]

theorem Model.all_walkInfo_iff {model : Model} {value : Info} {person conditions : Option Part}
    (h : model.info = .info value person conditions) :
    Walk.All holds model.walkInfo ↔
      holds (.info value person conditions) ∧ (∀ part ∈ person, holds part) ∧
        ∀ part ∈ conditions, holds part := by
  simp [Model.walkInfo, h, Walk.all_map_ok]

end Endpoints

section Forms

variable {terms : Terms}

/-- What the form of a model tells of a part without the parts nested in it. -/
def Part.InForm (terms : Terms) : Part → Prop
  | .reference link => ∃ place, terms.link place link
  | .operation value _ _ _ => value.Fits terms
  | .parameter value _ => value.Fits terms
  | .schema facets properties _ =>
      facets.Fits terms ∧ ∀ entry ∈ properties, terms.leaf .string entry.1
  | _ => True

theorem Part.IsSchema.all_inForm {part : Part} (h : part.IsSchema terms) (path : String) :
    Walk.All (Part.InForm terms) (part.walk path) := by
  refine h.induction (motive := fun part => ∀ path, Walk.All (Part.InForm terms) (part.walk path))
    ?_ ?_ path
  · intro link hlink path
    exact Part.all_walk_reference_iff.mpr ⟨_, hlink⟩
  · intro facets properties items hfacets _ hproperties hitems path
    rw [Part.all_walk_schema_iff]
    refine ⟨⟨hfacets, fun entry hentry => (hproperties entry hentry).1⟩, fun entry hentry => ?_,
      fun part hpart => ?_⟩
    · exact (hproperties entry hentry).2.2 _
    · exact (hitems part hpart).2 _

theorem IsContent.all_inForm {content : Registry} (h : IsContent terms content) (path : String) :
    ∀ entry ∈ content,
      Walk.All (Part.InForm terms) (entry.2.walkMedia (path ++ ".content." ++ entry.1.display)) := by
  intro entry hentry
  obtain ⟨sample, inner, hmedia, hinner⟩ := Part.isMedia_iff.mp (h.media entry hentry)
  rw [hmedia, Part.all_walkMedia_iff]
  exact ⟨trivial, fun part hpart => (hinner part hpart).all_inForm _⟩

theorem Part.IsEntry.all_inForm {collection : Collection} {part : Part}
    (h : part.IsEntry terms collection) (path : String) :
    Walk.All (Part.InForm terms) (part.walk path) := by
  cases collection with
  | schemas => exact (Part.isEntry_schemas_iff.mp h).all_inForm path
  | parameters =>
      obtain ⟨link, rfl, hlink⟩ | ⟨value, inner, rfl, hvalue, hinner⟩ :=
        Part.isEntry_parameters_iff.mp h
      · exact Part.all_walk_reference_iff.mpr ⟨_, hlink⟩
      · rw [Part.all_walk_parameter_iff]
        exact ⟨hvalue, fun part hpart => (hinner part hpart).all_inForm _⟩
  | requestBodies =>
      obtain ⟨link, rfl, hlink⟩ | ⟨value, content, rfl, -, hcontent⟩ :=
        Part.isEntry_requestBodies_iff.mp h
      · exact Part.all_walk_reference_iff.mpr ⟨_, hlink⟩
      · rw [Part.all_walk_requestBody_iff]
        exact ⟨trivial, hcontent.all_inForm path⟩
  | responses =>
      obtain ⟨link, rfl, hlink⟩ | ⟨value, content, rfl, -, hcontent⟩ :=
        Part.isEntry_responses_iff.mp h
      · exact Part.all_walk_reference_iff.mpr ⟨_, hlink⟩
      · rw [Part.all_walk_response_iff]
        exact ⟨trivial, hcontent.all_inForm path⟩

theorem Endpoint.Fits.all_inForm {endpoint : Endpoint} (h : endpoint.Fits terms) (path : String) :
    Walk.All (Part.InForm terms) (endpoint.walk path) := by
  rw [Endpoint.all_walk_iff]
  refine ⟨h.operation, fun found hfound => ?_, fun part hpart => ?_,
    fun entry hentry => ?_⟩
  · exact (h.parameters _ (List.fst_mem_of_mem_zipIdx hfound)).all_inForm _
  · exact (h.body part hpart).all_inForm _
  · exact (h.responses entry hentry).all_inForm _

/-- The walk of a model in form meets no obstacle, and parts in form only. -/
theorem Model.Fits.all_inForm {model : Model} (h : model.Fits terms) :
    Walk.All (Part.InForm terms) model.walk := by
  rw [Model.all_walk_iff, Components.all_walk_iff]
  refine ⟨?_, fun part hpart => ?_, fun entry hentry => ?_, fun entry hentry found hfound => ?_,
    fun collection entry hentry => ?_, fun entry hentry => ?_⟩
  · have hinfo := h.info
    cases hpart : model.info with
    | info value person conditions =>
        rw [hpart] at hinfo
        rw [Model.all_walkInfo_iff hpart]
        refine ⟨trivial, fun part hmem => ?_, fun part hmem => ?_⟩
        · obtain ⟨contact, rfl, -⟩ := hinfo.2.1 part hmem
          trivial
        · obtain ⟨license, rfl, -⟩ := hinfo.2.2 part hmem
          trivial
    | _ =>
        rw [hpart] at hinfo
        exact hinfo.elim
  · obtain ⟨server, rfl, -⟩ := h.servers part hpart
    trivial
  · obtain ⟨tag, htag, -⟩ := h.tags entry hentry
    rw [htag]
    trivial
  · exact (h.endpoints entry hentry found hfound).1.all_inForm _
  · exact (h.components.entries collection entry hentry).all_inForm _
  · obtain ⟨scheme, hscheme, -⟩ := h.components.schemes entry hentry
    rw [hscheme]
    trivial

end Forms

section Relinking

variable {terms : Terms} {link' : Collection → Reference → Prop} {holds : Part → Prop}
  (hlink : ∀ place link, holds (.reference link) → terms.link place link → link' place link)

include hlink

theorem Part.IsSchema.relink {part : Part} (h : part.IsSchema terms) {path : String}
    (hall : Walk.All holds (part.walk path)) : part.IsSchema (terms.withLink link') := by
  refine h.induction (motive := fun part => ∀ path, Walk.All holds (part.walk path) →
    part.IsSchema (terms.withLink link')) ?_ ?_ path hall
  · intro link hterms path hall
    exact hlink _ _ (Part.all_walk_reference_iff.mp hall) hterms
  · intro facets properties items hfacets hdistinct hproperties hitems path hall
    obtain ⟨-, hwalkProperties, hwalkItems⟩ := Part.all_walk_schema_iff.mp hall
    rw [Part.isSchema_schema_iff]
    refine ⟨{ hfacets with }, hdistinct, fun entry hentry => ?_, fun part hpart => ?_⟩
    · obtain ⟨hname, -, hmotive⟩ := hproperties entry hentry
      exact ⟨hname, hmotive _ (hwalkProperties entry hentry)⟩
    · exact (hitems part hpart).2 _ (hwalkItems part hpart)

theorem IsContent.relink {content : Registry} (h : IsContent terms content) {path : String}
    (hall : ∀ entry ∈ content,
      Walk.All holds (entry.2.walkMedia (path ++ ".content." ++ entry.1.display))) :
    IsContent (terms.withLink link') content := by
  refine ⟨h.distinct, h.named, fun entry hentry => ?_⟩
  obtain ⟨sample, inner, hmedia, hinner⟩ := Part.isMedia_iff.mp (h.media entry hentry)
  have hwalk := hall entry hentry
  rw [hmedia, Part.all_walkMedia_iff] at hwalk
  rw [Part.isMedia_iff]
  exact ⟨sample, inner, hmedia, fun part hpart => (hinner part hpart).relink hlink (hwalk.2 part hpart)⟩

theorem Part.IsEntry.relink {collection : Collection} {part : Part}
    (h : part.IsEntry terms collection) {path : String} (hall : Walk.All holds (part.walk path)) :
    part.IsEntry (terms.withLink link') collection := by
  cases collection with
  | schemas =>
      rw [Part.isEntry_schemas_iff] at h ⊢
      exact h.relink hlink hall
  | parameters =>
      rw [Part.isEntry_parameters_iff] at h ⊢
      obtain ⟨link, rfl, hterms⟩ | ⟨value, inner, rfl, hvalue, hinner⟩ := h
      · exact .inl ⟨link, rfl, hlink _ _ (Part.all_walk_reference_iff.mp hall) hterms⟩
      · rw [Part.all_walk_parameter_iff] at hall
        exact .inr ⟨value, inner, rfl, { hvalue with },
          fun part hpart => (hinner part hpart).relink hlink (hall.2 part hpart)⟩
  | requestBodies =>
      rw [Part.isEntry_requestBodies_iff] at h ⊢
      obtain ⟨link, rfl, hterms⟩ | ⟨value, content, rfl, hvalue, hcontent⟩ := h
      · exact .inl ⟨link, rfl, hlink _ _ (Part.all_walk_reference_iff.mp hall) hterms⟩
      · rw [Part.all_walk_requestBody_iff] at hall
        exact .inr ⟨value, content, rfl, { hvalue with }, hcontent.relink hlink hall.2⟩
  | responses =>
      rw [Part.isEntry_responses_iff] at h ⊢
      obtain ⟨link, rfl, hterms⟩ | ⟨value, content, rfl, hvalue, hcontent⟩ := h
      · exact .inl ⟨link, rfl, hlink _ _ (Part.all_walk_reference_iff.mp hall) hterms⟩
      · rw [Part.all_walk_response_iff] at hall
        exact .inr ⟨value, content, rfl, hvalue, hcontent.relink hlink hall.2⟩

theorem Endpoint.Fits.relink {endpoint : Endpoint} (h : endpoint.Fits terms) {path : String}
    (hall : Walk.All holds (endpoint.walk path)) : endpoint.Fits (terms.withLink link') := by
  obtain ⟨-, hparameters, hbody, hresponses⟩ := Endpoint.all_walk_iff.mp hall
  refine
    { operation := { h.operation with }
      parameters := fun part hpart => ?_
      body := fun part hpart => (h.body part hpart).relink hlink (hbody part hpart)
      distinct := h.distinct
      statuses := h.statuses
      responses := fun entry hentry => (h.responses entry hentry).relink hlink (hresponses entry hentry) }
  obtain ⟨index, hindex⟩ := List.mem_iff_getElem?.mp hpart
  exact (h.parameters part hpart).relink hlink
    (hparameters _ (List.mk_mem_zipIdx_iff_getElem?.mpr hindex))

/-- What holds of all references that a walk meets belongs to the form of the model. -/
theorem Model.Fits.relink {model : Model} (h : model.Fits terms) (hall : Walk.All holds model.walk) :
    model.Fits (terms.withLink link') := by
  rw [Model.all_walk_iff, Components.all_walk_iff] at hall
  obtain ⟨-, -, -, hendpoints, hentries, -⟩ := hall
  exact
    { info := h.info.withLink
      servers := fun part hpart => (h.servers part hpart).imp fun _ => .imp_right Server.Fits.withLink
      tags := fun entry hentry => (h.tags entry hentry).imp fun _ =>
        .imp_right (.imp_left ApiTag.Fits.withLink)
      endpoints := fun entry hentry found hfound =>
        ⟨(h.endpoints entry hentry found hfound).1.relink hlink (hendpoints entry hentry found hfound),
          (h.endpoints entry hentry found hfound).2⟩
      distinctMethods := h.distinctMethods
      distinctPaths := h.distinctPaths
      distinctTags := h.distinctTags
      components :=
        { distinct := h.components.distinct
          named := h.components.named
          entries := fun collection entry hentry =>
            (h.components.entries collection entry hentry).relink hlink (hentries collection entry hentry)
          schemes := fun entry hentry => (h.components.schemes entry hentry).imp fun _ =>
            .imp_right SecurityScheme.Fits.withLink
          distinctSchemes := h.components.distinctSchemes
          namedSchemes := h.components.namedSchemes } }

end Relinking

section Throughout

variable {holds : Part → Prop}

/-- A part and all parts that a walk meets in it have a property. -/
def Part.Throughout (holds : Part → Prop) (part : Part) : Prop :=
  ∃ path, Walk.All holds (part.walk path)

theorem Part.throughout_schema {facets : Facets} {properties : Registry} {items : Option Part}
    (h : (Part.schema facets properties items).Throughout holds) :
    holds (.schema facets properties items) ∧ (∀ entry ∈ properties, entry.2.Throughout holds) ∧
      ∀ part ∈ items, part.Throughout holds := by
  obtain ⟨path, hwalk⟩ := h
  obtain ⟨hself, hproperties, hitems⟩ := Part.all_walk_schema_iff.mp hwalk
  exact ⟨hself, fun entry hentry => ⟨_, hproperties entry hentry⟩,
    fun part hpart => ⟨_, hitems part hpart⟩⟩

theorem Part.throughout_parameter {value : Parameter} {inner : Option Part}
    (h : (Part.parameter value inner).Throughout holds) :
    holds (.parameter value inner) ∧ ∀ part ∈ inner, part.Throughout holds := by
  obtain ⟨path, hwalk⟩ := h
  obtain ⟨hself, hinner⟩ := Part.all_walk_parameter_iff.mp hwalk
  exact ⟨hself, fun part hpart => ⟨_, hinner part hpart⟩⟩

/-- The schemas in content. -/
theorem Part.throughout_content {path : String} {content : Registry}
    (h : ∀ entry ∈ content,
      Walk.All holds (entry.2.walkMedia (path ++ ".content." ++ entry.1.display)))
    {type sample : Datum} {inner : Option Part} (hmem : (type, .mediaType sample inner) ∈ content) :
    ∀ part ∈ inner, part.Throughout holds := by
  have hmedia := (Part.all_walkMedia_iff.mp (h _ hmem)).2
  exact fun part hpart => ⟨_, hmedia part hpart⟩

theorem Part.throughout_requestBody {value : RequestBody} {content : Registry}
    (h : (Part.requestBody value content).Throughout holds) {type sample : Datum}
    {inner : Option Part} (hmem : (type, .mediaType sample inner) ∈ content) :
    ∀ part ∈ inner, part.Throughout holds := by
  obtain ⟨path, hwalk⟩ := h
  exact Part.throughout_content (Part.all_walk_requestBody_iff.mp hwalk).2 hmem

theorem Part.throughout_response {value : Response} {content : Registry}
    (h : (Part.response value content).Throughout holds) {type sample : Datum}
    {inner : Option Part} (hmem : (type, .mediaType sample inner) ∈ content) :
    ∀ part ∈ inner, part.Throughout holds := by
  obtain ⟨path, hwalk⟩ := h
  exact Part.throughout_content (Part.all_walk_response_iff.mp hwalk).2 hmem

/-- A property of an operation and of the parts that stand in it. -/
structure Endpoint.Throughout (holds : Part → Prop) (endpoint : Endpoint) : Prop where
  self : holds endpoint.part
  parameters : ∀ part ∈ endpoint.parameters, part.Throughout holds
  body : ∀ part ∈ endpoint.body, part.Throughout holds
  responses : ∀ entry ∈ endpoint.responses, entry.2.Throughout holds

theorem Endpoint.throughout_of_walk {endpoint : Endpoint} {path : String}
    (h : Walk.All holds (endpoint.walk path)) : endpoint.Throughout holds := by
  obtain ⟨hself, hparameters, hbody, hresponses⟩ := Endpoint.all_walk_iff.mp h
  refine
    { self := hself
      parameters := fun part hpart => ?_
      body := fun part hpart => ⟨_, hbody part hpart⟩
      responses := fun entry hentry => ⟨_, hresponses entry hentry⟩ }
  obtain ⟨index, hindex⟩ := List.mem_iff_getElem?.mp hpart
  exact ⟨_, hparameters _ (List.mk_mem_zipIdx_iff_getElem?.mpr hindex)⟩

theorem Model.throughout_of_mem_entries {model : Model} (h : Walk.All holds model.walk)
    {place : Collection} {entry : Datum × Part} (hentry : entry ∈ model.components.entries place) :
    entry.2.Throughout holds := by
  rw [Model.all_walk_iff, Components.all_walk_iff] at h
  exact ⟨_, h.2.2.2.2.1 place entry hentry⟩

end Throughout

end DocCompiler
