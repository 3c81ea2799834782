import DocCompiler.Proofs.Document.Count
import DocCompiler.Proofs.Document.Walk

/-!
Places that the walk of a model comes to. What a part of a document shows, the document shows.
-/

namespace DocCompiler

/-- A walk comes to a part that stands at a place. -/
def Walk.Shows (place : Location) (walk : Walk) : Prop :=
  ∃ path part, .ok (path, part) ∈ walk ∧ part.place = some place

/-- A part, or one nested in it, stands at a place. -/
def Part.Shows (place : Location) (part : Part) : Prop :=
  ∀ path, Walk.Shows place (part.walk path)

/-- A part of an operation stands at a place. -/
def Endpoint.Shows (place : Location) (endpoint : Endpoint) : Prop :=
  ∀ path, Walk.Shows place (endpoint.walk path)

/-- What is held of a kind shows a place. -/
def EntryKind.Shows (place : Location) : EntryKind → Part → Prop
  | .operation, part => ∃ endpoint : Endpoint, part = endpoint.part ∧ endpoint.Shows place
  | .component _, part => part.Shows place
  | _, _ => False

/-- Something that a model holds shows a place. -/
def Model.Displays (model : Model) (place : Location) : Prop :=
  ∃ kind, ∃ entry ∈ model.holdings kind, kind.Shows place entry.2

variable {place : Location} {path : String}

theorem Walk.Shows.mono {walk longer : Walk} (h : walk.Shows place) (hsubset : walk ⊆ longer) :
    longer.Shows place := by
  obtain ⟨path, part, hpart, hplace⟩ := h
  exact ⟨path, part, hsubset hpart, hplace⟩

section Parts

variable {facets : Facets} {properties content : Registry} {items inner : Option Part}
  {part : Part} {name : Datum}

theorem Part.shows_of_place (h : part.place = some place) : part.Shows place := by
  intro path
  refine ⟨path, part, ?_, h⟩
  cases part <;> exact List.mem_cons_self

theorem Part.mem_walkProperties_iff {step : Except ShapeError (String × Part)} :
    step ∈ Part.walkProperties path properties ↔
      ∃ entry ∈ properties, step ∈ entry.2.walk (path ++ ".properties." ++ entry.1.display) := by
  induction properties with
  | nil => exact ⟨nofun, nofun⟩
  | cons entry rest ih => rw [Part.walkProperties_cons, List.mem_append, ih, List.exists_mem_cons_iff]

theorem Part.mem_walkContent_iff {step : Except ShapeError (String × Part)} :
    step ∈ Part.walkContent path content ↔
      ∃ entry ∈ content, step ∈ entry.2.walkMedia (path ++ ".content." ++ entry.1.display) := by
  induction content with
  | nil => exact ⟨nofun, nofun⟩
  | cons entry rest ih => rw [Part.walkContent_cons, List.mem_append, ih, List.exists_mem_cons_iff]

theorem Part.Shows.schema_property (h : part.Shows place) (hpart : (name, part) ∈ properties) :
    (Part.schema facets properties items).Shows place := by
  intro path
  refine (h (path ++ ".properties." ++ name.display)).mono fun step hstep => ?_
  have hmem : step ∈ Part.walkProperties path properties :=
    Part.mem_walkProperties_iff.mpr ⟨_, hpart, hstep⟩
  exact List.mem_cons_of_mem _ (List.mem_append_left _ hmem)

theorem Part.Shows.schema_items (h : part.Shows place) :
    (Part.schema facets properties (some part)).Shows place := by
  intro path
  refine (h (path ++ ".items")).mono fun step hstep => ?_
  exact List.mem_cons_of_mem _ (List.mem_append_right _ hstep)

theorem Part.Shows.parameter_schema {value : Parameter} (h : part.Shows place) :
    (Part.parameter value (some part)).Shows place := by
  intro path
  refine (h (path ++ ".schema")).mono fun step hstep => ?_
  exact List.mem_cons_of_mem _ hstep

theorem Part.Shows.content_schema {sample : Datum} (h : part.Shows place)
    (hmedia : (name, Part.mediaType sample (some part)) ∈ content) :
    Walk.Shows place (Part.walkContent path content) := by
  refine (h (path ++ ".content." ++ name.display ++ ".schema")).mono fun step hstep => ?_
  exact Part.mem_walkContent_iff.mpr ⟨_, hmedia, List.mem_cons_of_mem _ hstep⟩

theorem Part.shows_requestBody {value : RequestBody}
    (h : ∀ path, Walk.Shows place (Part.walkContent path content)) :
    (Part.requestBody value content).Shows place := by
  intro path
  exact (h path).mono fun step hstep => List.mem_cons_of_mem _ hstep

theorem Part.shows_response {value : Response}
    (h : ∀ path, Walk.Shows place (Part.walkContent path content)) :
    (Part.response value content).Shows place := by
  intro path
  exact (h path).mono fun step hstep => List.mem_cons_of_mem _ hstep

/-- A schema with other facets but the same place, and with more properties, shows no less. -/
theorem Part.Shows.of_schema {changed : Facets} {more : Registry}
    (h : (Part.schema facets properties items).Shows place) (hplace : changed.place = facets.place)
    (hmore : properties ⊆ more) : (Part.schema changed more items).Shows place := by
  intro path
  obtain ⟨found, part, hpart, hfound⟩ := h path
  rw [Part.walk_schema, List.mem_cons, List.mem_append, Part.mem_walkProperties_iff] at hpart
  rcases hpart with hself | ⟨entry, hentry, hstep⟩ | hitems
  · obtain ⟨rfl, rfl⟩ := Prod.mk.inj (Except.ok.inj hself)
    have hself : (Part.schema changed more items).place = some place := hplace.trans hfound
    exact Part.shows_of_place hself found
  · refine ⟨found, part, ?_, hfound⟩
    have hmem : Except.ok (found, part) ∈ Part.walkProperties path more :=
      Part.mem_walkProperties_iff.mpr ⟨entry, hmore hentry, hstep⟩
    exact List.mem_cons_of_mem _ (List.mem_append_left _ hmem)
  · exact ⟨found, part, List.mem_cons_of_mem _ (List.mem_append_right _ hitems), hfound⟩

end Parts

section Endpoints

variable {endpoint : Endpoint} {part : Part}

theorem Part.Shows.endpoint_parameter (h : part.Shows place) (hpart : part ∈ endpoint.parameters) :
    endpoint.Shows place := by
  intro path
  rw [← List.zipIdx_map_fst 0 endpoint.parameters] at hpart
  obtain ⟨⟨found, index⟩, hfound, rfl⟩ := List.mem_map.mp hpart
  refine (h (path ++ ".parameters[" ++ toString index ++ "]")).mono fun step hstep => ?_
  refine List.mem_cons_of_mem _ (List.mem_append_left _ (List.mem_append_left _ ?_))
  exact List.mem_flatMap.mpr ⟨_, hfound, hstep⟩

theorem Part.Shows.endpoint_body (h : part.Shows place) (hpart : endpoint.body = some part) :
    endpoint.Shows place := by
  intro path
  refine (h (path ++ ".requestBody")).mono fun step hstep => ?_
  refine List.mem_cons_of_mem _ (List.mem_append_left _ (List.mem_append_right _ ?_))
  simpa [hpart, Part.walkSchema] using hstep

theorem Part.Shows.endpoint_response {status : Datum} (h : part.Shows place)
    (hpart : (status, part) ∈ endpoint.responses) : endpoint.Shows place := by
  intro path
  refine (h (path ++ ".responses." ++ status.display)).mono fun step hstep => ?_
  refine List.mem_cons_of_mem _ (List.mem_append_right _ ?_)
  exact List.mem_flatMap.mpr ⟨_, hpart, hstep⟩

theorem Endpoint.part_injective {first second : Endpoint} (h : first.part = second.part) :
    first = second := by
  cases first
  cases second
  simpa [Endpoint.part] using h

/-- What a model displays, its walk comes to. -/
theorem Model.Displays.walk {model : Model} (h : model.Displays place) : model.walk.Shows place := by
  obtain ⟨kind, entry, hentry, h⟩ := h
  cases kind with
  | operation =>
      obtain ⟨endpoint, hpart, hshows⟩ := h
      obtain ⟨⟨route, methods⟩, hroute, hfound⟩ := List.mem_flatMap.mp hentry
      obtain ⟨⟨method, found⟩, hmethod, rfl⟩ := List.mem_map.mp hfound
      obtain rfl := Endpoint.part_injective hpart
      refine (hshows ("paths." ++ route ++ "." ++ method.display)).mono fun step hstep => ?_
      refine List.mem_append_left _ (List.mem_append_right _ ?_)
      exact List.mem_flatMap.mpr ⟨_, hroute, List.mem_flatMap.mpr ⟨_, hmethod, hstep⟩⟩
  | component collection =>
      obtain ⟨⟨name, part⟩, hpart, rfl⟩ := List.mem_map.mp hentry
      refine (h ("components." ++ collection.name ++ "." ++ name.display)).mono fun step hstep => ?_
      refine List.mem_append_right _ (List.mem_append_left _ ?_)
      have hcollection : collection ∈ Collection.all := by cases collection <;> decide
      exact List.mem_flatMap.mpr ⟨collection, hcollection, List.mem_flatMap.mpr ⟨_, hpart, hstep⟩⟩
  | _ => exact h.elim

/-- A schema that gains a property shows no less. -/
theorem Part.GainsProperty.shows {later : Part} (h : part.GainsProperty later)
    (hshows : part.Shows place) : later.Shows place := by
  obtain ⟨facets, properties, items, name, property, rfl, hnew, rfl⟩ := h
  refine hshows.of_schema ?_ fun entry hentry => ?_
  · split <;> rfl
  · rw [Datum.insertEntry_of_lookup_eq_none hnew]
    exact List.mem_append_left _ hentry

end Endpoints

end DocCompiler
