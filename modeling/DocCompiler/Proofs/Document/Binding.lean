import DocCompiler.Proofs.Document.Resolution
import DocCompiler.Proofs.Document.SchemaGraph

/-!
The references that a walk meets, in its order, before and after they are bound and marked: each stays
where it is and keeps the name that it gives.
-/

namespace DocCompiler

/-- The references that a walk meets, with their paths. -/
def Walk.references (walk : Walk) : List (String × Reference) :=
  walk.filterMap fun
    | .ok (path, .reference link) => some (path, link)
    | _ => none

namespace Walk

theorem references_append (first second : Walk) :
    Walk.references (first ++ second) = Walk.references first ++ Walk.references second :=
  List.filterMap_append

theorem references_flatMap {α : Type} (items : List α) (walk : α → Walk) :
    Walk.references (items.flatMap walk) = items.flatMap fun item => (walk item).references :=
  List.filterMap_flatMap

theorem references_eq_nil {walk : Walk} (h : walk.All fun part => ∀ link, part ≠ .reference link) :
    walk.references = [] := by
  refine List.filterMap_eq_nil_iff.mpr fun step hstep => ?_
  obtain ⟨path, part, rfl, hpart⟩ := h step hstep
  cases part with
  | reference link => exact absurd rfl (hpart link)
  | _ => rfl

/-- The parts of a walk without obstacles have the references that the walk meets. -/
theorem references_of_mapM {walk : Walk} {parts : Parts} (h : walk.mapM id = .ok parts) :
    parts.references = walk.references := by
  have hwalk : walk = parts.map .ok := by
    have hsteps := Result.mapM_eq_ok_iff.mp h
    rw [← List.forall₂_eq_eq_eq, List.forall₂_map_right_iff]
    exact hsteps
  rw [hwalk, Walk.references, List.filterMap_map, Parts.references]
  refine List.filterMap_congr fun entry _ => ?_
  rcases entry with ⟨path, part⟩
  cases part <;> rfl

end Walk

section Replacing

variable (f : Reference → Reference)

mutual

/-- A walk meets the references that have been put in place of others where it met these. -/
theorem Part.references_walk : (part : Part) → (path : String) →
    (Part.walk path (part.mapReferences (m := Id) f)).references =
      (part.walk path).references.map (Prod.map id f)
  | .reference _, _ => rfl
  | .schema facets properties items, path => by
      have hproperties := Part.references_walkProperties properties path
      have hitems := Part.references_walkSchema items (path ++ ".items")
      calc Walk.references (Part.walk path (Part.mapReferences (m := Id) f
            (.schema facets properties items)))
          = Walk.references (Part.walkProperties path (Part.mapProperties (m := Id) f properties) ++
              Part.walkSchema (path ++ ".items") (Part.mapSchema (m := Id) f items)) := rfl
        _ = (Walk.references (Part.walkProperties path properties ++
              Part.walkSchema (path ++ ".items") items)).map (Prod.map id f) := by
            rw [Walk.references_append, Walk.references_append, List.map_append, ← hproperties,
              ← hitems]
  | .parameter _ inner, path => Part.references_walkSchema inner (path ++ ".schema")
  | .requestBody _ content, path | .response _ content, path =>
      Part.references_walkContent content path
  | .info .., _ | .contact _, _ | .license _, _ | .server _, _ | .tag _, _ | .operation .., _
  | .mediaType .., _ | .securityScheme _, _ => rfl

theorem Part.references_walkProperties : (properties : Registry) → (path : String) →
    (Part.walkProperties path (Part.mapProperties (m := Id) f properties)).references =
      (Part.walkProperties path properties).references.map (Prod.map id f)
  | [], _ => rfl
  | (name, part) :: rest, path => by
      have hpart := Part.references_walk part (path ++ ".properties." ++ name.display)
      have hrest := Part.references_walkProperties rest path
      change Walk.references (_ ++ _) = (Walk.references (_ ++ _)).map (Prod.map id f)
      rw [Walk.references_append, Walk.references_append, List.map_append, ← hpart, ← hrest]

theorem Part.references_walkSchema : (found : Option Part) → (path : String) →
    (Part.walkSchema path (Part.mapSchema (m := Id) f found)).references =
      (Part.walkSchema path found).references.map (Prod.map id f)
  | none, _ => rfl
  | some part, path => Part.references_walk part path

theorem Part.references_walkContent : (content : Registry) → (path : String) →
    (Part.walkContent path (Part.mapContent (m := Id) f content)).references =
      (Part.walkContent path content).references.map (Prod.map id f)
  | [], _ => rfl
  | (type, media) :: rest, path => by
      have hmedia := Part.references_walkMedia media (path ++ ".content." ++ type.display)
      have hrest := Part.references_walkContent rest path
      change Walk.references (_ ++ _) = (Walk.references (_ ++ _)).map (Prod.map id f)
      rw [Walk.references_append, Walk.references_append, List.map_append, ← hmedia, ← hrest]

theorem Part.references_walkMedia : (media : Part) → (path : String) →
    (Part.walkMedia path (Part.mapMedia (m := Id) f media)).references =
      (Part.walkMedia path media).references.map (Prod.map id f)
  | .mediaType _ inner, path | .parameter _ inner, path =>
      Part.references_walkSchema inner (path ++ ".schema")
  | .reference _, _ | .schema .., _ | .requestBody .., _ | .response .., _ | .info .., _
  | .contact _, _ | .license _, _ | .server _, _ | .tag _, _ | .operation .., _
  | .securityScheme _, _ => rfl

end

theorem Endpoint.references_walk (endpoint : Endpoint) (path : String) :
    (Endpoint.walk path (endpoint.mapReferences (m := Id) f)).references =
      (endpoint.walk path).references.map (Prod.map id f) := by
  have hpart (found : Endpoint) (rest : Walk) :
      Walk.references (.ok (path, found.part) :: rest) = rest.references := rfl
  have hbody := Part.references_walkSchema f endpoint.body (path ++ ".requestBody")
  rw [Part.mapSchema_id] at hbody
  rw [Endpoint.mapReferences_id]
  simp only [Endpoint.walk, hpart, Walk.references_append, Walk.references_flatMap, List.map_append,
    List.map_flatMap, List.zipIdx_map, List.flatMap_map, Part.mapRegistry, Part.references_walk, hbody,
    Prod.map, id]

/-- The references that a walk meets among the components of a collection. -/
def Components.referencesIn (collection : Collection) (entries : Registry) :
    List (String × Reference) :=
  entries.flatMap fun entry =>
    (entry.2.walk ("components." ++ collection.name ++ "." ++ entry.1.display)).references

theorem Components.referencesIn_mapRegistry (collection : Collection) (entries : Registry) :
    Components.referencesIn collection (Part.mapRegistry f entries) =
      (Components.referencesIn collection entries).map (Prod.map id f) := by
  simp only [referencesIn, Part.mapRegistry, List.flatMap_map, List.map_flatMap,
    Part.references_walk]

end Replacing

section Models

variable {terms : Terms}

/-- The references that a walk meets in operations. -/
def Model.operationReferences (model : Model) : List (String × Reference) :=
  model.paths.flatMap fun entry => entry.2.flatMap fun found =>
    (found.2.walk ("paths." ++ entry.1 ++ "." ++ found.1.display)).references

/-- The walk of a model in form meets references in operations and in components alone. -/
theorem Model.Fits.references_walk {model : Model} (h : model.Fits terms) :
    model.walk.references = model.operationReferences ++
      Collection.all.flatMap fun collection =>
        Components.referencesIn collection (model.components.entries collection) := by
  have hinfo : model.walkInfo.references = [] := by
    have hpart := h.info
    cases hcase : model.info with
    | info value person conditions =>
        rw [hcase] at hpart
        refine Walk.references_eq_nil ((Model.all_walkInfo_iff hcase).mpr ⟨nofun, ?_, ?_⟩)
        · intro part hmem
          obtain ⟨contact, rfl, -⟩ := hpart.2.1 part hmem
          nofun
        · intro part hmem
          obtain ⟨license, rfl, -⟩ := hpart.2.2 part hmem
          nofun
    | _ =>
        rw [hcase] at hpart
        exact hpart.elim
  have hservers : Walk.references (model.servers.zipIdx.map fun found =>
      .ok ("servers[" ++ toString found.2 ++ "]", found.1)) = [] := by
    refine Walk.references_eq_nil (Walk.all_map_ok.mpr fun found hfound => ?_)
    obtain ⟨server, hserver, -⟩ := h.servers _ (List.fst_mem_of_mem_zipIdx hfound)
    rw [hserver]
    nofun
  have htags : Walk.references (model.tags.map fun entry => .ok ("tags." ++ entry.1, entry.2)) = [] := by
    refine Walk.references_eq_nil (Walk.all_map_ok.mpr fun entry hentry => ?_)
    obtain ⟨tag, htag, -⟩ := h.tags entry hentry
    rw [htag]
    nofun
  have hschemes : Walk.references (model.components.securitySchemes.map fun entry =>
      .ok ("components.securitySchemes." ++ entry.1.display, entry.2)) = [] := by
    refine Walk.references_eq_nil (Walk.all_map_ok.mpr fun entry hentry => ?_)
    obtain ⟨scheme, hscheme, -⟩ := h.components.schemes entry hentry
    rw [hscheme]
    nofun
  simp only [Model.walk, Components.walk, Components.walkEntries, Walk.references_append,
    Walk.references_flatMap, hinfo, hservers, htags, hschemes, List.nil_append, List.append_nil,
    Model.operationReferences, Components.referencesIn]

/-- Replacing the references of a model replaces those that its walk meets. -/
theorem Model.Fits.references_mapReferences {model : Model} (h : model.Fits terms)
    {f : Reference → Reference} {replaced : Model}
    (hreplaced : model.mapReferences (m := Id) f = replaced) {terms' : Terms}
    (hfits : replaced.Fits terms') :
    replaced.walk.references = model.walk.references.map (Prod.map id f) := by
  rw [hfits.references_walk, h.references_walk, ← hreplaced, h.mapReferences_id f]
  simp only [Model.operationReferences, Components.entries_mapReferences,
    Components.referencesIn_mapRegistry, List.flatMap_map, Endpoint.references_walk, List.map_append,
    List.map_flatMap]

end Models

section Marking

/-- Components that are the same up to marks. -/
def Components.SameUnmarked (first second : Components) : Prop :=
  ∀ collection, (first.entries collection).map (fun entry => (entry.1, entry.2.unmarked)) =
    (second.entries collection).map fun entry => (entry.1, entry.2.unmarked)

namespace CycleSearch

variable {visit : ComponentKey → CycleSearch → CycleSearch}
  (hvisit : ∀ key search, (visit key search).components.SameUnmarked search.components)

include hvisit

theorem unmarked_follow (link : Reference) (search : CycleSearch) :
    (Part.reference (follow visit link search).1).unmarked = (Part.reference link).unmarked ∧
      (follow visit link search).2.components.SameUnmarked search.components := by
  unfold follow
  split
  · exact ⟨rfl, fun _ => rfl⟩
  · split
    · exact ⟨rfl, fun _ => rfl⟩
    · exact ⟨rfl, hvisit _ search⟩

omit hvisit in
theorem unmarked_markProperties {properties : Registry}
    (hproperties : ∀ entry ∈ properties, ∀ search,
      (mark visit entry.2 search).1.unmarked = entry.2.unmarked ∧
        (mark visit entry.2 search).2.components.SameUnmarked search.components)
    (search : CycleSearch) :
    (markProperties visit properties search).1.map (fun entry => (entry.1, entry.2.unmarked)) =
        properties.map (fun entry => (entry.1, entry.2.unmarked)) ∧
      (markProperties visit properties search).2.components.SameUnmarked search.components := by
  induction properties generalizing search with
  | nil => exact ⟨rfl, fun _ => rfl⟩
  | cons entry rest ih =>
      rcases entry with ⟨name, part⟩
      obtain ⟨hfirst, hrest⟩ := List.forall_mem_cons.mp hproperties
      obtain ⟨hpart, hbetween⟩ := hfirst search
      obtain ⟨hothers, hafter⟩ := ih hrest (mark visit part search).2
      refine ⟨?_, fun collection => (hafter collection).trans (hbetween collection)⟩
      rw [markProperties, List.map_cons, List.map_cons, hothers, hpart]

/-- Marking a part changes nothing but marks. -/
theorem unmarked_mark (part : Part) (search : CycleSearch) :
    (mark visit part search).1.unmarked = part.unmarked ∧
      (mark visit part search).2.components.SameUnmarked search.components := by
  induction part using Part.schema_induction generalizing search with
  | reference link => exact unmarked_follow hvisit link search
  | schema facets properties items hproperties hitems =>
      obtain ⟨hnames, hbetween⟩ := unmarked_markProperties hproperties search
      cases items with
      | none =>
          refine ⟨?_, hbetween⟩
          rw [mark, Part.unmarked_schema, Part.unmarked_schema, hnames]
          rfl
      | some inner =>
          obtain ⟨hinner, hafter⟩ := hitems inner rfl (markProperties visit properties search).2
          refine ⟨?_, fun collection => (hafter collection).trans (hbetween collection)⟩
          rw [mark, Part.unmarked_schema, Part.unmarked_schema, hnames]
          simp only [markItems, Option.map_some, hinner]
  | other part hreference hschema =>
      have hmark : mark visit part search = (part, search) := by
        cases part with
        | reference link => exact absurd rfl (hreference link)
        | schema facets properties items => exact absurd rfl (hschema facets properties items)
        | _ => rfl
      rw [hmark]
      exact ⟨rfl, fun _ => rfl⟩

omit hvisit in
/-- Going through a component changes nothing but marks. -/
theorem sameUnmarked_visit (fuel : Nat) (key : ComponentKey) (search : CycleSearch) :
    (CycleSearch.visit fuel key search).components.SameUnmarked search.components := by
  induction fuel generalizing key search with
  | zero => exact fun _ => rfl
  | succ fuel ih =>
      rw [CycleSearch.visit]
      split
      · exact fun _ => rfl
      · split
        · exact fun _ => rfl
        · rename_i part hfound
          obtain ⟨hpart, hafter⟩ :=
            unmarked_mark ih part { search with inside := key :: search.inside }
          intro collection
          rw [← hafter collection, Components.entries_put]
          split_ifs with hcollection
          · subst hcollection
            have hlookup := congrArg (Datum.lookup key.2) (hafter key.1)
            rw [Datum.lookup_map, Datum.lookup_map, show Datum.lookup key.2
              (search.components.entries key.1) = some part from hfound] at hlookup
            obtain ⟨old, hold, hsame⟩ := Option.map_eq_some_iff.mp hlookup
            exact Datum.map_insertEntry_of_lookup hold (hpart.trans hsame.symm)
          · rfl

end CycleSearch

/-- Marking the references that close cycles changes nothing but marks. -/
theorem Components.sameUnmarked_markCycles (components : Components) :
    components.markCycles.SameUnmarked components := by
  have hfold : ∀ (names : Registry) (search : CycleSearch),
      Components.SameUnmarked (names.foldl (fun search entry =>
        CycleSearch.visit (components.size + 1) (.schemas, entry.1) search) search).components
          search.components := by
    intro names
    induction names with
    | nil => exact fun _ _ => rfl
    | cons entry rest ih =>
        intro search collection
        exact (ih _ collection).trans (CycleSearch.sameUnmarked_visit _ _ search collection)
  exact hfold components.schemas { components }

end Marking

end DocCompiler
