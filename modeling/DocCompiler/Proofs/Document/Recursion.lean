import DocCompiler.Proofs.Build.Document
import DocCompiler.Proofs.Document.Consistency
import DocCompiler.Proofs.Document.Search

/-!
References marked as recursive cut exactly the cycles of schemas: without them no schema leads back to
itself, and each of them stands on a cycle.
-/

namespace DocCompiler

/-- A model as it is before its references are bound: its schemas stand under texts, and the references
in schemas name other schemas, are not bound, and are not marked as recursive. -/
structure Model.Unresolved (model : Model) : Prop where
  named : ∀ entry ∈ model.components.schemas, ∃ points, entry.1 = .ofCodes points
  expected : ∀ entry ∈ model.components.schemas, ∀ link ∈ entry.2.links,
    link.expected = .text Collection.schemas.name
  unbound : ∀ entry ∈ model.components.schemas, ∀ link ∈ entry.2.links, link.binding = .unbound
  unmarked : ∀ entry ∈ model.components.schemas, ∀ link ∈ entry.2.links, link.recursive = .bool false
  held : ∀ part ∈ model.heldSchemas, ∀ link ∈ part.links, link.recursive = .bool false

section Fitting

variable {terms : Terms}

theorem Part.IsSchema.link_of_mem_links {part : Part} (h : part.IsSchema terms) :
    ∀ link ∈ part.links, terms.link .schemas link := by
  refine h.induction (motive := fun part => ∀ link ∈ part.links, terms.link .schemas link) ?_ ?_
  · simp
  intro facets properties items _ _ hproperties hitems link hlink
  rcases Part.mem_links_schema.mp hlink with ⟨entry, hentry, hmem⟩ | ⟨inner, hinner, hmem⟩
  · exact (hproperties entry hentry).2.2 link hmem
  · exact (hitems inner hinner).2 link hmem

theorem IsContent.isSchema_of_mem {content : Registry} (h : IsContent terms content) :
    ∀ inner ∈ content.flatMap fun entry => entry.2.mediaSchemas, inner.IsSchema terms := by
  intro inner hinner
  obtain ⟨entry, hentry, hmem⟩ := List.mem_flatMap.mp hinner
  obtain ⟨sample, found, hmedia, hfound⟩ := Part.isMedia_iff.mp (h.media entry hentry)
  rw [hmedia] at hmem
  exact hfound inner (Option.mem_toList.mp hmem)

theorem Part.IsEntry.isSchema_of_mem_heldSchemas {collection : Collection} {part : Part}
    (h : part.IsEntry terms collection) : ∀ inner ∈ part.heldSchemas, inner.IsSchema terms := by
  intro inner hinner
  cases part with
  | parameter value schema =>
      cases collection with
      | parameters => exact Part.isSchema?_iff.mp h.2 inner (Option.mem_toList.mp hinner)
      | _ => exact h.elim
  | requestBody value content =>
      cases collection with
      | requestBodies => exact h.2.isSchema_of_mem inner hinner
      | _ => exact h.elim
  | response value content =>
      cases collection with
      | responses => exact h.2.isSchema_of_mem inner hinner
      | _ => exact h.elim
  | _ => cases hinner

theorem Model.Fits.isSchema_of_mem_heldSchemas {model : Model} (h : model.Fits terms) :
    ∀ part ∈ model.heldSchemas, part.IsSchema terms := by
  intro part hpart
  rcases List.mem_append.mp hpart with hpart | hpart
  · obtain ⟨endpoint, hendpoint, hpart⟩ := List.mem_flatMap.mp hpart
    obtain ⟨methods, hmethods, hfound⟩ := List.mem_flatMap.mp hendpoint
    obtain ⟨entry, hentry, rfl⟩ := List.mem_map.mp hmethods
    obtain ⟨found, hmem, rfl⟩ := List.mem_map.mp hfound
    have hfits := (h.endpoints entry hentry found hmem).1
    simp only [Endpoint.heldSchemas, List.mem_append, List.mem_flatMap, Option.mem_toList] at hpart
    rcases hpart with (⟨outer, houter, hpart⟩ | ⟨outer, houter, hpart⟩) | ⟨outer, houter, hpart⟩
    · exact (hfits.parameters outer houter).isSchema_of_mem_heldSchemas part hpart
    · exact (hfits.body outer houter).isSchema_of_mem_heldSchemas part hpart
    · exact (hfits.responses outer houter).isSchema_of_mem_heldSchemas part hpart
  · obtain ⟨collection, -, hpart⟩ := List.mem_flatMap.mp hpart
    obtain ⟨entry, hentry, hpart⟩ := List.mem_flatMap.mp hpart
    exact (h.components.entries collection entry hentry).isSchema_of_mem_heldSchemas part hpart

theorem Model.Fits.unresolved {model : Model} (h : model.Fits Terms.typed) : model.Unresolved := by
  have hlinks {entry : Datum × Part} (hentry : entry ∈ model.components.schemas) :=
    (Part.isEntry_schemas_iff.mp (h.components.entries .schemas entry hentry)).link_of_mem_links
  exact
    { named := h.components.named .schemas
      expected := fun entry hentry link hlink => (hlinks hentry link hlink).expected
      unbound := fun entry hentry link hlink => (hlinks hentry link hlink).binding
      unmarked := fun entry hentry link hlink => (hlinks hentry link hlink).recursive
      held := fun part hpart link hlink =>
        ((h.isSchema_of_mem_heldSchemas part hpart).link_of_mem_links link hlink).recursive }

end Fitting

/-- The models that are resolved, those that units are built into, are such models. -/
theorem Build.unresolved_build {units : List Annotation.AnnotatedUnit}
    (h : ∀ unit ∈ units, unit.WellTyped) {context : Build.Context}
    (hbuild : Build.build units = .ok context) (overrides : Overrides) :
    (context.model.applyOverrides overrides).1.freeze.Unresolved := by
  have hsound : context.Sound Terms.typed [] := Build.sound_of_build (fun _ _ => id) h hbuild
  exact (hsound.fits.applyOverrides overrides).freeze.unresolved

section Replacing

variable (f : Reference → Reference)

theorem Part.links_mapReferences (part : Part) :
    Part.links (part.mapReferences (m := Id) f) = part.links.map f := by
  induction part using Part.schema_induction with
  | reference link => rfl
  | schema facets properties items hproperties hitems =>
      have hentries : ∀ registry : Registry,
          (∀ entry ∈ registry, Part.links (entry.2.mapReferences (m := Id) f) = entry.2.links.map f) →
            propertyLinks (mapRegistry f registry) = (propertyLinks registry).map f := by
        intro registry hregistry
        induction registry with
        | nil => rfl
        | cons entry rest ih =>
            obtain ⟨hfirst, hrest⟩ := List.forall_mem_cons.mp hregistry
            rw [mapRegistry, List.map_cons, propertyLinks, propertyLinks, List.map_append, hfirst,
              ← mapRegistry, ih hrest]
      have hinner : itemLinks (items.map (Part.mapReferences (m := Id) f)) = (itemLinks items).map f := by
        cases items with
        | none => rfl
        | some inner => exact hitems inner rfl
      change Part.links (.schema facets (mapProperties (m := Id) f properties)
        (mapSchema (m := Id) f items)) = _
      rw [mapProperties_id, mapSchema_id, links, links, hentries properties hproperties, hinner,
        List.map_append]
  | other part hreference hschema =>
      cases part with
      | reference link => exact absurd rfl (hreference link)
      | schema facets properties items => exact absurd rfl (hschema facets properties items)
      | _ => rfl

theorem Part.mediaSchemas_mapMedia (part : Part) :
    Part.mediaSchemas (part.mapMedia (m := Id) f) =
      part.mediaSchemas.map (Part.mapReferences (m := Id) f) := by
  cases part with
  | mediaType sample inner =>
      change (Part.mapSchema (m := Id) f inner).toList = _
      rw [Part.mapSchema_id]
      exact Option.toList_map ..
  | _ => rfl

theorem Part.heldSchemas_mapReferences (part : Part) :
    Part.heldSchemas (part.mapReferences (m := Id) f) =
      part.heldSchemas.map (Part.mapReferences (m := Id) f) := by
  have hcontent (content : Registry) :
      (mapContent (m := Id) f content).flatMap (fun entry => entry.2.mediaSchemas) =
        (content.flatMap fun entry => entry.2.mediaSchemas).map (Part.mapReferences (m := Id) f) := by
    rw [mapContent_id, List.flatMap_map, List.map_flatMap]
    exact List.flatMap_congr fun entry _ => Part.mediaSchemas_mapMedia f entry.2
  cases part with
  | parameter value inner =>
      change (Part.mapSchema (m := Id) f inner).toList = _
      rw [Part.mapSchema_id]
      exact Option.toList_map ..
  | requestBody value content => exact hcontent content
  | response value content => exact hcontent content
  | _ => rfl

theorem Endpoint.heldSchemas_mapReferences (endpoint : Endpoint) :
    Endpoint.heldSchemas (endpoint.mapReferences (m := Id) f) =
      endpoint.heldSchemas.map (Part.mapReferences (m := Id) f) := by
  rw [Endpoint.mapReferences_id]
  simp only [Endpoint.heldSchemas, Option.toList_map, Part.mapRegistry, List.flatMap_map,
    Part.heldSchemas_mapReferences, List.map_append, List.map_flatMap]

theorem Model.components_mapReferences (model : Model) :
    Model.components (model.mapReferences (m := Id) f) =
      model.components.mapReferences (m := Id) f :=
  rfl

theorem Model.endpoints_mapReferences (model : Model) :
    Model.endpoints (model.mapReferences (m := Id) f) =
      model.endpoints.map (Endpoint.mapReferences (m := Id) f) := by
  have hpaths : Model.paths (model.mapReferences (m := Id) f) = model.paths.map fun entry =>
      (entry.1, entry.2.map fun found => (found.1, found.2.mapReferences (m := Id) f)) := by
    have hmethods (methods : List (Datum × Endpoint)) :
        (methods.mapM (fun found => (found.1, found.2.mapReferences (m := Id) f) :
          Datum × Endpoint → Id (Datum × Endpoint)) : Id (List (Datum × Endpoint))) =
          methods.map fun found => (found.1, found.2.mapReferences (m := Id) f) :=
      mapM_id _ methods
    simp only [← hmethods]
    rw [← mapM_id]
    rfl
  simp only [Model.endpoints, hpaths, OrderedMap.values, List.map_map, List.flatMap_map,
    List.map_flatMap, Function.comp_def]

/-- Replacing references changes the schemas that stand elsewhere than among the components alike. -/
theorem Model.heldSchemas_mapReferences (model : Model) :
    Model.heldSchemas (model.mapReferences (m := Id) f) =
      model.heldSchemas.map (Part.mapReferences (m := Id) f) := by
  simp only [Model.heldSchemas, Model.endpoints_mapReferences, Model.components_mapReferences,
    Components.entries_mapReferences, Part.mapRegistry, List.flatMap_map,
    Endpoint.heldSchemas_mapReferences, Part.heldSchemas_mapReferences, List.map_append,
    List.map_flatMap]

end Replacing

/-- Parts that differ in marks alone refer to the same. -/
theorem Part.keys_of_unmarked_eq {part other : Part} (h : part.unmarked = other.unmarked) :
    part.links.map Reference.key? = other.links.map Reference.key? := by
  have hlinks := congrArg (fun found => (links found).map Reference.key?) h
  simp only [unmarked, links_mapReferences, List.map_map] at hlinks
  exact hlinks

namespace Reference

variable {components : Components} {link : Reference}

theorem recursive_bind (components : Components) (link : Reference) :
    (link.bind components).recursive = link.recursive := by
  unfold bind
  split <;> rfl

theorem exists_of_key?_bind (hunbound : link.binding = .unbound)
    (hexpected : link.expected = .text Collection.schemas.name) {key : ComponentKey}
    (hkey : (link.bind components).key? = some key) :
    key = (.schemas, link.name) ∧ (components.get? .schemas link.name).isSome = true := by
  unfold bind at hkey
  split at hkey
  · rename_i hmarked herror
    obtain ⟨collection, hcollection, hfits, -, hfound⟩ :=
      (error?_eq_ok_none_iff.mp herror).resolve_left (by simp [hmarked])
    obtain rfl : collection = .schemas :=
      Collection.name_injective (Datum.text.inj (hfits.symm.trans hexpected))
    rw [key?, if_pos rfl, hcollection, Collection.ofDatum?_name] at hkey
    exact ⟨(Option.some.inj hkey).symm, hfound⟩
  · rw [key?, hunbound, if_neg nofun] at hkey
    cases hkey

end Reference

namespace Model

variable {model : Model} {followed : Reference → Prop}

theorem schemas_bindReferences (model : Model) :
    model.bindReferences.components.schemas =
      Part.mapRegistry (fun link => link.bind model.components) model.components.schemas :=
  Components.entries_mapReferences _ model.components .schemas

/-- Binding the references of a model leaves its schemas ready to be searched. -/
theorem Unresolved.unsearched (h : model.Unresolved) :
    model.bindReferences.components.Unsearched := by
  have hentries {entry : Datum × Part} (hentry : entry ∈ model.bindReferences.components.schemas) :
      ∃ given ∈ model.components.schemas, given.1 = entry.1 ∧
        ∀ link ∈ entry.2.links, ∃ old ∈ given.2.links, old.bind model.components = link := by
    rw [schemas_bindReferences] at hentry
    obtain ⟨given, hgiven, rfl⟩ := List.mem_map.mp hentry
    refine ⟨given, hgiven, rfl, fun link hlink => ?_⟩
    rw [Part.links_mapReferences] at hlink
    exact List.mem_map.mp hlink
  refine ⟨fun entry hentry => ?_, fun entry hentry link hlink key hkey => ?_,
    fun entry hentry link hlink => ?_⟩
  · obtain ⟨given, hgiven, hname, -⟩ := hentries hentry
    exact hname ▸ h.named given hgiven
  · obtain ⟨given, hgiven, -, hlinks⟩ := hentries hentry
    obtain ⟨old, hold, rfl⟩ := hlinks link hlink
    obtain ⟨rfl, hfound⟩ := Reference.exists_of_key?_bind (h.unbound given hgiven old hold)
      (h.expected given hgiven old hold) hkey
    obtain ⟨part, hpart⟩ := Option.isSome_iff_exists.mp hfound
    obtain ⟨name, hsame, hmem⟩ := Datum.mem_of_lookup_eq_some hpart
    obtain rfl := (Datum.ofCodes_sameKey (h.named _ hmem)).mp hsame
    refine Components.mem_schemaKeys.mpr ⟨rfl, ?_⟩
    rw [schemas_bindReferences, Part.mapRegistry, List.map_map]
    exact List.mem_map_of_mem (f := (·.1)) hmem
  · obtain ⟨given, hgiven, -, hlinks⟩ := hentries hentry
    obtain ⟨old, hold, rfl⟩ := hlinks link hlink
    exact (Reference.recursive_bind ..).trans (h.unmarked given hgiven old hold)

theorem Unresolved.held_bindReferences (h : model.Unresolved) :
    ∀ part ∈ model.bindReferences.heldSchemas, ∀ link ∈ part.links, link.recursive = .bool false := by
  intro part hpart link hlink
  rw [bindReferences, heldSchemas_mapReferences] at hpart
  obtain ⟨given, hgiven, rfl⟩ := List.mem_map.mp hpart
  rw [Part.links_mapReferences] at hlink
  obtain ⟨old, hold, rfl⟩ := List.mem_map.mp hlink
  exact (Reference.recursive_bind ..).trans (h.held given hgiven old hold)

/-- A model whose components a search is through with, and in which nothing else is marked. -/
structure Searched (bound model : Model) (search : CycleSearch) : Prop where
  unsearched : bound.components.Unsearched
  sound : search.Sound bound.components
  components : model.components = search.components
  paths : model.paths = bound.paths
  done : ∀ key ∈ bound.components.schemaKeys, key ∈ search.done
  held : ∀ part ∈ bound.heldSchemas, ∀ link ∈ part.links, link.recursive = .bool false

namespace Searched

variable {bound : Model} {search : CycleSearch} (h : Searched bound model search)

include h

theorem heldSchemas_eq : model.heldSchemas = bound.heldSchemas := by
  have hrest := h.sound.rest
  rw [← h.components] at hrest
  have hothers (collection : Collection) (hother : collection ≠ .schemas) :
      model.components.entries collection = bound.components.entries collection := by
    rw [← hrest]
    cases collection with
    | schemas => exact absurd rfl hother
    | _ => rfl
  simp only [heldSchemas, endpoints, h.paths, List.flatMap_cons, List.flatMap_nil,
    hothers .parameters nofun, hothers .requestBodies nofun, hothers .responses nofun]

/-- The search has changed nothing but marks. -/
theorem schemaAt?_unmarked (node : SchemaNode) :
    (model.schemaAt? node).map Part.unmarked = (bound.schemaAt? node).map Part.unmarked := by
  rcases node with ⟨root, path⟩
  induction path with
  | nil =>
      cases root with
      | component name =>
          change (model.components.get? .schemas name).map _ = _
          rw [h.components]
          exact h.sound.get?_unmarked name
      | place index =>
          change (model.heldSchemas[index]?).map _ = _
          rw [h.heldSchemas_eq]
          rfl
  | cons step path ih =>
      have hinner (found : Option Part) :
          (found.bind (·.inner? step)).map Part.unmarked =
            (found.map Part.unmarked).bind (·.inner? step) := by
        cases found with
        | none => rfl
        | some part => exact (part.inner?_unmarked step).symm
      exact (hinner _).trans ((congrArg (·.bind (·.inner? step)) ih).trans (hinner _).symm)

theorem schemaAt?_component (name : Datum) :
    model.schemaAt? (.component name) = search.components.get? .schemas name :=
  congrArg (Components.get? · .schemas name) h.components

theorem mem_schemaKeys {name : Datum} (hname : (model.schemaAt? (.component name)).isSome) :
    (Collection.schemas, name) ∈ bound.components.schemaKeys := by
  rw [← Option.isSome_map (f := Part.unmarked), h.schemaAt?_unmarked, Option.isSome_map] at hname
  obtain ⟨part, hpart⟩ := Option.isSome_iff_exists.mp hname
  exact List.mem_map_of_mem (f := fun entry => (Collection.schemas, entry.1))
    (h.unsearched.mem_of_get? hpart)

/-- Without the marked references nothing leads on for ever from a component: the search was through
with what it refers to before. -/
theorem acc_component {name : Datum} (hname : (model.schemaAt? (.component name)).isSome) :
    Acc (flip (model.Follows fun link => link.recursive ≠ .bool true)) (.component name) := by
  have hsuffix : ∀ keys, keys <:+ search.done → ∀ name, (.schemas, name) ∈ keys →
      (model.schemaAt? (.component name)).isSome →
      Acc (flip (model.Follows fun link => link.recursive ≠ .bool true)) (.component name) := by
    -- The keys are in the order in which the search was through with them, so the induction is on it.
    intro keys
    induction keys with
    | nil => simp
    | cons key earlier ih =>
        intro hkeys name hmem hname
        have hearlier := ih ((List.suffix_cons key earlier).trans hkeys)
        rcases List.mem_cons.mp hmem with rfl | hmem
        · obtain ⟨part, hpart⟩ := Option.isSome_iff_exists.mp hname
          refine acc_of_links hpart fun link hlink hfollowed target hkey htarget => ?_
          have hcut := h.sound.closed _ _ hkeys part ((h.schemaAt?_component name).symm.trans hpart) link hlink
          exact hearlier target (hcut.followed hfollowed _ hkey) htarget
        · exact hearlier name hmem hname
  exact hsuffix _ List.suffix_rfl name (h.done _ (h.mem_schemaKeys hname)) hname

theorem acc (node : SchemaNode) :
    Acc (flip (model.Follows fun link => link.recursive ≠ .bool true)) node := by
  cases hpart : model.schemaAt? node with
  | none =>
      refine .intro _ fun next hnext => ?_
      have hsome := isSome_of_follows hnext
      rw [hpart] at hsome
      cases hsome
  | some part =>
      exact acc_of_links hpart fun _ _ _ _ _ htarget => h.acc_component htarget

theorem isSome_schemaAt? {key : ComponentKey} (hkey : key ∈ bound.components.schemaKeys) :
    (model.schemaAt? (.component key.2)).isSome := by
  have hfound := h.unsearched.isSome_get? hkey
  rw [(Components.mem_schemaKeys.mp hkey).1] at hfound
  rw [← Option.isSome_map (f := Part.unmarked), h.schemaAt?_unmarked, Option.isSome_map]
  exact hfound

theorem keys_links {name : Datum} {part whole : Part}
    (hpart : model.schemaAt? (.component name) = some part)
    (hwhole : bound.components.get? .schemas name = some whole) :
    part.links.map Reference.key? = whole.links.map Reference.key? := by
  have hfound : bound.schemaAt? (.component name) = some whole := hwhole
  have hsame := h.schemaAt?_unmarked (.component name)
  rw [hpart, hfound] at hsame
  exact Part.keys_of_unmarked_eq (Option.some.inj hsame)

theorem mem_schemaKeys_of_link {name : Datum} {part : Part}
    (hpart : model.schemaAt? (.component name) = some part) {link : Reference}
    (hlink : link ∈ part.links) {target : ComponentKey} (htarget : link.key? = some target) :
    target ∈ bound.components.schemaKeys := by
  have hfound := h.unsearched.isSome_get? (h.mem_schemaKeys (Option.isSome_of_eq_some hpart))
  obtain ⟨whole, hwhole⟩ := Option.isSome_iff_exists.mp hfound
  have hmem := List.mem_map_of_mem (f := Reference.key?) hlink
  rw [h.keys_links hpart hwhole] at hmem
  obtain ⟨old, hold, hkey⟩ := List.mem_map.mp hmem
  exact h.unsearched.targets _ (h.unsearched.mem_of_get? hwhole) old hold _ (hkey.trans htarget)

/-- A bound reference of a component, followed or not, leads to what it is bound to. -/
theorem follows_target {node : SchemaNode} {link : Reference} {target : ComponentKey}
    (hlink : model.schemaAt? node = some (.reference link)) (htarget : link.key? = some target)
    (hkey : target ∈ bound.components.schemaKeys) :
    model.Follows (fun _ => True) node (.component target.2) := by
  rw [show target = (.schemas, target.2) from
    Prod.ext (Components.mem_schemaKeys.mp hkey).1 rfl] at htarget
  exact .target hlink trivial htarget (h.isSome_schemaAt? hkey)

theorem reaches_of_refers {source target : ComponentKey}
    (hsource : source ∈ bound.components.schemaKeys) (hrefers : bound.components.Refers source target) :
    target ∈ bound.components.schemaKeys ∧
      Relation.ReflTransGen (model.Follows fun _ => True) (.component source.2)
        (.component target.2) := by
  obtain ⟨whole, hwhole, old, hold, holdkey⟩ := hrefers
  rw [(Components.mem_schemaKeys.mp hsource).1] at hwhole
  obtain ⟨part, hpart⟩ := Option.isSome_iff_exists.mp (h.isSome_schemaAt? hsource)
  have hmem := List.mem_map_of_mem (f := Reference.key?) hold
  rw [← h.keys_links hpart hwhole] at hmem
  obtain ⟨link, hlink, hkey⟩ := List.mem_map.mp hmem
  have htarget := h.mem_schemaKeys_of_link hpart hlink (hkey.trans holdkey)
  obtain ⟨node, hnode, hdown⟩ := reaches_link hpart hlink
  exact ⟨htarget, hdown.tail (h.follows_target hnode (hkey.trans holdkey) htarget)⟩

theorem reaches_of_reaches {source target : ComponentKey}
    (hsource : source ∈ bound.components.schemaKeys)
    (hreaches : Relation.ReflTransGen bound.components.Refers source target) :
    Relation.ReflTransGen (model.Follows fun _ => True) (.component source.2)
      (.component target.2) := by
  induction hreaches using Relation.ReflTransGen.head_induction_on with
  | refl => exact .refl
  | head hfirst _ ih =>
      obtain ⟨hnext, hstep⟩ := h.reaches_of_refers hsource hfirst
      exact hstep.trans (ih hnext)

/-- A marked reference stands on a cycle. -/
theorem onCycle {node : SchemaNode} {link : Reference}
    (hlink : model.schemaAt? node = some (.reference link)) (hmarked : link.recursive = .bool true) :
    ∃ target, model.Follows (fun _ => True) node target ∧
      Relation.ReflTransGen (model.Follows fun _ => True) target node := by
  obtain ⟨whole, hwhole, hlinks⟩ := links_root_of_schemaAt? hlink
  have hmem := hlinks link (by simp)
  have hdown : Relation.ReflTransGen (model.Follows fun _ => True) { node with path := [] } node :=
    reaches_of_root (Option.isSome_of_eq_some hlink)
  rcases node with ⟨root, path⟩
  cases root with
  | place index =>
      -- No reference is marked that stands elsewhere than in a component.
      have hheld : whole ∈ bound.heldSchemas := by
        rw [← h.heldSchemas_eq]
        exact List.mem_of_getElem? hwhole
      rw [h.held whole hheld link hmem] at hmarked
      cases hmarked
  | component name =>
      have hdone := h.done _ (h.mem_schemaKeys (Option.isSome_of_eq_some hwhole))
      obtain ⟨before, earlier, hsplit⟩ := List.append_of_mem hdone
      have hcut := h.sound.closed _ earlier ⟨before, hsplit.symm⟩ whole ((h.schemaAt?_component name).symm.trans hwhole) link hmem
      obtain ⟨target, htarget, hback⟩ := hcut.marked hmarked
      have hkey := h.mem_schemaKeys_of_link hwhole hmem htarget
      exact ⟨_, h.follows_target hlink htarget hkey, (h.reaches_of_reaches hkey hback).trans hdown⟩

end Searched

/-- In a resolved model the references that are marked as recursive cut the cycles of schemas: nothing
leads back to where it stands unless by one of them, and each of them leads back. -/
theorem resolve_cutsCycles {resolved : Model} {diagnostics : List Diagnostic} (h : model.Unresolved)
    (hresolve : model.resolve = (resolved, .ok diagnostics)) :
    (∀ node, (resolved.schemaAt? node).map Part.unmarked =
      (model.bindReferences.schemaAt? node).map Part.unmarked) ∧
    (∀ node, ¬ Relation.TransGen (resolved.Follows fun link => link.recursive ≠ .bool true) node node) ∧
    ∀ node link, resolved.schemaAt? node = some (.reference link) → link.recursive = .bool true →
      ∃ target, resolved.Follows (fun _ => True) node target ∧
        Relation.ReflTransGen (resolved.Follows fun _ => True) target node := by
  have hsearched : ∃ search, Searched model.bindReferences resolved search := by
    obtain ⟨search, hsound, hcomponents, hdone⟩ := h.unsearched.markCycles
    unfold resolve at hresolve
    split at hresolve
    · cases hresolve
    · dsimp only at hresolve
      split at hresolve
      · cases hresolve
      · obtain ⟨rfl, -⟩ := Prod.mk.inj hresolve
        exact ⟨search, h.unsearched, hsound, hcomponents.symm, rfl, hdone, h.held_bindReferences⟩
  obtain ⟨search, hsearched⟩ := hsearched
  refine ⟨hsearched.schemaAt?_unmarked, fun node hcycle => ?_, fun node link => hsearched.onCycle⟩
  have hwell : WellFounded (flip (resolved.Follows fun link => link.recursive ≠ .bool true)) :=
    ⟨hsearched.acc⟩
  have hback := Relation.transGen_swap.mpr hcycle
  exact hwell.transGen.asymmetric node node hback hback

end Model

namespace Loops

/-- A reference to a schema as it is read. -/
def link (name : String) : Part :=
  .reference { collection := .text "schemas", name := .text name, expected := .text "schemas" }

/-- A schema that refers to itself and, through its items, to another one that refers back, and two
aliases of each other. -/
def model : Model where
  components :=
    { schemas := [
        (.text "Tree", .schema {} [(.text "parent", link "Tree")] (some (link "Branch"))),
        (.text "Branch", .schema {} [(.text "tree", link "Tree"), (.text "alias", link "First")] none),
        (.text "First", link "Second"),
        (.text "Second", link "First")]
      parameters := [(.text "Filter", .parameter {} (some (link "Tree")))] }

theorem unresolved : model.Unresolved where
  named := by
    simp only [model, List.forall_mem_cons, List.not_mem_nil, false_implies, implies_true, and_true]
    exact ⟨⟨_, (Datum.ofCodes_toList _).symm⟩, ⟨_, (Datum.ofCodes_toList _).symm⟩,
      ⟨_, (Datum.ofCodes_toList _).symm⟩, ⟨_, (Datum.ofCodes_toList _).symm⟩⟩
  expected := by simp [model, link, Part.links, Part.propertyLinks, Part.itemLinks, Collection.name]
  unbound := by simp [model, link, Part.links, Part.propertyLinks, Part.itemLinks]
  unmarked := by simp [model, link, Part.links, Part.propertyLinks, Part.itemLinks]
  held := by
    simp [model, link, Part.links, Part.heldSchemas, Model.heldSchemas, Model.endpoints,
      OrderedMap.values, Components.entries]

theorem resolve_eq : model.resolve = (model.resolve.1, .ok []) := by
  rfl

end Loops

/-- A model with cycles that share a schema, and with aliases that lead to each other alone. -/
theorem resolve_cutsCycles_loops :
    Loops.model.Unresolved ∧ Loops.model.resolve = (Loops.model.resolve.1, .ok []) ∧
    (∀ node, (Loops.model.resolve.1.schemaAt? node).map Part.unmarked =
      (Loops.model.bindReferences.schemaAt? node).map Part.unmarked) ∧
    (∀ node, ¬ Relation.TransGen
      (Loops.model.resolve.1.Follows fun link => link.recursive ≠ .bool true) node node) ∧
    ∀ node link, Loops.model.resolve.1.schemaAt? node = some (.reference link) →
      link.recursive = .bool true →
      ∃ target, Loops.model.resolve.1.Follows (fun _ => True) node target ∧
        Relation.ReflTransGen (Loops.model.resolve.1.Follows fun _ => True) target node :=
  ⟨Loops.unresolved, Loops.resolve_eq, Model.resolve_cutsCycles Loops.unresolved Loops.resolve_eq⟩

/-- The references that are marked: from a schema to itself, back from another, and between aliases. -/
example : Loops.model.resolve.1.components.schemas.map
      (fun entry => entry.2.links.map (·.recursive)) =
    [[.bool true, .bool false], [.bool true, .bool false], [.bool false], [.bool true]] := by
  rfl

end DocCompiler
