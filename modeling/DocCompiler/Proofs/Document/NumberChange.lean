import DocCompiler.Proofs.Document.Numbers
import DocCompiler.Proofs.Document.Resolve

/-!
What changes or resolves a model keeps its numbers admitted: references keep their names, and all other data
stay or are given with the change.
-/

namespace DocCompiler

variable {admits : Number → Prop}

section Replacing

variable {f : Reference → Reference} (hname : ∀ link, (f link).name = link.name)

include hname

theorem Part.numbers_replace {link : Reference} (h : (Part.reference link).Numbers admits) :
    (Part.reference (f link)).Numbers admits := by
  rw [Part.numbers_reference_iff, hname]
  exact Part.numbers_reference_iff.mp h

/-- Replacing references in a part, or in the content of a media type, keeps its numbers admitted. -/
theorem Part.Numbers.replace {part : Part} (h : part.Numbers admits) :
    Part.Numbers admits (part.mapReferences (m := Id) f) ∧
      Part.Numbers admits (Part.mapMedia (m := Id) f part) := by
  induction h with
  | @of part data names nested ih =>
    have hsame : part.Numbers admits := .of data names nested
    have hinner {inner : Option Part} (hinner : ∀ found ∈ inner.toList, found ∈ part.nested) :
        ∀ found ∈ Option.toList (Part.mapSchema (m := Id) f inner), found.Numbers admits := by
      cases inner with
      | none => exact List.forall_mem_nil _
      | some found =>
          exact List.forall_mem_singleton.mpr (ih found (hinner found List.mem_cons_self)).1
    cases part with
    | reference link => exact ⟨Part.numbers_replace hname hsame, Part.numbers_replace hname hsame⟩
    | schema facets properties items =>
        refine ⟨?_, hsame⟩
        change Part.Numbers admits (.schema facets (Part.mapProperties (m := Id) f properties)
          (Part.mapSchema (m := Id) f items))
        refine .of data ?_ ?_
        · rw [Part.mapProperties_id, Part.names, Part.mapRegistry, List.map_map]
          exact names
        · refine List.forall_mem_append.mpr ⟨?_, ?_⟩
          · rw [Part.mapProperties_id, Part.mapRegistry, List.map_map, List.forall_mem_map]
            intro entry hentry
            exact (ih entry.2 (List.mem_append_left _ (List.mem_map_of_mem hentry))).1
          · exact hinner fun _ hfound => List.mem_append_right _ hfound
    | parameter value inner =>
        have hboth : Part.Numbers admits (.parameter value (Part.mapSchema (m := Id) f inner)) :=
          .of data names (hinner fun _ hfound => hfound)
        exact ⟨hboth, hboth⟩
    | mediaType sample inner =>
        have hmedia : Part.Numbers admits (.mediaType sample (Part.mapSchema (m := Id) f inner)) :=
          .of data names (hinner fun _ hfound => hfound)
        exact ⟨hsame, hmedia⟩
    | requestBody value content | response value content =>
        refine ⟨.of data ?_ ?_, hsame⟩
        · change ∀ name ∈ List.map (·.1) (Part.mapContent (m := Id) f content), _
          rw [Part.mapContent_id, List.map_map]
          exact names
        · change ∀ inner ∈ List.map (·.2) (Part.mapContent (m := Id) f content), _
          rw [Part.mapContent_id, List.map_map, List.forall_mem_map]
          exact fun entry hentry => (ih entry.2 (List.mem_map_of_mem hentry)).2
    | _ => exact ⟨hsame, hsame⟩

theorem Part.Numbers.mapReferences {part : Part} (h : part.Numbers admits) :
    Part.Numbers admits (part.mapReferences (m := Id) f) :=
  (h.replace hname).1

theorem Part.Numbers.mapReference {part : Part} (h : part.Numbers admits) :
    Part.Numbers admits (part.mapReference (m := Id) f) := by
  cases part with
  | reference link => exact Part.numbers_replace hname h
  | _ => exact h

theorem Endpoint.numbers_mapReferences {endpoint : Endpoint} (h : endpoint.part.Numbers admits) :
    Part.Numbers admits (Endpoint.part (endpoint.mapReferences (m := Id) f)) := by
  obtain ⟨data, names, nested⟩ := h
  simp only [Endpoint.part, Part.nested, List.forall_mem_append] at nested
  obtain ⟨⟨hparameters, hbody⟩, hresponses⟩ := nested
  rw [Endpoint.mapReferences_id]
  refine .of data ?_ ?_
  · change ∀ name ∈ endpoint.operation.method :: endpoint.operation.tags ::
      (Part.mapRegistry f endpoint.responses).map (·.1), _
    rw [Part.mapRegistry, List.map_map]
    exact names
  · refine List.forall_mem_append.mpr ⟨List.forall_mem_append.mpr ⟨?_, ?_⟩, ?_⟩
    · exact List.forall_mem_map.mpr fun part hpart => (hparameters part hpart).mapReferences hname
    · rw [Option.toList_map]
      exact List.forall_mem_map.mpr fun part hpart => (hbody part hpart).mapReferences hname
    · rw [Part.mapRegistry, List.map_map]
      rw [List.forall_mem_map] at hresponses ⊢
      exact fun entry hentry => (hresponses entry hentry).mapReferences hname

theorem Components.Numbers.mapReferences {components : Components} (h : components.Numbers admits) :
    Components.Numbers admits (components.mapReferences (m := Id) f) where
  entries collection := by
    rw [Components.entries_mapReferences, Part.mapRegistry, List.forall_mem_map]
    exact fun entry hentry => ⟨(h.entries collection entry hentry).1,
      (h.entries collection entry hentry).2.mapReferences hname⟩
  schemes := by
    rw [Components.securitySchemes_mapReferences, List.forall_mem_map]
    exact fun entry hentry => (h.schemes entry hentry).imp_right (Part.Numbers.mapReference hname)

theorem Model.Numbers.mapReferences {terms : Terms} {model : Model} (hfits : model.Fits terms)
    (h : model.Numbers admits) : Model.Numbers admits (model.mapReferences (m := Id) f) := by
  rw [hfits.mapReferences_id f]
  refine ⟨h.info, h.servers, h.tags, ?_, h.components.mapReferences hname⟩
  rw [List.forall_mem_map]
  intro entry hentry
  rw [List.forall_mem_map]
  intro found hfound
  obtain ⟨hmethod, hpart⟩ := h.paths entry hentry found hfound
  exact ⟨hmethod, Endpoint.numbers_mapReferences hname hpart⟩

end Replacing

section Changing

/-- What holds of keys and parts holds after a part is put under a key. -/
theorem Datum.numbers_insertEntry {name : Datum} {part : Part} {registry : Registry}
    (hname : name.Numbers admits) (hpart : part.Numbers admits)
    (h : ∀ entry ∈ registry, entry.1.Numbers admits ∧ entry.2.Numbers admits) :
    ∀ entry ∈ Datum.insertEntry name part registry, entry.1.Numbers admits ∧ entry.2.Numbers admits := by
  intro entry hentry
  obtain hold | ⟨hvalue, hkey | ⟨old, hold, hkey, -⟩⟩ := Datum.mem_insertEntry hentry
  · exact h entry hold
  · exact ⟨hkey ▸ hname, hvalue ▸ hpart⟩
  · exact ⟨hkey ▸ (h old hold).1, hvalue ▸ hpart⟩

theorem Components.Numbers.put {components : Components} (h : components.Numbers admits)
    (collection : Collection) {name : Datum} {part : Part} (hname : name.Numbers admits)
    (hpart : part.Numbers admits) : (components.put collection name part).Numbers admits where
  entries other := by
    rw [Components.entries_put]
    split_ifs
    · exact Datum.numbers_insertEntry hname hpart (h.entries collection)
    · exact h.entries other
  schemes := by
    rw [Components.securitySchemes_put]
    exact h.schemes

namespace Model.Numbers

variable {model : Model} (h : model.Numbers admits)

include h

theorem withInfo {info : Part} (hinfo : info.Numbers admits) : Model.Numbers admits { model with info } :=
  { h with info := hinfo }

theorem addServer {server : Part} (hserver : server.Numbers admits) (first : Bool) :
    (model.addServer server first).1.Numbers admits := by
  refine holds_change h fun found hfound => ?_
  obtain rfl := Except.ok.inj hfound
  refine { h with servers := fun part hpart => ?_ }
  have hmem : part = server ∨ part ∈ model.servers := by
    cases first <;> simpa [or_comm] using hpart
  obtain rfl | hold := hmem
  · exact hserver
  · exact h.servers part hold

theorem addTag {tag : Part} (htag : tag.Numbers admits) : (model.addTag tag).1.Numbers admits := by
  refine holds_change h fun found hfound => ?_
  split at hfound
  · obtain rfl := Except.ok.inj hfound
    refine { h with tags := fun entry hentry => ?_ }
    obtain hold | rfl := OrderedMap.mem_put hentry
    · exact h.tags entry hold
    · exact htag
  · cases hfound

/-- The endpoints of a path of a model. -/
theorem of_get? {path : String} {found : Datum × Endpoint} (hfound : found ∈ (model.paths.get? path).getD []) :
    found.1.Numbers admits ∧ found.2.part.Numbers admits := by
  cases hget : model.paths.get? path with
  | none => simp [hget] at hfound
  | some methods =>
      rw [hget] at hfound
      exact h.paths _ (OrderedMap.mem_of_get? hget) found hfound

theorem putPath {path : String} {methods : List (Datum × Endpoint)}
    (hmethods : ∀ found ∈ methods, found.1.Numbers admits ∧ found.2.part.Numbers admits) :
    Model.Numbers admits { model with paths := model.paths.put path methods } := by
  refine { h with paths := fun entry hentry => ?_ }
  obtain hold | rfl := OrderedMap.mem_put hentry
  · exact h.paths entry hold
  · exact hmethods

theorem addOperation {part : Part} (hpart : part.Numbers admits) :
    (model.addOperation part).1.Numbers admits := by
  unfold Model.addOperation
  split
  · exact holds_change h fun _ hfound => by cases hfound
  · rename_i endpoint hendpoint
    have hsame : endpoint.part = part := by
      cases part with
      | operation => cases hendpoint; rfl
      | _ => cases hendpoint
    dsimp only
    split_ifs
    · refine holds_change h fun found hfound => ?_
      obtain rfl := Except.ok.inj hfound
      refine h.putPath fun found hfound => ?_
      obtain hold | ⟨hvalue, hkey | ⟨old, hold, hkey, -⟩⟩ := Datum.mem_insertEntry hfound
      · exact h.of_get? hold
      · rw [hvalue, hkey, hsame]
        obtain ⟨-, names, -⟩ := hsame ▸ hpart
        exact ⟨names _ List.mem_cons_self, hpart⟩
      · rw [hvalue, ← hkey, hsame]
        exact ⟨(h.of_get? hold).1, hpart⟩
    · exact h
    · exact h.putPath fun found hfound => h.of_get? hfound

theorem register (collection : Collection) {name : Datum} {part : Part} (hname : name.Numbers admits)
    (hpart : part.Numbers admits) : (model.register collection name part).1.Numbers admits := by
  refine holds_change h fun found hfound => ?_
  split at hfound
  · obtain rfl := Except.ok.inj hfound
    exact { h with components := h.components.put collection hname hpart }
  · cases hfound

theorem registerScheme {name : Datum} {part : Part} (hname : name.Numbers admits)
    (hpart : part.Numbers admits) : (model.registerScheme name part).1.Numbers admits := by
  refine holds_change h fun found hfound => ?_
  split at hfound
  · obtain rfl := Except.ok.inj hfound
    refine { h with components := ⟨fun collection => ?_, ?_⟩ }
    · have := h.components.entries collection
      cases collection <;> exact this
    · exact Datum.numbers_insertEntry hname hpart h.components.schemes
  · cases hfound

theorem overrideInfo (overrides : Overrides) : (model.overrideInfo overrides).Numbers admits := by
  have hsettled (text : Option String) (old : Datum) (hold : old.settled.Numbers admits) :
      ((given? text).elim old .text).settled.Numbers admits := by
    cases given? text with
    | none => exact hold
    | some value => trivial
  unfold Model.overrideInfo
  split
  · rename_i info person terms hinfo
    obtain ⟨data, names, nested⟩ := hinfo ▸ h.info
    refine h.withInfo (.of ?_ names nested)
    simp only [Part.data, List.forall_mem_cons] at data ⊢
    simp [hsettled _ _ data.1, hsettled _ _ data.2.1, hsettled _ _ data.2.2.1, data.2.2.2.1]
  · exact h

theorem applyOverrides (overrides : Overrides) : (model.applyOverrides overrides).1.Numbers admits := by
  have hinfo := h.overrideInfo overrides
  unfold Model.applyOverrides
  split
  · exact hinfo
  · dsimp only
    split
    · exact hinfo
    · rename_i url _ _ _
      have hothers : Model.Numbers admits { model.overrideInfo overrides with
          servers := (model.overrideInfo overrides).servers.filter
            fun server => !server.url?.any (·.isText url) } :=
        { hinfo with servers := fun part hpart => hinfo.servers part (List.mem_filter.mp hpart).1 }
      refine hothers.addServer (.of ?_ (by simp [Part.names]) (by simp [Part.nested])) true
      simp [Part.data, Datum.settled, Datum.Numbers]

theorem freeze : model.freeze.Numbers admits :=
  { h with }

end Model.Numbers

end Changing

section Marking

theorem Reference.name_of_key? {link : Reference} {key : ComponentKey} (h : link.key? = some key) :
    key.2 = link.name := by
  unfold Reference.key? at h
  split_ifs at h
  obtain ⟨collection, -, rfl⟩ := Option.map_eq_some_iff.mp h
  rfl

namespace CycleSearch

variable {visit : ComponentKey → CycleSearch → CycleSearch}

/-- Marking a part keeps its numbers admitted, and those of the components. -/
def KeepsNumbers (admits : Number → Prop) (visit : ComponentKey → CycleSearch → CycleSearch)
    (part : Part) : Prop :=
  ∀ search : CycleSearch, search.components.Numbers admits →
    (mark visit part search).1.Numbers admits ∧ (mark visit part search).2.components.Numbers admits

theorem numbers_markProperties {properties : Registry}
    (h : ∀ entry ∈ properties, KeepsNumbers admits visit entry.2) (search : CycleSearch)
    (hsearch : search.components.Numbers admits) :
    (markProperties visit properties search).1.map (·.1) = properties.map (·.1) ∧
      (∀ entry ∈ (markProperties visit properties search).1, entry.2.Numbers admits) ∧
        (markProperties visit properties search).2.components.Numbers admits := by
  induction properties generalizing search with
  | nil => exact ⟨rfl, by simp [markProperties], hsearch⟩
  | cons entry rest ih =>
      obtain ⟨name, part⟩ := entry
      obtain ⟨hpart, hbetween⟩ := h _ List.mem_cons_self search hsearch
      obtain ⟨hkeys, hrest, hafter⟩ := ih (fun other hother => h other (List.mem_cons_of_mem _ hother)) _ hbetween
      refine ⟨?_, ?_, hafter⟩
      · rw [List.map_cons, ← hkeys]
        rfl
      · rw [markProperties, List.forall_mem_cons]
        exact ⟨hpart, hrest⟩

theorem numbers_markItems {items : Option Part} (h : ∀ part ∈ items.toList, KeepsNumbers admits visit part)
    (search : CycleSearch) (hsearch : search.components.Numbers admits) :
    (∀ part ∈ (markItems visit items search).1.toList, part.Numbers admits) ∧
      (markItems visit items search).2.components.Numbers admits := by
  cases items with
  | none => exact ⟨List.forall_mem_nil _, hsearch⟩
  | some part =>
      obtain ⟨hpart, hafter⟩ := h part List.mem_cons_self search hsearch
      exact ⟨List.forall_mem_singleton.mpr hpart, hafter⟩

section Visit

variable (hvisit : ∀ (key : ComponentKey) (search : CycleSearch), key.2.Numbers admits →
  search.components.Numbers admits → (visit key search).components.Numbers admits)

include hvisit

theorem keepsNumbers_mark {part : Part} (h : part.Numbers admits) : KeepsNumbers admits visit part := by
  induction h with
  | @of part data names nested ih =>
    have hsame : part.Numbers admits := .of data names nested
    intro search hsearch
    cases part with
    | reference link =>
        change (Part.reference (follow visit link search).1).Numbers admits ∧
          (follow visit link search).2.components.Numbers admits
        have hlink : link.name.Numbers admits := Part.numbers_reference_iff.mp hsame
        unfold follow
        split
        · exact ⟨hsame, hsearch⟩
        · rename_i key hkey
          split
          · exact ⟨Part.numbers_reference_iff.mpr hlink, hsearch⟩
          · refine ⟨hsame, hvisit key search ?_ hsearch⟩
            rw [Reference.name_of_key? hkey]
            exact hlink
    | schema facets properties items =>
        obtain ⟨hkeys, hparts, hbetween⟩ := numbers_markProperties
          (fun entry hentry => ih entry.2 (List.mem_append_left _ (List.mem_map_of_mem hentry))) search hsearch
        obtain ⟨hitems, hafter⟩ := numbers_markItems
          (fun part hpart => ih part (List.mem_append_right _ hpart)) _ hbetween
        refine ⟨.of data ?_ (List.forall_mem_append.mpr ⟨List.forall_mem_map.mpr hparts, hitems⟩), hafter⟩
        change ∀ name ∈ facets.required :: (markProperties visit properties search).1.map (·.1), _
        rw [hkeys]
        exact names
    | _ => exact ⟨hsame, hsearch⟩

end Visit

theorem numbers_visit (fuel : Nat) (key : ComponentKey) (search : CycleSearch)
    (hkey : key.2.Numbers admits) (h : search.components.Numbers admits) :
    (CycleSearch.visit fuel key search).components.Numbers admits := by
  induction fuel generalizing key search with
  | zero => exact h
  | succ fuel ih =>
      unfold CycleSearch.visit
      split
      · exact h
      · split
        · exact h
        · rename_i part hfound
          obtain ⟨owner, -, hmem⟩ := Datum.mem_of_lookup_eq_some hfound
          obtain ⟨hmarked, hafter⟩ := keepsNumbers_mark ih (h.entries key.1 _ hmem).2
            { search with inside := key :: search.inside } h
          exact hafter.put key.1 hkey hmarked

end CycleSearch

theorem Components.Numbers.markCycles {components : Components} (h : components.Numbers admits) :
    components.markCycles.Numbers admits := by
  have hfold : ∀ (names : Registry) (search : CycleSearch), (∀ entry ∈ names, entry.1.Numbers admits) →
      search.components.Numbers admits →
        (names.foldl (fun search entry =>
          CycleSearch.visit (components.size + 1) (.schemas, entry.1) search) search).components.Numbers admits := by
    intro names
    induction names with
    | nil => exact fun _ _ hsearch => hsearch
    | cons entry rest ih =>
        intro search hnames hsearch
        rw [List.forall_mem_cons] at hnames
        exact ih _ hnames.2 (CycleSearch.numbers_visit _ _ _ hnames.1 hsearch)
  exact hfold components.schemas { components } (fun entry hentry => (h.entries .schemas entry hentry).1) h

/-- Resolving a model keeps its numbers admitted. -/
theorem Model.Numbers.resolve {terms : Terms} {model resolved : Model} (hfits : model.Fits terms)
    (h : model.Numbers admits) {diagnostics : List Diagnostic}
    (hresolve : model.resolve = (resolved, .ok diagnostics)) : resolved.Numbers admits := by
  have hbound : model.bindReferences.Numbers admits :=
    Model.Numbers.mapReferences (Reference.name_bind model.components) hfits h
  unfold Model.resolve at hresolve
  split at hresolve
  · cases hresolve
  · dsimp only at hresolve
    split at hresolve
    · cases hresolve
    · obtain ⟨rfl, -⟩ := Prod.mk.inj hresolve
      exact { hbound with components := hbound.components.markCycles }

end Marking

end DocCompiler
