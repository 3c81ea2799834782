import DocCompiler.Proofs.Document.Change
import DocCompiler.Proofs.Document.Resolve

/-!
Marking the references that close a cycle of schemas changes nothing else about the components.
-/

namespace DocCompiler

/-- Components in form that differ from others within schemas at most, and have the same names. -/
structure Components.Marked (terms : Terms) (start components : Components) : Prop where
  fits : components.Fits terms
  keys : ∀ collection,
    (components.entries collection).map (·.1) = (start.entries collection).map (·.1)
  others : ∀ collection, collection ≠ .schemas →
    components.entries collection = start.entries collection
  schemes : components.securitySchemes = start.securitySchemes

theorem Components.Marked.size {terms : Terms} {start components : Components}
    (h : Components.Marked terms start components) : components.size = start.size := by
  have hlength (collection : Collection) :
      (components.entries collection).length = (start.entries collection).length := by
    simpa only [List.length_map] using congrArg List.length (h.keys collection)
  have hschemas := hlength .schemas
  have hparameters := hlength .parameters
  have hbodies := hlength .requestBodies
  have hresponses := hlength .responses
  simp only [Components.entries] at hschemas hparameters hbodies hresponses
  simp only [Components.size]
  omega

theorem Datum.isSome_lookup_iff {α : Type} {key : Datum} {entries : List (Datum × α)} :
    (Datum.lookup key entries).isSome = true ↔ ∃ name ∈ entries.map (·.1), name.sameKey key = true := by
  cases hfound : Datum.lookup key entries with
  | none =>
      rw [Datum.lookup_eq_none_iff] at hfound
      simp only [Option.isSome_none, Bool.false_eq_true, List.mem_map, false_iff]
      rintro ⟨_, ⟨entry, hentry, rfl⟩, hsame⟩
      simp [hfound entry hentry] at hsame
  | some value =>
      obtain ⟨name, hname, hmem⟩ := Datum.mem_of_lookup_eq_some hfound
      simp only [Option.isSome_some, true_iff]
      exact ⟨name, List.mem_map_of_mem hmem, hname⟩

/-- Whether something is found depends on the names alone. -/
theorem Datum.isSome_lookup_congr {α : Type} {key : Datum} {first second : List (Datum × α)}
    (h : first.map (·.1) = second.map (·.1)) :
    (Datum.lookup key first).isSome = (Datum.lookup key second).isSome := by
  rw [Bool.eq_iff_iff, Datum.isSome_lookup_iff, Datum.isSome_lookup_iff, h]

section Marking

variable {terms : Terms} {start : Components}

theorem Components.marked_self (h : start.Fits terms) : Components.Marked terms start start :=
  ⟨h, fun _ => rfl, fun _ _ => rfl, rfl⟩

theorem Components.Marked.put {components : Components} (h : Components.Marked terms start components)
    {name : Datum} {part : Part} (hname : (components.get? .schemas name).isSome = true)
    (hpart : part.IsSchema terms) :
    Components.Marked terms start (components.put .schemas name part) where
  fits := h.fits.put (.inr hname) (Part.isEntry_schemas_iff.mpr hpart)
  keys collection := by
    rw [Components.entries_put, ← h.keys collection]
    split_ifs with heq
    · subst heq
      obtain ⟨found, hfound⟩ := Option.isSome_iff_exists.mp hname
      exact Datum.keys_insertEntry_of_lookup hfound
    · rfl
  others collection hother := by
    rw [Components.entries_put, if_neg (Ne.symm hother)]
    exact h.others collection hother
  schemes := by
    rw [Components.securitySchemes_put]
    exact h.schemes

namespace CycleSearch

variable {visit : ComponentKey → CycleSearch → CycleSearch}

/-- Marking a part gives a schema and keeps the rest of the components. -/
def Marks (terms : Terms) (start : Components) (visit : ComponentKey → CycleSearch → CycleSearch)
    (part : Part) : Prop :=
  ∀ search : CycleSearch, Components.Marked terms start search.components →
    Part.IsSchema terms (mark visit part search).1 ∧
      Components.Marked terms start (mark visit part search).2.components

theorem marks_properties {properties : Registry}
    (hproperties : ∀ entry ∈ properties, terms.leaf .string entry.1 ∧ Marks terms start visit entry.2)
    (search : CycleSearch) (h : Components.Marked terms start search.components) :
    (markProperties visit properties search).1.map (·.1) = properties.map (·.1) ∧
      (∀ entry ∈ (markProperties visit properties search).1,
        terms.leaf .string entry.1 ∧ entry.2.IsSchema terms) ∧
      Components.Marked terms start (markProperties visit properties search).2.components := by
  induction properties generalizing search with
  | nil => exact ⟨rfl, by simp [markProperties], h⟩
  | cons entry rest ih =>
      rcases entry with ⟨name, part⟩
      obtain ⟨hname, hmarks⟩ := hproperties _ (List.mem_cons_self ..)
      obtain ⟨hpart, hbetween⟩ := hmarks search h
      obtain ⟨hkeys, hrest, hafter⟩ :=
        ih (fun other hother => hproperties other (List.mem_cons_of_mem _ hother)) _ hbetween
      refine ⟨?_, ?_, hafter⟩
      · rw [List.map_cons, ← hkeys]
        rfl
      · rw [markProperties, List.forall_mem_cons]
        exact ⟨⟨hname, hpart⟩, hrest⟩

theorem marks_items {items : Option Part} (hitems : ∀ part ∈ items, Marks terms start visit part)
    (search : CycleSearch) (h : Components.Marked terms start search.components) :
    (∀ part ∈ (markItems visit items search).1, part.IsSchema terms) ∧
      Components.Marked terms start (markItems visit items search).2.components := by
  cases items with
  | none => exact ⟨by simp [markItems], h⟩
  | some part =>
      obtain ⟨hpart, hafter⟩ := hitems part rfl search h
      refine ⟨fun found hfound => ?_, hafter⟩
      obtain rfl := Option.some.inj hfound
      exact hpart

section Visit

variable
  (hkey : ∀ link key, terms.link .schemas link → link.key? = some key → key.1 = .schemas)
  (hrecursive : ∀ link, terms.link .schemas link →
    terms.link .schemas { link with recursive := .bool true })

include hkey hrecursive

theorem marks_of_isSchema
    (hvisit : ∀ (key : ComponentKey) (search : CycleSearch), key.1 = .schemas →
      Components.Marked terms start search.components →
        Components.Marked terms start (visit key search).components)
    {part : Part} (hpart : part.IsSchema terms) : Marks terms start visit part := by
  refine hpart.induction ?_ ?_
  · intro link hlink search h
    change terms.link .schemas (follow visit link search).1 ∧
      Components.Marked terms start (follow visit link search).2.components
    unfold follow
    split
    · exact ⟨hlink, h⟩
    · rename_i key hfound
      split
      · exact ⟨hrecursive link hlink, h⟩
      · exact ⟨hlink, hvisit key search (hkey link key hlink hfound) h⟩
  · intro facets properties items hfacets hdistinct hproperties hitems search h
    obtain ⟨hkeys, hentries, hbetween⟩ := marks_properties
      (fun entry hentry => ⟨(hproperties entry hentry).1, (hproperties entry hentry).2.2⟩) search h
    obtain ⟨hfound, hafter⟩ := marks_items (fun part hpart => (hitems part hpart).2) _ hbetween
    refine ⟨Part.isSchema_schema_iff.mpr ⟨hfacets, ?_, hentries, hfound⟩, hafter⟩
    rw [Datum.distinct_iff_keys] at hdistinct ⊢
    rw [hkeys]
    exact hdistinct

theorem marked_visit (fuel : Nat) (key : ComponentKey) (search : CycleSearch)
    (hschemas : key.1 = .schemas) (h : Components.Marked terms start search.components) :
    Components.Marked terms start (CycleSearch.visit fuel key search).components := by
  induction fuel generalizing key search with
  | zero => exact h
  | succ fuel ih =>
      unfold CycleSearch.visit
      split
      · exact h
      · split
        · exact h
        · rename_i part hfound
          rcases key with ⟨collection, name⟩
          obtain rfl : collection = .schemas := hschemas
          obtain ⟨owner, -, hmem⟩ := Datum.mem_of_lookup_eq_some hfound
          have hpart := Part.isEntry_schemas_iff.mp (h.fits.entries .schemas _ hmem)
          obtain ⟨hmarked, hafter⟩ := marks_of_isSchema hkey hrecursive ih hpart
            { search with inside := (.schemas, name) :: search.inside } h
          refine hafter.put ?_ hmarked
          rw [Components.get?, Datum.isSome_lookup_congr (hafter.keys .schemas),
            ← Datum.isSome_lookup_congr (h.keys .schemas), ← Components.get?, hfound]
          rfl

end Visit

end CycleSearch

/-- Marking the references that close cycles changes nothing but schemas. -/
theorem Components.marked_markCycles (h : start.Fits terms)
    (hkey : ∀ link key, terms.link .schemas link → link.key? = some key → key.1 = .schemas)
    (hrecursive : ∀ link, terms.link .schemas link →
      terms.link .schemas { link with recursive := .bool true }) :
    Components.Marked terms start start.markCycles := by
  have hfold : ∀ (names : Registry) (search : CycleSearch),
      Components.Marked terms start search.components →
        Components.Marked terms start (names.foldl (fun search entry =>
          CycleSearch.visit (start.size + 1) (.schemas, entry.1) search) search).components := by
    intro names
    induction names with
    | nil => exact fun _ hsearch => hsearch
    | cons entry rest ih =>
        intro search hsearch
        exact ih _ (CycleSearch.marked_visit hkey hrecursive _ _ _ rfl hsearch)
  exact hfold start.schemas { components := start } (Components.marked_self h)

end Marking

end DocCompiler
