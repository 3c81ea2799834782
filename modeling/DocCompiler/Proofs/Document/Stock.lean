import DocCompiler.Proofs.Document.MediaPlaces
import DocCompiler.Proofs.Document.Nesting

/-!
The documents of models in form: everything on the way to media types is a mapping, and the schemas of media types are
schemas of the document.
-/

namespace DocCompiler

open Document

namespace Datum

variable {holds : Datum → Datum → Prop} {entries : List (Datum × Datum)}

theorem IsSettled.keys (h : (map entries).IsSettled) :
    Distinct entries ∧ ∀ entry ∈ entries, entry.1.asText = entry.1 := by
  have hsame : distinctEntries (settledEntries entries) = entries := by
    rw [IsSettled, settled] at h
    exact map.inj h
  rw [← hsame]
  refine ⟨distinct_distinctEntries _, fun entry hentry => ?_⟩
  obtain ⟨other, hother, heq⟩ := List.mem_map.mp (mem_distinctEntries hentry).1
  exact heq ▸ (isSettled_settledEntries entries other hother).1

/-- A mapping as it stands in documents has distinct texts as keys. -/
theorem IsSettled.mapsTo (h : (map entries).IsSettled) (hentries : ∀ entry ∈ entries, holds entry.1 entry.2) :
    (map entries).MapsTo holds :=
  ⟨entries, rfl, h.keys.1, fun entry hentry => ⟨h.keys.2 entry hentry, hentries entry hentry⟩⟩

/-- Texts are distinct as keys when they are distinct. -/
theorem distinct_iff_nodup {α : Type} {entries : List (Datum × α)}
    (hkeys : ∀ entry ∈ entries, entry.1.asText = entry.1) :
    Distinct entries ↔ (entries.map (·.1)).Nodup := by
  rw [Distinct, List.Nodup, List.pairwise_map]
  refine List.Pairwise.iff_of_mem fun {first second} hfirst _ => ?_
  rw [Bool.eq_false_iff, Ne, sameKey_iff_eq (.inl (hkeys first hfirst))]

theorem mapsTo_record {fields : List (String × Datum)} (hnodup : (fields.map (·.1)).Nodup)
    (hfields : ∀ field ∈ fields, holds (.text field.1) field.2) : (record fields).MapsTo holds := by
  refine ⟨_, rfl, ?_, fun entry hentry => ?_⟩
  · rw [Distinct, List.pairwise_map]
    refine (List.pairwise_map.mp hnodup).imp fun {first second} hne => ?_
    simpa [sameKey] using hne
  · obtain ⟨field, hfield, rfl⟩ := List.mem_map.mp hentry
    exact ⟨asText_text field.1, hfields field hfield⟩

end Datum

variable {terms : Terms}

namespace Layout

variable {holds : Datum → Datum → Prop} {rendered : Datum}

theorem mapsTo_compact {fields : List (String × Datum)} (h : (fields.map (·.1)).Nodup)
    (hfields : ∀ field ∈ fields, field.2.isNull = false → holds (.text field.1) field.2.settled) :
    (compact fields).MapsTo holds := by
  refine (isSettled_compact h).mapsTo fun entry hentry => ?_
  obtain ⟨_, hsettled, rfl⟩ := List.mem_map.mp hentry
  obtain ⟨field, hfield, rfl⟩ := List.mem_map.mp hsettled
  obtain ⟨hmem, hnull⟩ := List.mem_filter.mp hfield
  exact hfields field hmem (by simpa using hnull)

theorem isMedia_of_mediaType {part : Part} (h : mediaType part = .ok rendered) : IsMedia rendered := by
  have hcompact (schema sample : Datum) : IsMedia (compact [("schema", schema), ("example", sample)]) :=
    mapsTo_compact (by simp) fun _ _ _ => trivial
  cases part with
  | mediaType sample inner =>
      obtain ⟨schema, -, h⟩ := Result.bind_eq_ok_iff.mp h
      exact Except.ok.inj h ▸ hcompact schema sample
  | parameter value inner =>
      obtain ⟨schema, -, h⟩ := Result.bind_eq_ok_iff.mp h
      exact Except.ok.inj h ▸ hcompact schema value.sample
  | _ => cases h

theorem mapsTo_content {content : Registry} (hcontent : IsContent terms content) {entries : List (Datum × Datum)}
    (h : Layout.entries mediaType content = .ok entries) :
    (Datum.map entries).settled.MapsTo fun _ => IsMedia := by
  have hsettled := (schema_of_content hcontent h).1
  rw [hsettled]
  refine hsettled.mapsTo fun entry hentry => ?_
  obtain ⟨given, -, -, hrendered⟩ := Result.exists_left_of_forall₂ (entries_eq_ok_iff.mp h) hentry
  exact isMedia_of_mediaType hrendered

theorem isHolder_reference (link : Reference) : IsHolder (reference link) := by
  refine Datum.mapsTo_record (List.nodup_singleton _) ?_
  simp

theorem isHolder_component {collection : Collection}
    (hcollection : collection = .requestBodies ∨ collection = .responses) {part : Part}
    (hpart : part.IsEntry terms collection) (h : component collection part = .ok rendered) : IsHolder rendered := by
  rcases hcollection with rfl | rfl
  · obtain ⟨link, rfl, -⟩ | ⟨value, content, rfl, -, hcontent⟩ := Part.isEntry_requestBodies_iff.mp hpart
    · exact Except.ok.inj h ▸ isHolder_reference link
    · obtain ⟨found, hfound, rfl⟩ := requestBody_eq_ok_iff.mp h
      refine mapsTo_compact (by simp) ?_
      simp only [List.forall_mem_cons, Datum.text.injEq, String.reduceEq, false_implies, implies_true, true_and]
      exact ⟨fun _ _ => mapsTo_content hcontent hfound, nofun⟩
  · obtain ⟨link, rfl, -⟩ | ⟨value, content, rfl, -, hcontent⟩ := Part.isEntry_responses_iff.mp hpart
    · exact Except.ok.inj h ▸ isHolder_reference link
    · obtain ⟨found, hfound, rfl⟩ := response_eq_ok_iff.mp h
      refine mapsTo_compact (by simp) ?_
      simp only [List.forall_mem_cons, Datum.text.injEq, String.reduceEq, false_implies, implies_true, true_and]
      refine ⟨fun hnull _ => ?_, nofun⟩
      rw [mapping] at hnull ⊢
      split_ifs at hnull ⊢
      · cases hnull
      · exact mapsTo_content hcontent hfound

theorem isOperation_operation {endpoint : Endpoint} (hfits : endpoint.Fits terms)
    (h : operation endpoint = .ok rendered) : IsOperation rendered := by
  obtain ⟨parameters, body, tags, found, -, hbody, -, hfound, rfl⟩ := operation_eq_ok_iff.mp h
  refine mapsTo_compact (nodup_operationFields ..) ?_
  simp only [operationFields, List.forall_mem_cons, Datum.text.injEq, String.reduceEq, false_implies, implies_true,
    true_and, and_true]
  refine ⟨fun hnull _ => ?_, fun _ _ => ?_, fun _ hnone => absurd hnone List.not_mem_nil⟩
  · cases hpart : endpoint.body with
    | none =>
        rw [hpart] at hbody
        obtain rfl := Except.ok.inj hbody
        cases hnull
    | some part =>
        rw [hpart] at hbody
        have hentry := hfits.body part hpart
        rw [show body.settled = body from hentry.isSettled hbody]
        exact isHolder_component (.inl rfl) hentry hbody
  · have hsettled := hfits.isSettled_responses hfound
    rw [hsettled]
    refine hsettled.mapsTo fun entry hentry => ?_
    obtain ⟨entries, hentries, rfl⟩ := responses_eq_ok_iff.mp hfound
    obtain ⟨other, hother, heq⟩ := List.mem_map.mp (Datum.mem_distinctEntries hentry).2
    obtain ⟨given, hgiven, -, hrendered⟩ := Result.exists_left_of_forall₂ hentries hother
    exact heq ▸ isHolder_component (.inr rfl) (hfits.responses given hgiven) hrendered

theorem mapsTo_methods {endpoints : List (Datum × Endpoint)} (hdistinct : Datum.Distinct endpoints)
    (hfits : ∀ found ∈ endpoints, found.2.Fits terms ∧ found.1 = found.2.operation.method)
    (h : methods endpoints = .ok rendered) : rendered.MapsTo fun _ => IsOperation := by
  obtain ⟨order, laid, horder, hlaid, rfl⟩ := methods_eq_ok h
  have hmethod (found : Datum × Endpoint) (hfound : found ∈ endpoints) : found.1.asText = found.1 := by
    obtain ⟨hendpoint, hname⟩ := hfits found hfound
    obtain ⟨name, -, htext⟩ := hendpoint.operation.method
    rw [hname, htext, Datum.asText_text]
  have hkeys (entry : Datum × Datum) (hentry : entry ∈ laid) : entry.1.asText = entry.1 := by
    obtain ⟨found, hfound, hname, -⟩ := Result.exists_left_of_forall₂ hlaid hentry
    rw [hname, hmethod found (horder.subset hfound)]
  refine ⟨laid, rfl, ?_, fun entry hentry => ⟨hkeys entry hentry, ?_⟩⟩
  · -- Methods are laid out in another order than they were met in: what stays is that their names differ.
    rw [Datum.distinct_iff_nodup hkeys, Result.map_eq_map_of_forall₂ hlaid fun _ _ hentry => hentry.1, (horder.map _).nodup_iff]
    exact (Datum.distinct_iff_nodup hmethod).mp hdistinct
  · obtain ⟨found, hfound, -, hrendered⟩ := Result.exists_left_of_forall₂ hlaid hentry
    exact isOperation_operation (hfits found (horder.subset hfound)).1 hrendered

theorem mapsTo_paths {model : Model} (hfits : model.Fits terms) (h : paths model = .ok rendered) :
    rendered.MapsTo fun _ methods => methods.MapsTo fun _ => IsOperation := by
  obtain ⟨order, laid, horder, hlaid, rfl⟩ := paths_eq_ok h
  refine Datum.mapsTo_record ?_ fun entry hentry => ?_
  · rw [Result.map_eq_map_of_forall₂ hlaid fun _ _ hentry => hentry.1, (horder.map _).nodup_iff]
    exact hfits.distinctPaths
  · obtain ⟨given, hgiven, -, hrendered⟩ := Result.exists_left_of_forall₂ hlaid hentry
    have hmem := horder.subset hgiven
    exact mapsTo_methods (hfits.distinctMethods given hmem)
      (fun found hfound => (hfits.endpoints given hmem found hfound).imp_right And.left) hrendered

theorem areComponents_components {components : Components} (hfits : components.Fits terms)
    (hkeys : ∀ name, terms.leaf .string name → name.asText = name) (h : Layout.components components = .ok rendered) :
    AreComponents rendered := by
  have hholders {collection : Collection} (hcollection : collection = .requestBodies ∨ collection = .responses)
      {found : List (Datum × Datum)}
      (hfound : entries (component collection) (components.entries collection) = .ok found) :
      (Datum.map found).MapsTo fun _ => IsHolder := by
    have hall := entries_eq_ok_iff.mp hfound
    have hsettled := isSettled_of_forall₂ (hfits.distinct collection)
      (fun given hgiven => hkeys _ (hfits.named collection given hgiven))
      (fun given hgiven rendered => (hfits.entries collection given hgiven).isSettled) hall
    refine hsettled.mapsTo fun entry hentry => ?_
    obtain ⟨given, hgiven, -, hrendered⟩ := Result.exists_left_of_forall₂ hall hentry
    exact isHolder_component hcollection (hfits.entries collection given hgiven) hrendered
  have hrecord : ∃ fields : List (String × Datum), (fields.map (·.1)).Nodup ∧ rendered = .record fields := by
    simp only [Layout.components, Result.bind_eq_ok_iff, Result.pure_eq_ok_iff] at h
    obtain ⟨schemas, -, parameters, -, requestBodies, -, responses, -, schemes, -, rfl⟩ := h
    refine ⟨_, ?_, rfl⟩
    split_ifs
    all_goals simp
  obtain ⟨fields, hnodup, rfl⟩ := hrecord
  refine Datum.mapsTo_record hnodup fun field hfield collection hcollection hname => ?_
  obtain ⟨found, hfound, hlookup⟩ := field?_components h collection
  have hsame : List.lookup field.1 fields = some field.2 := OrderedMap.get?_of_mem hnodup hfield
  rw [Datum.field?_record, ← Datum.text.inj hname, hsame] at hlookup
  rw [Option.some.inj hlookup]
  exact hholders hcollection hfound

/-- The document of a model in form has mappings all the way to its media types. -/
theorem stocked_document {model : Model} {version : String} (hfits : model.Fits terms)
    (hkeys : ∀ name, terms.leaf .string name → name.asText = name) (h : document model version = .ok rendered) :
    Stocked rendered := by
  obtain ⟨components, info, servers, tags, paths, hcomponents, -, -, -, hpaths, rfl⟩ := document_eq_ok_iff.mp h
  refine Datum.mapsTo_record (by simp) ?_
  simp only [List.forall_mem_cons, Datum.text.injEq, String.reduceEq, false_implies, true_implies, true_and, and_true]
  exact ⟨mapsTo_paths hfits hpaths, areComponents_components hfits.components hkeys hcomponents, nofun⟩

end Layout

section Schemas

namespace Datum

variable {value key found : Datum} {rest : DatumPath} {name : String}

theorem exists_of_at?_cons (h : value.at? (key :: rest) = some found) :
    ∃ entry ∈ value.entries, entry.2.at? rest = some found := by
  rw [at?_cons] at h
  obtain ⟨item, hitem, hfound⟩ := Option.bind_eq_some_iff.mp h
  cases value with
  | map entries =>
      obtain ⟨other, -, hmem⟩ := mem_of_lookup_eq_some hitem
      exact ⟨_, hmem, hfound⟩
  | _ => cases hitem

theorem exists_of_at?_text_cons (h : value.at? (.text name :: rest) = some found) :
    ∃ item, value.field? name = some item ∧ item.at? rest = some found := by
  rw [at?_cons, at?_text_singleton] at h
  exact Option.bind_eq_some_iff.mp h

theorem exists_of_at?_under (h : value.at? (.text name :: key :: rest) = some found) :
    ∃ entry ∈ value.entriesUnder name, entry.2.at? rest = some found := by
  obtain ⟨item, hitem, hfound⟩ := exists_of_at?_text_cons h
  obtain ⟨entry, hentry, hfound⟩ := exists_of_at?_cons hfound
  refine ⟨entry, ?_, hfound⟩
  rw [entriesUnder, hitem]
  exact hentry

end Datum

variable {document media : Datum} {place : DatumPath}

/-- A media type stands in the content of what stands where a body or a response does. -/
theorem IsMediaPlace.exists_position (hplace : IsMediaPlace place) (h : document.at? place = some media) :
    ∃ value ∈ positions document, ∃ entry ∈ value.entriesUnder "content", entry.2 = media := by
  suffices hvalue : ∃ value ∈ positions document, ∃ type, value.at? [.text "content", type] = some media by
    obtain ⟨value, hvalue, type, hmedia⟩ := hvalue
    obtain ⟨entry, hentry, heq⟩ := Datum.exists_of_at?_under hmedia
    exact ⟨value, hvalue, entry, hentry, Option.some.inj heq⟩
  rcases hplace with ⟨hpath, type⟩
  cases hpath with
  | body path method =>
      obtain ⟨methods, hmethods, h⟩ := Datum.exists_of_at?_under h
      obtain ⟨operation, hoperation, h⟩ := Datum.exists_of_at?_cons h
      obtain ⟨body, hbody, h⟩ := Datum.exists_of_at?_text_cons h
      refine ⟨body, ?_, type, h⟩
      have hentry : (methods.1, operation.2) ∈ operations document :=
        List.mem_flatMap.mpr ⟨methods, hmethods, List.mem_map_of_mem hoperation⟩
      exact List.mem_append_left _ (List.mem_flatMap.mpr ⟨_, hentry, by simp [operationPositions, hbody]⟩)
  | response path method status =>
      obtain ⟨methods, hmethods, h⟩ := Datum.exists_of_at?_under h
      obtain ⟨operation, hoperation, h⟩ := Datum.exists_of_at?_cons h
      obtain ⟨response, hresponse, h⟩ := Datum.exists_of_at?_under h
      refine ⟨response.2, ?_, type, h⟩
      have hentry : (methods.1, operation.2) ∈ operations document :=
        List.mem_flatMap.mpr ⟨methods, hmethods, List.mem_map_of_mem hoperation⟩
      refine List.mem_append_left _ (List.mem_flatMap.mpr ⟨_, hentry, ?_⟩)
      exact List.mem_append_right _ (List.mem_map_of_mem hresponse)
  | @component collection hcollection name =>
      obtain ⟨components, hcomponents, h⟩ := Datum.exists_of_at?_text_cons h
      obtain ⟨entry, hentry, h⟩ := Datum.exists_of_at?_under h
      refine ⟨entry.2, ?_, type, h⟩
      refine List.mem_append_right _ (List.mem_flatMap.mpr ⟨collection, ?_, List.mem_map_of_mem ?_⟩)
      · rcases hcollection with rfl | rfl
        all_goals simp
      · rw [Document.components, hcomponents]
        exact hentry

/-- The schema of a media type is a schema of the document. -/
theorem IsMediaPlace.hasSchema (hplace : IsMediaPlace place) (h : document.at? place = some media) {schema : Datum}
    (hschema : media.field? "schema" = some schema) : HasSchema document schema := by
  obtain ⟨value, hvalue, entry, hentry, rfl⟩ := hplace.exists_position h
  exact .content hvalue hentry hschema

end Schemas

end DocCompiler
