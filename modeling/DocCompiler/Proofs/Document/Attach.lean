import DocCompiler.Proofs.Document.Stock
import DocCompiler.Proofs.Document.Reached
import Mathlib.Data.Set.Card

/-!
Examples attached to the media types of a document. What each media type gets is settled by the document as it was: an
example that was put in before never stands where a later one is made from. So nothing but the missing examples is
added, taking them out again gives back the document, and there is nothing to add a second time.
-/

namespace DocCompiler

namespace Document

/-- A media type with an example. -/
def putExample (value : Datum) : Datum → Datum
  | .map entries => .map (Datum.insertEntry (.text "example") value entries)
  | media => media

/-- A media type without an example. -/
def dropExample : Datum → Datum
  | .map entries => .map (entries.filter fun entry => !entry.1.isText "example")
  | media => media

/-- A document with examples put in at the places of media types. -/
def withSamples (document : Datum) (samples : List (DatumPath × Sample)) : Datum :=
  samples.foldl (fun document entry => Datum.changeAt (putExample entry.2.value) entry.1 document) document

/-- A document without the examples of the media types at places. -/
def withoutExamples (document : Datum) (places : List DatumPath) : Datum :=
  places.foldr (fun place document => Datum.changeAt dropExample place document) document

/-- The media type at a place has a schema and no example. -/
def Wants (document : Datum) (place : DatumPath) (schema : List (Datum × Datum)) : Prop :=
  ∃ entries, document.at? place = some (.map entries) ∧ Datum.lookup (.text "example") entries = none ∧
    Datum.lookup (.text "schema") entries = some (.map schema)

/-- The example that the media type at a place is to get, with the place. -/
def sampleAt (document : Datum) (place : DatumPath) : Except ShapeError (Option (DatumPath × Sample)) :=
  match document.at? place with
  | none => .ok none
  | some media => do
      match ← wantsExample media with
      | none => return none
      | some schema =>
          return (← exampleFor (place ++ [.text "schema"]) schema document).map fun sample => (place, sample)

/-- A document whose media types are in order, and in which the examples for them depend on the schemas among the
components alone. -/
structure Fillable (document : Datum) : Prop where
  stocked : Stocked document
  agree : ∀ place entries schema, IsMediaPlace place → document.at? place = some (.map entries) →
    Datum.lookup (.text "schema") entries = some (.map schema) → ∀ path other,
      other.at? [.text "components", .text Collection.schemas.name] =
          document.at? [.text "components", .text Collection.schemas.name] →
        exampleFor path (.map schema) other = exampleFor path (.map schema) document

/-- Samples for places of media types that consist of texts. -/
def Placed (samples : List (DatumPath × Sample)) : Prop :=
  ∀ entry ∈ samples, IsMediaPlace entry.1 ∧ ∀ key ∈ entry.1, key.asText = key

end Document

open Annotation Document

section Media

variable {document value : Datum} {place : DatumPath} {entries schema : List (Datum × Datum)}

theorem lookup_putExample {name : String} (h : name ≠ "example") (value : Datum) (entries : List (Datum × Datum)) :
    Datum.lookup (.text name) (Datum.insertEntry (.text "example") value entries) =
      Datum.lookup (.text name) entries := by
  have hne : (Datum.text "example").sameKey (.text name) = false := by
    rw [Bool.eq_false_iff, Ne, Datum.sameKey_text]
    exact fun heq => h (Datum.text.inj heq).symm
  refine Datum.lookup_insertEntry_of_ne hne fun entry _ hsame => ?_
  rw [Datum.sameKey_text.mp hsame]
  exact hne

theorem isMedia_putExample (value : Datum) (media : Datum) (h : IsMedia media) : IsMedia (putExample value media) := by
  obtain ⟨entries, rfl, hdistinct, hentries⟩ := h
  refine ⟨_, rfl, hdistinct.insertEntry, fun entry hentry => ⟨?_, trivial⟩⟩
  rcases Datum.mem_insertEntry hentry with hold | ⟨-, hkey | ⟨old, hold, heq, -⟩⟩
  · exact (hentries entry hold).1
  · rw [hkey, Datum.asText_text]
  · exact heq ▸ (hentries old hold).1

/-- Taking out an example that was put in gives back a media type without one. -/
theorem dropExample_putExample (h : Datum.lookup (.text "example") entries = none) :
    dropExample (putExample value (.map entries)) = .map entries := by
  rw [putExample, Datum.insertEntry_of_lookup_eq_none h, dropExample, List.filter_append]
  have hkeep : entries.filter (fun entry => !entry.1.isText "example") = entries := by
    refine List.filter_eq_self.mpr fun entry hentry => ?_
    have hne := Datum.lookup_eq_none_iff.mp h entry hentry
    rw [Bool.not_eq_true', Datum.isText_eq_false_iff]
    intro heq
    rw [heq, Datum.sameKey_text.mpr rfl] at hne
    cases hne
  rw [hkeep]
  simp [Datum.isText, Datum.text?]

theorem Document.Wants.sampleAt (h : Wants document place schema) :
    Document.sampleAt document place =
      (exampleFor (place ++ [.text "schema"]) (.map schema) document).map
        (Option.map fun sample => (place, sample)) := by
  obtain ⟨entries, hmedia, hexample, hschema⟩ := h
  have hwants : wantsExample (.map entries) = .ok (some (.map schema)) := by
    rw [wantsExample, hexample, hschema]
    rfl
  simp only [Document.sampleAt, hmedia, hwants]
  rfl

theorem sampleAt_of_not_wants (hmedia : ∀ media, document.at? place = some media → IsMedia media)
    (h : ∀ schema, ¬ Wants document place schema) : sampleAt document place = .ok none := by
  unfold sampleAt
  split
  · rfl
  · next media hfound =>
    obtain ⟨entries, rfl, -⟩ := hmedia media hfound
    have hnone : wantsExample (.map entries) = .ok none := by
      rw [wantsExample]
      split
      · rfl
      · next hexample =>
        refine congrArg Except.ok (Option.filter_eq_none_iff.mpr fun value hvalue hmap => ?_)
        cases value with
        | map schema => exact h schema ⟨entries, hfound, Option.not_isSome_iff_eq_none.mp hexample, hvalue⟩
        | _ => cases hmap
    simp only [hnone]
    rfl

end Media

section Samples

variable {document : Datum} {samples : List (DatumPath × Sample)} {place path : DatumPath}

theorem withSamples_append (document : Datum) (first second : List (DatumPath × Sample)) :
    withSamples document (first ++ second) = withSamples (withSamples document first) second :=
  List.foldl_append

theorem at?_withSamples_of_apart (hplaced : Placed samples)
    (h : ∀ entry ∈ samples, ¬ entry.1 <+: path ∧ ¬ path <+: entry.1) :
    (withSamples document samples).at? path = document.at? path := by
  induction samples generalizing document with
  | nil => rfl
  | cons entry rest ih =>
      obtain ⟨⟨-, hkeys⟩, hplaced⟩ := List.forall_mem_cons.mp hplaced
      obtain ⟨hentry, hrest⟩ := List.forall_mem_cons.mp h
      exact (ih hplaced hrest).trans (Datum.at?_changeAt_of_apart hkeys hentry.1 hentry.2)

theorem at?_withSamples_schemas (hplaced : Placed samples) :
    (withSamples document samples).at? [.text "components", .text Collection.schemas.name] =
      document.at? [.text "components", .text Collection.schemas.name] :=
  at?_withSamples_of_apart hplaced fun entry hentry => (hplaced entry hentry).1.apart_schemas

/-- A media type that gets no example stays as it is. -/
theorem at?_withSamples_of_notMem (hplaced : Placed samples) (hplace : IsMediaPlace place)
    (h : place ∉ samples.map Prod.fst) : (withSamples document samples).at? place = document.at? place := by
  refine at?_withSamples_of_apart hplaced fun entry hentry => ?_
  have hne : entry.1 ≠ place := fun heq => h (heq ▸ List.mem_map_of_mem hentry)
  have hentry := (hplaced entry hentry).1
  exact ⟨fun hstart => hne (hentry.eq_of_isPrefix hplace hstart),
    fun hstart => hne (hplace.eq_of_isPrefix hentry hstart).symm⟩

theorem at?_withSamples_of_mem (hplaced : Placed samples) (hnodup : (samples.map Prod.fst).Nodup) {sample : Sample}
    (h : (place, sample) ∈ samples) :
    (withSamples document samples).at? place = (document.at? place).map (putExample sample.value) := by
  induction samples generalizing document with
  | nil => cases h
  | cons entry rest ih =>
      obtain ⟨⟨hplace, hkeys⟩, hrest⟩ := List.forall_mem_cons.mp hplaced
      obtain ⟨hfirst, hnodup⟩ := List.nodup_cons.mp hnodup
      rcases List.mem_cons.mp h with rfl | hmem
      · exact (at?_withSamples_of_notMem hrest hplace hfirst).trans (Datum.at?_changeAt_self _ _ _)
      · have hother : (withSamples document [entry]).at? place = document.at? place := by
          refine at?_withSamples_of_notMem (List.forall_mem_singleton.mpr ⟨hplace, hkeys⟩) (hrest _ hmem).1 ?_
          rw [List.map_singleton, List.mem_singleton]
          rintro rfl
          exact hfirst (List.mem_map.mpr ⟨_, hmem, rfl⟩)
        exact (ih hrest hnodup hmem).trans (congrArg _ hother)

/-- Whatever is neither on the way to a media type that gets an example nor in such an example stays as it is. -/
theorem at?_withSamples_of_kept (hplaced : Placed samples)
    (h : ∀ entry ∈ samples, ¬ path <+: entry.1 ∧ ¬ entry.1 ++ [.text "example"] <+: path) :
    (withSamples document samples).at? path = document.at? path := by
  induction samples generalizing document with
  | nil => rfl
  | cons entry rest ih =>
      obtain ⟨⟨-, hkeys⟩, hplaced⟩ := List.forall_mem_cons.mp hplaced
      obtain ⟨⟨hinside, hexample⟩, hrest⟩ := List.forall_mem_cons.mp h
      refine (ih hplaced hrest).trans ?_
      by_cases hstart : entry.1 <+: path
      · obtain ⟨tail, rfl⟩ := hstart
        cases tail with
        | nil => exact absurd (by simp) hinside
        | cons key tail =>
            -- Inside the media type only the entry of the example is touched.
            have hkey : key ≠ .text "example" := by
              rintro rfl
              exact hexample (by simp)
            rw [Datum.at?_changeAt_append, Datum.at?_append]
            refine congrArg _ (funext fun media => ?_)
            rw [Datum.at?_cons, Datum.at?_cons media]
            congr 1
            cases media with
            | map entries =>
                have hne : (Datum.text "example").sameKey key = false := by
                  rw [Bool.eq_false_iff, Ne, Datum.text_sameKey]
                  exact hkey
                refine Datum.lookup_insertEntry_of_ne hne fun other _ hsame => ?_
                rw [Datum.sameKey_text.mp hsame]
                exact hne
            | _ => rfl
      · exact Datum.at?_changeAt_of_apart hkeys hstart hinside

theorem stocked_withSamples (hplaced : Placed samples) (h : Stocked document) :
    Stocked (withSamples document samples) := by
  induction samples generalizing document with
  | nil => exact h
  | cons entry rest ih =>
      obtain ⟨⟨hplace, -⟩, hrest⟩ := List.forall_mem_cons.mp hplaced
      exact ih hrest (h.changeAt hplace (isMedia_putExample entry.2.value))

/-- Taking out the examples that were put in gives back the document. -/
theorem withoutExamples_withSamples (hplaced : Placed samples) (hnodup : (samples.map Prod.fst).Nodup)
    (hbare : ∀ entry ∈ samples, ∃ entries, document.at? entry.1 = some (.map entries) ∧
      Datum.lookup (.text "example") entries = none) :
    withoutExamples (withSamples document samples) (samples.map Prod.fst) = document := by
  induction samples generalizing document with
  | nil => rfl
  | cons entry rest ih =>
      obtain ⟨hfirst, hnodup⟩ := List.nodup_cons.mp hnodup
      obtain ⟨⟨entries, hentries, hnone⟩, hbare⟩ := List.forall_mem_cons.mp hbare
      have hplace : Placed [entry] := List.forall_mem_singleton.mpr (hplaced entry List.mem_cons_self)
      have hplaced := (List.forall_mem_cons.mp hplaced).2
      have hrest : withoutExamples (withSamples (withSamples document [entry]) rest) (rest.map Prod.fst) =
          withSamples document [entry] := by
        refine ih hplaced hnodup fun other hother => ?_
        rw [at?_withSamples_of_notMem hplace (hplaced other hother).1]
        · exact hbare other hother
        · rw [List.map_singleton, List.mem_singleton]
          exact fun heq => hfirst (heq ▸ List.mem_map_of_mem hother)
      calc
        withoutExamples (withSamples document (entry :: rest)) ((entry :: rest).map Prod.fst) =
            Datum.changeAt dropExample entry.1 (withSamples document [entry]) :=
          congrArg (Datum.changeAt dropExample entry.1) hrest
        _ = Datum.changeAt (dropExample ∘ putExample entry.2.value) entry.1 document :=
          Datum.changeAt_changeAt _ _ _ _
        _ = document := by
          refine Datum.changeAt_of_at? fun found hfound => ?_
          obtain rfl := Option.some.inj (hentries.symm.trans hfound)
          exact dropExample_putExample hnone

/-- As many examples are put in as there are media types that have one afterwards and had none before. -/
theorem length_eq_ncard (hplaced : Placed samples) (hnodup : (samples.map Prod.fst).Nodup)
    (hbare : ∀ entry ∈ samples, ∃ entries, document.at? entry.1 = some (.map entries) ∧
      Datum.lookup (.text "example") entries = none) :
    samples.length = { place | IsMediaPlace place ∧ document.at? (place ++ [.text "example"]) = none ∧
      ((withSamples document samples).at? (place ++ [.text "example"])).isSome = true }.ncard := by
  classical
  have hplaces : { place | IsMediaPlace place ∧ document.at? (place ++ [.text "example"]) = none ∧
      ((withSamples document samples).at? (place ++ [.text "example"])).isSome = true } =
        ((samples.map Prod.fst).toFinset : Set DatumPath) := by
    ext place
    simp only [Set.mem_ofPred_eq, List.coe_toFinset]
    constructor
    · rintro ⟨hplace, hbefore, hafter⟩
      by_contra hmem
      have hsame := @at?_withSamples_of_notMem document samples place hplaced hplace hmem
      rw [Datum.at?_append, hsame, ← Datum.at?_append, hbefore] at hafter
      cases hafter
    · intro hmem
      obtain ⟨entry, hentry, rfl⟩ := List.mem_map.mp hmem
      obtain ⟨entries, hentries, hnone⟩ := hbare entry hentry
      refine ⟨(hplaced entry hentry).1, ?_, ?_⟩
      · rw [Datum.at?_append, hentries]
        exact hnone
      · rw [Datum.at?_append, at?_withSamples_of_mem hplaced hnodup hentry, hentries]
        exact Option.isSome_iff_exists.mpr ⟨_, Datum.lookup_insertEntry_self (Datum.sameKey_text.mpr rfl)⟩
  calc
    samples.length = (samples.map Prod.fst).toFinset.card := by
      rw [List.toFinset_card_of_nodup hnodup, List.length_map]
    _ = _ := by rw [hplaces, Set.ncard_coe_finset]

end Samples

section Run

variable {document : Datum} {place : DatumPath} {samples : List (DatumPath × Sample)}

/-- What was attached, with one more example if there is one. -/
def Attached.add (attached : Attached) (found : Option (DatumPath × Sample)) : Attached :=
  { document := withSamples attached.document found.toList, samples := attached.samples ++ found.toList }

theorem Attached.add_none (attached : Attached) : attached.add none = attached := by
  rw [add, Option.toList_none, List.append_nil]
  rfl

/-- One step: the media type at a place gets the example that it is to get. -/
theorem attachAt_eq (attached : Attached) (place : DatumPath) :
    attachAt attached place = (sampleAt attached.document place).map attached.add := by
  unfold attachAt sampleAt
  cases attached.document.at? place with
  | none => exact congrArg Except.ok attached.add_none.symm
  | some media =>
      dsimp only
      cases wantsExample media with
      | error error => rfl
      | ok wanted =>
          cases wanted with
          | none => exact congrArg Except.ok attached.add_none.symm
          | some schema =>
              change exampleFor _ schema attached.document >>= _ = (exampleFor _ schema attached.document >>= _).map _
              cases exampleFor (place ++ [.text "schema"]) schema attached.document with
              | error error => rfl
              | ok found =>
                  cases found with
                  | none => exact congrArg Except.ok attached.add_none.symm
                  | some sample =>
                      refine congrArg (fun put => Except.ok (Attached.mk (Datum.changeAt put place attached.document)
                        (attached.samples ++ [(place, sample)]))) (funext fun media => ?_)
                      cases media <;> rfl

theorem eq_of_sampleAt {entry : DatumPath × Sample} (h : sampleAt document place = .ok (some entry)) :
    entry.1 = place := by
  unfold sampleAt at h
  split at h
  · cases h
  · next media _ =>
    obtain ⟨wanted, -, h⟩ := Result.bind_eq_ok_iff.mp h
    cases wanted with
    | none => cases h
    | some schema =>
        obtain ⟨found, -, h⟩ := Result.bind_eq_ok_iff.mp h
        obtain ⟨sample, -, rfl⟩ := Option.map_eq_some_iff.mp (Except.ok.inj h)
        rfl

namespace Document.Fillable

variable (h : Fillable document)

include h

/-- The media type at a place wants an example for its schema, or it gets none. -/
theorem sampleAt_cases (hplace : IsMediaPlace place) :
    (∃ schema, Wants document place schema ∧ sampleAt document place =
        (exampleFor (place ++ [.text "schema"]) (.map schema) document).map
          (Option.map fun sample => (place, sample))) ∨
      (∀ schema, ¬ Wants document place schema) ∧ sampleAt document place = .ok none := by
  by_cases hwants : ∃ schema, Wants document place schema
  · obtain ⟨schema, hwants⟩ := hwants
    exact .inl ⟨schema, hwants, hwants.sampleAt⟩
  · have hnone := not_exists.mp hwants
    exact .inr ⟨hnone, sampleAt_of_not_wants (fun media hmedia => (h.stocked.at? hplace hmedia).2) hnone⟩

/-- Examples that were put in elsewhere make no difference to the one that a media type is to get. -/
theorem sampleAt_withSamples (hplaced : Placed samples) (hplace : IsMediaPlace place)
    (hmem : place ∉ samples.map Prod.fst) :
    sampleAt (withSamples document samples) place = sampleAt document place := by
  have hsame := @at?_withSamples_of_notMem document samples place hplaced hplace hmem
  rcases h.sampleAt_cases hplace with ⟨schema, hwants, hsample⟩ | ⟨hnone, hsample⟩
  · obtain ⟨entries, hentries, hexample, hschema⟩ := hwants
    have hafter : Wants (withSamples document samples) place schema :=
      ⟨entries, hsame.trans hentries, hexample, hschema⟩
    rw [hafter.sampleAt, hsample,
      h.agree place entries schema hplace hentries hschema _ _ (at?_withSamples_schemas hplaced)]
  · rw [hsample]
    refine sampleAt_of_not_wants (fun media hfound => (h.stocked.at? hplace (hsame.symm.trans hfound)).2) ?_
    rintro schema ⟨entries, hentries, hrest⟩
    exact hnone schema ⟨entries, hsame.symm.trans hentries, hrest⟩

/-- A run over further places puts in what they are to get in the document as it was. -/
theorem foldlM_attachAt {places : List DatumPath}
    (hplaces : ∀ place ∈ places, IsMediaPlace place ∧ ∀ key ∈ place, key.asText = key)
    (hplaced : Placed samples) (hnodup : (samples.map Prod.fst ++ places).Nodup) :
    places.foldlM attachAt { document := withSamples document samples, samples } =
      (places.filterMapM (sampleAt document)).map fun found =>
        { document := withSamples document (samples ++ found), samples := samples ++ found } := by
  -- The samples so far grow along the run. They are at other places than the ones to come, so that no step sees them.
  induction places generalizing samples with
  | nil => simp [Except.map, pure, Except.pure]
  | cons place rest ih =>
      obtain ⟨⟨hplace, hkeys⟩, hlater⟩ := List.forall_mem_cons.mp hplaces
      have hmem : place ∉ samples.map Prod.fst := fun hmem =>
        (List.nodup_append.mp hnodup).2.2 place hmem place List.mem_cons_self rfl
      rw [List.foldlM_cons, attachAt_eq, h.sampleAt_withSamples hplaced hplace hmem, List.filterMapM_cons]
      cases hfound : sampleAt document place with
      | error error => rfl
      | ok found =>
          cases found with
          | none =>
              have hrest := ih hlater hplaced (hnodup.sublist ((List.sublist_cons_self _ _).append_left _))
              change rest.foldlM attachAt (Attached.add _ none) = _
              rw [Attached.add_none, hrest]
              rfl
          | some entry =>
              obtain rfl := eq_of_sampleAt hfound
              have hadd : Attached.add { document := withSamples document samples, samples } (some entry) =
                  { document := withSamples document (samples ++ [entry]), samples := samples ++ [entry] } :=
                congrArg₂ Attached.mk (withSamples_append document samples [entry]).symm rfl
              have hmore : Placed (samples ++ [entry]) :=
                List.forall_mem_append.mpr ⟨hplaced, List.forall_mem_singleton.mpr ⟨hplace, hkeys⟩⟩
              have hrest := ih hlater hmore (by simpa using hnodup)
              change rest.foldlM attachAt (Attached.add _ (some entry)) = _
              rw [hadd, hrest]
              cases rest.filterMapM (sampleAt document) with
              | error error => rfl
              | ok found => simp [Except.map, bind, Except.bind, pure, Except.pure]

theorem found_iff {place : DatumPath} :
    place ∈ (Places.ofDocument document).found ↔ IsMediaPlace place ∧ (document.at? place).isSome = true := by
  rw [(Places.covers_document h.stocked).mem_iff]
  constructor
  · rintro ⟨way, hway, hsome, rfl⟩
    exact ⟨hway, hsome⟩
  · rintro ⟨hplace, hsome⟩
    exact ⟨place, hplace, hsome, rfl⟩

theorem of_mem_found {place : DatumPath} (hplace : place ∈ (Places.ofDocument document).found) :
    IsMediaPlace place ∧ ∀ key ∈ place, key.asText = key := by
  obtain ⟨hplace, hsome⟩ := h.found_iff.mp hplace
  obtain ⟨media, hmedia⟩ := Option.isSome_iff_exists.mp hsome
  exact ⟨hplace, (h.stocked.at? hplace hmedia).1⟩

/-- Attaching examples puts in those that the media types of the document are to get. -/
theorem attachExamples_eq :
    attachExamples document = ((Places.ofDocument document).found.filterMapM (sampleAt document)).map fun found =>
      { document := withSamples document found, samples := found } := by
  have hcovers := Places.covers_document h.stocked
  have hrun := @foldlM_attachAt document [] h _ (fun place hplace => h.of_mem_found hplace) nofun hcovers.nodup
  simp only [attachExamples, hcovers.error]
  change ((Places.ofDocument document).found.foldlM attachAt { document := withSamples document [] }) >>= _ = _
  rw [hrun]
  cases (Places.ofDocument document).found.filterMapM (sampleAt document) <;> rfl

end Document.Fillable

end Run

section Filled

/-- What attaching examples does to a document: it meets every media type; those with a schema and without an example
get the one that is made for the schema, if there is one, and nothing else changes; and there is nothing to add when it
is done again. -/
structure Document.Filled (document : Datum) (attached : Attached) : Prop where
  met : ∀ place, place ∈ (Places.ofDocument document).found ↔
    IsMediaPlace place ∧ (document.at? place).isSome = true
  samples : ∀ place sample, (place, sample) ∈ attached.samples ↔ IsMediaPlace place ∧ ∃ schema,
    Wants document place schema ∧ exampleFor (place ++ [.text "schema"]) (.map schema) document = .ok (some sample)
  added : ∀ entry ∈ attached.samples, ∃ entries, document.at? entry.1 = some (.map entries) ∧
    attached.document.at? entry.1 = some (.map (entries ++ [(.text "example", entry.2.value)]))
  kept : ∀ path, (∀ entry ∈ attached.samples, ¬ path <+: entry.1 ∧ ¬ entry.1 ++ [.text "example"] <+: path) →
    attached.document.at? path = document.at? path
  count : attached.samples.length = { place | IsMediaPlace place ∧ document.at? (place ++ [.text "example"]) = none ∧
    (attached.document.at? (place ++ [.text "example"])).isSome = true }.ncard
  restored : withoutExamples attached.document (attached.samples.map Prod.fst) = document
  again : attachExamples attached.document = .ok { document := attached.document }

variable {document : Datum} {samples : List (DatumPath × Sample)} {attached : Attached}

theorem exists_of_putExample {value media : Datum} {entries : List (Datum × Datum)}
    (h : putExample value media = .map entries) :
    ∃ before, media = .map before ∧ entries = Datum.insertEntry (.text "example") value before := by
  cases media with
  | map before => exact ⟨before, rfl, (Datum.map.inj h).symm⟩
  | _ => cases h

namespace Document.Fillable

theorem withSamples (h : Fillable document) (hplaced : Placed samples) (hnodup : (samples.map Prod.fst).Nodup) :
    Fillable (Document.withSamples document samples) := by
  refine ⟨stocked_withSamples hplaced h.stocked, ?_⟩
  intro place entries schema hplace hentries hschema path other hother
  have hbefore : ∃ before, document.at? place = some (.map before) ∧
      Datum.lookup (.text "schema") before = some (.map schema) := by
    by_cases hmem : place ∈ samples.map Prod.fst
    · obtain ⟨entry, hentry, rfl⟩ := List.mem_map.mp hmem
      rw [at?_withSamples_of_mem hplaced hnodup hentry] at hentries
      obtain ⟨media, hmedia, hput⟩ := Option.map_eq_some_iff.mp hentries
      obtain ⟨before, rfl, rfl⟩ := exists_of_putExample hput
      rw [lookup_putExample (by decide)] at hschema
      exact ⟨before, hmedia, hschema⟩
    · rw [at?_withSamples_of_notMem hplaced hplace hmem] at hentries
      exact ⟨entries, hentries, hschema⟩
  obtain ⟨before, hmedia, hschema⟩ := hbefore
  have hagree := h.agree place before schema hplace hmedia hschema path
  have hschemas := @at?_withSamples_schemas document samples hplaced
  rw [hagree other (hother.trans hschemas), hagree _ hschemas]

variable (h : Fillable document)

include h

theorem placed_of_filterMapM
    (hsamples : (Places.ofDocument document).found.filterMapM (sampleAt document) = .ok samples) :
    Placed samples ∧ (samples.map Prod.fst).Nodup := by
  constructor
  · intro entry hentry
    obtain ⟨place, hplace, hfound⟩ := (Result.mem_filterMapM hsamples).mp hentry
    rw [eq_of_sampleAt hfound]
    exact h.of_mem_found hplace
  · exact (Places.covers_document h.stocked).nodup.sublist
      (Result.sublist_filterMapM hsamples fun place entry hfound => eq_of_sampleAt hfound)

/-- A second time there is nothing to add. -/
theorem filterMapM_withSamples
    (hsamples : (Places.ofDocument document).found.filterMapM (sampleAt document) = .ok samples) :
    (Places.ofDocument (Document.withSamples document samples)).found.filterMapM
      (sampleAt (Document.withSamples document samples)) = .ok [] := by
  obtain ⟨hplaced, hnodup⟩ := h.placed_of_filterMapM hsamples
  have hfilled := h.withSamples hplaced hnodup
  refine Result.filterMapM_eq_nil fun place hplace => ?_
  obtain ⟨hplace, hsome⟩ := hfilled.found_iff.mp hplace
  -- A place that got an example wants none; any other is as it was, and it got none then.
  by_cases hmem : place ∈ samples.map Prod.fst
  · obtain ⟨entry, hentry, rfl⟩ := List.mem_map.mp hmem
    refine sampleAt_of_not_wants (fun media hmedia => (hfilled.stocked.at? hplace hmedia).2) ?_
    rintro schema ⟨entries, hentries, hnone, -⟩
    rw [at?_withSamples_of_mem hplaced hnodup hentry] at hentries
    obtain ⟨media, -, hput⟩ := Option.map_eq_some_iff.mp hentries
    obtain ⟨before, rfl, rfl⟩ := exists_of_putExample hput
    rw [Datum.lookup_insertEntry_self (Datum.sameKey_text.mpr rfl)] at hnone
    cases hnone
  · rw [at?_withSamples_of_notMem hplaced hplace hmem] at hsome
    rw [h.sampleAt_withSamples hplaced hplace hmem]
    have hfound := h.found_iff.mpr ⟨hplace, hsome⟩
    obtain ⟨found, hresult⟩ := Result.ok_of_filterMapM hsamples hfound
    cases found with
    | none => exact hresult
    | some entry =>
        refine absurd (List.mem_map.mpr ⟨entry, ?_, eq_of_sampleAt hresult⟩) hmem
        exact (Result.mem_filterMapM hsamples).mpr ⟨place, hfound, hresult⟩

theorem mem_samples_iff
    (hsamples : (Places.ofDocument document).found.filterMapM (sampleAt document) = .ok samples) {place : DatumPath}
    {sample : Sample} :
    (place, sample) ∈ samples ↔ IsMediaPlace place ∧ ∃ schema, Wants document place schema ∧
      exampleFor (place ++ [.text "schema"]) (.map schema) document = .ok (some sample) := by
  rw [Result.mem_filterMapM hsamples]
  constructor
  · rintro ⟨other, hother, hfound⟩
    obtain rfl : place = other := eq_of_sampleAt hfound
    obtain ⟨hplace, -⟩ := h.found_iff.mp hother
    refine ⟨hplace, ?_⟩
    rcases h.sampleAt_cases hplace with ⟨schema, hwants, hsample⟩ | ⟨-, hsample⟩
    · rw [hsample] at hfound
      obtain ⟨found, hmade, heq⟩ := Result.map_eq_ok_iff.mp hfound
      obtain ⟨made, rfl, hsame⟩ := Option.map_eq_some_iff.mp heq
      obtain rfl := (Prod.mk.inj hsame).2
      exact ⟨schema, hwants, hmade⟩
    · cases hsample.symm.trans hfound
  · rintro ⟨hplace, schema, hwants, hfound⟩
    refine ⟨place, h.found_iff.mpr ⟨hplace, ?_⟩, ?_⟩
    · obtain ⟨entries, hentries, -⟩ := hwants
      rw [hentries]
      rfl
    · rw [hwants.sampleAt, hfound]
      rfl

/-- A run that comes to an end adds what is missing and nothing else. -/
theorem filled (hattached : attachExamples document = .ok attached) : Filled document attached := by
  rw [h.attachExamples_eq] at hattached
  obtain ⟨samples, hsamples, rfl⟩ := Result.map_eq_ok_iff.mp hattached
  obtain ⟨hplaced, hnodup⟩ := h.placed_of_filterMapM hsamples
  have hfilled := h.withSamples hplaced hnodup
  have hwants {entry : DatumPath × Sample} (hentry : entry ∈ samples) :
      ∃ entries, document.at? entry.1 = some (.map entries) ∧ Datum.lookup (.text "example") entries = none := by
    obtain ⟨-, schema, ⟨entries, hentries, hnone, -⟩, -⟩ := (h.mem_samples_iff hsamples).mp hentry
    exact ⟨entries, hentries, hnone⟩
  refine
    { met := fun place => h.found_iff
      samples := fun place sample => h.mem_samples_iff hsamples
      added := fun entry hentry => ?_
      kept := fun path hpath => at?_withSamples_of_kept hplaced hpath
      count := length_eq_ncard hplaced hnodup fun entry hentry => hwants hentry
      restored := withoutExamples_withSamples hplaced hnodup fun entry hentry => hwants hentry
      again := ?_ }
  · obtain ⟨entries, hentries, hnone⟩ := hwants hentry
    refine ⟨entries, hentries, ?_⟩
    rw [at?_withSamples_of_mem hplaced hnodup hentry, hentries, Option.map_some, putExample,
      Datum.insertEntry_of_lookup_eq_none hnone]
  · rw [hfilled.attachExamples_eq, h.filterMapM_withSamples hsamples]
    rfl

/-- A run that fails does so where an example is made for a media type that lacks one. -/
theorem exists_of_error {error : ShapeError} (herror : attachExamples document = .error error) :
    ∃ place schema, IsMediaPlace place ∧ Wants document place schema ∧
      exampleFor (place ++ [.text "schema"]) (.map schema) document = .error error := by
  rw [h.attachExamples_eq] at herror
  obtain ⟨place, hfound, herror⟩ := Result.filterMapM_eq_error (Result.map_eq_error_iff.mp herror)
  obtain ⟨hplace, -⟩ := h.found_iff.mp hfound
  rcases h.sampleAt_cases hplace with ⟨schema, hwants, hsample⟩ | ⟨-, hsample⟩
  · rw [hsample] at herror
    exact ⟨place, schema, hplace, hwants, Result.map_eq_error_iff.mp herror⟩
  · cases hsample.symm.trans herror

end Document.Fillable

end Filled

section Accepting

variable {units : List AnnotatedUnit} {overrides : Overrides} {model : Model} {version : String} {document : Datum}

theorem Datum.at?_pair (value : Datum) (first second : String) :
    value.at? [.text first, .text second] = (value.field? first).bind (Datum.field? second) := by
  rw [Datum.at?_cons, Datum.at?_text_singleton]
  exact congrArg _ (funext fun item => Datum.at?_text_singleton item second)

/-- The documents of models that hold together are in order for examples. -/
theorem Model.Closed.fillable (h : model.Closed Terms.typed) (hdocument : Layout.document model version = .ok document)
    (hfinite : Walk.All Part.HasFiniteMinimum model.walk) : Fillable document := by
  refine ⟨Layout.stocked_document h.fits Terms.asText_of_typed hdocument, ?_⟩
  intro place entries schema hplace hentries hschema path other hother
  rw [Datum.at?_pair, Datum.at?_pair] at hother
  have hmedia : HasSchema document (.map schema) := hplace.hasSchema hentries hschema
  exact h.exampleFor_eq hdocument hfinite hmedia path hother

/-- Examples are attached to the document of an accepted model with finite least values, which adds those that are
missing and nothing else, unless one is made from the least value of a schema of numbers that is beyond all
double-precision ones. -/
theorem Accepted.filled_or_outOfRange (h : Accepted units overrides model) (htyped : ∀ unit ∈ units, unit.WellTyped)
    (hfinite : Walk.All Part.HasFiniteMinimum model.walk) (version : String) :
    ∃ document, Layout.document model version = .ok document ∧
      ((∃ attached, attachExamples document = .ok attached ∧ Filled document attached) ∨
        attachExamples document = .error .outOfRange ∧
          ∃ place schema last, IsMediaPlace place ∧ Wants document place schema ∧
            Relation.ReflTransGen (Visit.Next document) ⟨[], place ++ [.text "schema"], schema⟩ last ∧
              isOfKind last.schema "number" = true ∧ HasHugeMinimum last.schema) := by
  have hclosed := h.closed_typed htyped
  obtain ⟨document, hdocument⟩ := hclosed.fits.layout version
  have hfillable := hclosed.fillable hdocument hfinite
  refine ⟨document, hdocument, ?_⟩
  cases hattached : attachExamples document with
  | ok attached => exact .inl ⟨attached, rfl, hfillable.filled hattached⟩
  | error error =>
      obtain ⟨place, schema, hplace, hwants, hmade⟩ := hfillable.exists_of_error hattached
      obtain ⟨entries, hentries, -, hschema⟩ := id hwants
      have hmedia : HasSchema document (.map schema) := hplace.hasSchema hentries hschema
      rcases hclosed.exampleFor_cases hdocument hfinite hmedia (place ++ [.text "schema"]) with hfound | hbeyond
      · obtain ⟨found, hfound⟩ := hfound
        cases hfound.symm.trans hmade
      · obtain ⟨herror, last, hlast, hhuge⟩ := hbeyond
        obtain rfl := Except.error.inj (hmade.symm.trans herror)
        exact .inr ⟨rfl, place, schema, last, hplace, hwants, hlast, hhuge⟩

end Accepting

namespace Orders

/-- A property with a least value. -/
def price (minimum : Int) : Node :=
  { Pets.node "Property" [] [] with
    attributes := [(.text "property", .string "price"), (.text "type", .string "number"),
      (.text "minimum", .leaf .number (.int minimum))] }

/-- A source with an operation that takes orders and answers with them. -/
def units (minimum : Int) : List AnnotatedUnit :=
  [{ identity := "orders", fingerprint := "", blocks := [
      { symbol := .ofFile "orders"
        nodes := [
          Pets.node "Info" [("title", "Orders"), ("version", "1")] [],
          Pets.node "Schema" [("schema", "Order")] [
            price minimum,
            Pets.node "Property" [("property", "note"), ("type", "string")] []]] },
      { symbol := { kind := .method, name := .text "place", qualifiedName := .text "Orders.place" }
        nodes := [
          Pets.node "Post" [("path", "/orders")] [
            Pets.node "RequestBody" [] [
              Pets.node "MediaType" [("mediaType", "application/json"), ("example", "none")] [
                Pets.node "Schema" [("ref", "Order")] []]],
            Pets.node "Response" [("response", "201"), ("description", "Placed")] [
              Pets.node "MediaType" [("mediaType", "application/json")] [
                Pets.node "Schema" [("ref", "Order")] []]]]] }] }]

/-- The model of the source. -/
def model (minimum : Int) : Model :=
  (accept? (units minimum) {}).getD {}

/-- How many examples are attached to the document of the source. -/
def added (minimum : Int) : Option (Except ShapeError Nat) :=
  (Layout.document (model minimum) "3.0.3").toOption.map fun document =>
    (attachExamples document).map fun attached => attached.samples.length

variable {minimum : Int}

theorem accepted (h : (accept? (units minimum) {}).isSome = true) : Accepted (units minimum) {} (model minimum) :=
  accepted_getD {} h

theorem wellTyped : ∀ unit ∈ units minimum, unit.WellTyped := by
  have htext (text : String) : LeafKind.Fits .string (.text text) :=
    ⟨_, (Datum.ofCodes_toList text).symm⟩
  have hprice : (price minimum).Leaves LeafKind.Fits := by
    refine (Node.leaves_iff _).mpr ⟨?_, nofun⟩
    simp only [price, List.forall_mem_cons]
    exact ⟨htext "price", htext "number", ⟨_, rfl⟩, nofun⟩
  simp only [units, List.forall_mem_singleton]
  rintro block (_ | ⟨_, _ | ⟨_, hnone⟩⟩)
  · refine ⟨htext _, htext _, fun found hfound => ?_⟩
    simp only [List.mem_cons, List.not_mem_nil, or_false] at hfound
    rcases hfound with rfl | rfl
    · simp [Pets.leaves_node]
    · simp [Pets.leaves_node, hprice]
  · refine ⟨htext _, htext _, fun found hfound => ?_⟩
    obtain rfl := List.mem_singleton.mp hfound
    simp [Pets.leaves_node]
  · cases hnone

theorem added_eq {document : Datum} (h : Layout.document (model minimum) "3.0.3" = .ok document) :
    added minimum = some ((attachExamples document).map fun attached => attached.samples.length) := by
  rw [added, h]
  rfl

end Orders

/-- The answer gets an example; the body has one. -/
theorem filled_orders :
    ∃ document, Layout.document (Orders.model 5) "3.0.3" = .ok document ∧
      ∃ attached, attachExamples document = .ok attached ∧ Filled document attached ∧ attached.samples.length = 1 := by
  have hadded : Orders.added 5 = some (.ok 1) := by decide +kernel
  obtain ⟨document, hdocument, hfilled⟩ :=
    Accepted.filled_or_outOfRange (Orders.accepted (by decide +kernel)) Orders.wellTyped
      (show Walk.All Part.HasFiniteMinimum (Orders.model 5).walk by decide +kernel) "3.0.3"
  have hresult := Option.some.inj ((Orders.added_eq hdocument).symm.trans hadded)
  refine ⟨document, hdocument, ?_⟩
  rcases hfilled with ⟨attached, hattached, hfilled⟩ | ⟨herror, -⟩
  · rw [hattached] at hresult
    exact ⟨attached, hattached, hfilled, Except.ok.inj hresult⟩
  · rw [herror] at hresult
    cases hresult

/-- Orders whose least price is a power of ten beyond all double-precision numbers get no example. -/
theorem Accepted.not_attached_of_huge :
    ¬ ∀ (units : List AnnotatedUnit) (overrides : Overrides) (model : Model), Accepted units overrides model →
      (∀ unit ∈ units, unit.WellTyped) → Walk.All Part.HasFiniteMinimum model.walk →
        ∀ document, Layout.document model "3.0.3" = .ok document →
          ∃ attached, attachExamples document = .ok attached := by
  intro hall
  have hadded : Orders.added (10 ^ 400) = some (.error .outOfRange) := by decide +kernel
  cases hdocument : Layout.document (Orders.model (10 ^ 400)) "3.0.3" with
  | error error =>
      rw [Orders.added, hdocument] at hadded
      cases hadded
  | ok document =>
      obtain ⟨attached, hattached⟩ := hall _ _ _ (Orders.accepted (by decide +kernel)) Orders.wellTyped
        (show Walk.All Part.HasFiniteMinimum (Orders.model (10 ^ 400)).walk by decide +kernel) document hdocument
      have hresult := Option.some.inj ((Orders.added_eq hdocument).symm.trans hadded)
      rw [hattached] at hresult
      cases hresult

end DocCompiler
