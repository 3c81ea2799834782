import DocCompiler.Proofs.Document.At
import DocCompiler.Document.Part
import Mathlib.Data.List.Nodup

/-!
The places of media types: in the content of the bodies and responses of operations and of components. The walk over a
document whose levels down to these places are mappings meets each of them once, and nothing else.
-/

namespace DocCompiler

/-- A path where content may stand: in the body or in a response of an operation, and in a component that is one. -/
inductive HoldsContent : DatumPath → Prop
  | body (path method : Datum) : HoldsContent [.text "paths", path, method, .text "requestBody"]
  | response (path method status : Datum) :
      HoldsContent [.text "paths", path, method, .text "responses", status]
  | component {collection : Collection} (h : collection = .requestBodies ∨ collection = .responses) (name : Datum) :
      HoldsContent [.text "components", .text collection.name, name]

/-- The path of a media type. -/
inductive IsMediaPlace : DatumPath → Prop
  | content {path : DatumPath} (h : HoldsContent path) (type : Datum) : IsMediaPlace (path ++ [.text "content", type])

/-- No media type stands in another one. -/
theorem IsMediaPlace.eq_of_isPrefix {place other : DatumPath} (hplace : IsMediaPlace place)
    (hother : IsMediaPlace other) (h : place <+: other) : place = other := by
  rcases hplace with ⟨hfirst, _⟩
  rcases hother with ⟨hsecond, _⟩
  cases hfirst with
  | body =>
      cases hsecond with
      | body => exact h.eq_of_length rfl
      | response => simp [List.cons_prefix_cons] at h
      | component => simp [List.cons_prefix_cons] at h
  | response =>
      cases hsecond with
      | body => simp [List.cons_prefix_cons] at h
      | response => exact h.eq_of_length rfl
      | component => simp [List.cons_prefix_cons] at h
  | component =>
      cases hsecond with
      | body => simp [List.cons_prefix_cons] at h
      | response => simp [List.cons_prefix_cons] at h
      | component => exact h.eq_of_length rfl

theorem IsMediaPlace.apart_schemas {place : DatumPath} (h : IsMediaPlace place) :
    ¬ place <+: [.text "components", .text Collection.schemas.name] ∧
      ¬ [.text "components", .text Collection.schemas.name] <+: place := by
  rcases h with ⟨hpath, type⟩
  cases hpath with
  | body => simp [List.cons_prefix_cons]
  | response => simp [List.cons_prefix_cons]
  | component hcollection =>
      rcases hcollection with rfl | rfl
      all_goals simp [List.cons_prefix_cons, Collection.name]

namespace Datum

/-- A mapping with distinct texts as keys, and with values that go by their keys. -/
def MapsTo (holds : Datum → Datum → Prop) (value : Datum) : Prop :=
  ∃ entries, value = .map entries ∧ Distinct entries ∧
    ∀ entry ∈ entries, entry.1.asText = entry.1 ∧ holds entry.1 entry.2

section MapsTo

variable {holds : Datum → Datum → Prop} {value key found : Datum} {path : DatumPath}

/-- The first step of a path that leads to something in a mapping. -/
theorem MapsTo.at?_cons (h : value.MapsTo holds) (hfound : value.at? (key :: path) = some found) :
    key.asText = key ∧ ∃ item, holds key item ∧ item.at? path = some found := by
  obtain ⟨entries, rfl, -, hentries⟩ := h
  rw [Datum.at?_cons, at?_map_singleton] at hfound
  obtain ⟨item, hitem, hfound⟩ := Option.bind_eq_some_iff.mp hfound
  obtain ⟨hkey, hholds⟩ := hentries _ (mem_of_lookup (fun entry hentry => (hentries entry hentry).1) hitem)
  exact ⟨hkey, item, hholds, hfound⟩

/-- A change further on leaves a mapping as it is when it keeps the kind of the value under the first key. -/
theorem MapsTo.changeAt {change : Datum → Datum} (h : value.MapsTo holds)
    (hchange : ∀ item, holds key item → holds key (Datum.changeAt change path item)) :
    (Datum.changeAt change (key :: path) value).MapsTo holds := by
  obtain ⟨entries, rfl, hdistinct, hentries⟩ := h
  refine ⟨_, rfl, ?_, fun entry hentry => ?_⟩
  · rw [distinct_iff_keys, keys_changeEntry]
    exact distinct_iff_keys.mp hdistinct
  · rcases mem_changeEntry hentry with hold | ⟨item, hitem, hsame, hnew⟩
    · exact hentries entry hold
    · obtain ⟨hkey, hholds⟩ := hentries _ hitem
      have heq := (sameKey_iff_eq (.inl hkey)).mp hsame
      dsimp only at heq hholds
      rw [heq] at hholds
      exact ⟨hkey, heq ▸ hnew ▸ hchange item hholds⟩

end MapsTo

end Datum

namespace Document

/-- A media type: a mapping. -/
def IsMedia (value : Datum) : Prop :=
  value.MapsTo fun _ _ => True

/-- A mapping in which media types stand under their names when it has content. -/
def IsHolder (value : Datum) : Prop :=
  value.MapsTo fun key item => key = .text "content" → item.MapsTo fun _ => IsMedia

/-- An operation, as far as media types go. -/
def IsOperation (value : Datum) : Prop :=
  value.MapsTo fun key item =>
    (key = .text "requestBody" → IsHolder item) ∧ (key = .text "responses" → item.MapsTo fun _ => IsHolder)

/-- Components, as far as media types go. -/
def AreComponents (value : Datum) : Prop :=
  value.MapsTo fun key entries =>
    ∀ collection : Collection, collection = .requestBodies ∨ collection = .responses →
      key = .text collection.name → entries.MapsTo fun _ => IsHolder

/-- A document in which everything on the way to media types is a mapping. -/
def Stocked (document : Datum) : Prop :=
  document.MapsTo fun key item =>
    (key = .text "paths" → item.MapsTo fun _ methods => methods.MapsTo fun _ => IsOperation) ∧
      (key = .text "components" → AreComponents item)

section Stocked

variable {document value found type : Datum} {place : DatumPath} {put : Datum → Datum}

theorem IsHolder.at? (h : IsHolder value) (hfound : value.at? [.text "content", type] = some found) :
    type.asText = type ∧ IsMedia found := by
  obtain ⟨-, content, hcontent, hfound⟩ := h.at?_cons hfound
  obtain ⟨htype, media, hmedia, hfound⟩ := (hcontent rfl).at?_cons hfound
  obtain rfl := Option.some.inj hfound
  exact ⟨htype, hmedia⟩

/-- The place of a media type consists of texts, and a mapping stands there. -/
theorem Stocked.at? (h : Stocked document) (hplace : IsMediaPlace place) (hfound : document.at? place = some found) :
    (∀ key ∈ place, key.asText = key) ∧ IsMedia found := by
  rcases hplace with ⟨hpath, type⟩
  cases hpath with
  | body path method =>
      obtain ⟨-, paths, ⟨hpaths, -⟩, hfound⟩ := h.at?_cons hfound
      obtain ⟨hpath, methods, hmethods, hfound⟩ := (hpaths rfl).at?_cons hfound
      obtain ⟨hmethod, operation, hoperation, hfound⟩ := hmethods.at?_cons hfound
      obtain ⟨-, body, ⟨hbody, -⟩, hfound⟩ := hoperation.at?_cons hfound
      obtain ⟨htype, hmedia⟩ := (hbody rfl).at? hfound
      refine ⟨?_, hmedia⟩
      simp [hpath, hmethod, htype, Datum.asText_text]
  | response path method status =>
      obtain ⟨-, paths, ⟨hpaths, -⟩, hfound⟩ := h.at?_cons hfound
      obtain ⟨hpath, methods, hmethods, hfound⟩ := (hpaths rfl).at?_cons hfound
      obtain ⟨hmethod, operation, hoperation, hfound⟩ := hmethods.at?_cons hfound
      obtain ⟨-, responses, ⟨-, hresponses⟩, hfound⟩ := hoperation.at?_cons hfound
      obtain ⟨hstatus, response, hresponse, hfound⟩ := (hresponses rfl).at?_cons hfound
      obtain ⟨htype, hmedia⟩ := hresponse.at? hfound
      refine ⟨?_, hmedia⟩
      simp [hpath, hmethod, hstatus, htype, Datum.asText_text]
  | component hcollection name =>
      obtain ⟨-, components, ⟨-, hcomponents⟩, hfound⟩ := h.at?_cons hfound
      obtain ⟨-, entries, hentries, hfound⟩ := (hcomponents rfl).at?_cons hfound
      obtain ⟨hname, entry, hentry, hfound⟩ := (hentries _ hcollection rfl).at?_cons hfound
      obtain ⟨htype, hmedia⟩ := hentry.at? hfound
      refine ⟨?_, hmedia⟩
      simp [hname, htype, Datum.asText_text]

theorem IsHolder.changeAt (h : IsHolder value) (hput : ∀ media, IsMedia media → IsMedia (put media)) :
    IsHolder (Datum.changeAt put [.text "content", type] value) :=
  Datum.MapsTo.changeAt h fun _ hcontent hkey => (hcontent hkey).changeAt hput

/-- A document stays in order when a media type is changed into one. -/
theorem Stocked.changeAt (h : Stocked document) (hplace : IsMediaPlace place)
    (hput : ∀ media, IsMedia media → IsMedia (put media)) : Stocked (Datum.changeAt put place document) := by
  rcases hplace with ⟨hpath, type⟩
  cases hpath with
  | body path method =>
      refine Datum.MapsTo.changeAt h fun paths hpaths => ⟨fun hkey => ?_, by simp⟩
      refine (hpaths.1 hkey).changeAt fun methods hmethods => hmethods.changeAt fun operation hoperation => ?_
      exact Datum.MapsTo.changeAt hoperation fun body hbody => ⟨fun hkey => (hbody.1 hkey).changeAt hput, by simp⟩
  | response path method status =>
      refine Datum.MapsTo.changeAt h fun paths hpaths => ⟨fun hkey => ?_, by simp⟩
      refine (hpaths.1 hkey).changeAt fun methods hmethods => hmethods.changeAt fun operation hoperation => ?_
      refine Datum.MapsTo.changeAt hoperation fun responses hresponses => ⟨by simp, fun hkey => ?_⟩
      exact (hresponses.2 hkey).changeAt fun response hresponse => hresponse.changeAt hput
  | component hcollection name =>
      refine Datum.MapsTo.changeAt h fun components hcomponents => ⟨by simp, fun hkey => ?_⟩
      refine Datum.MapsTo.changeAt (hcomponents.2 hkey) fun entries hentries collection hcollection hname => ?_
      exact (hentries collection hcollection hname).changeAt fun entry hentry => hentry.changeAt hput

end Stocked

end Document

namespace Places

section Covers

variable {α : Type} {values : List α} {path : DatumPath} {value : Datum} {holds : Datum → Datum → Prop}

theorem each_eq {places : α → Places} (h : ∀ value ∈ values, (places value).error = none) :
    each values places = { found := values.flatMap fun value => (places value).found } := by
  induction values with
  | nil => rfl
  | cons first rest ih =>
      obtain ⟨hfirst, hrest⟩ := List.forall_mem_cons.mp h
      change (places first).andThen (each rest places) = _
      rw [ih hrest, andThen, hfirst, List.flatMap_cons]

/-- Places that are met without an error: each once, and those that lead on from a path by some of the ways to
something. -/
structure Covers (places : Places) (path : DatumPath) (value : Datum) (ways : DatumPath → Prop) : Prop where
  error : places.error = none
  nodup : places.found.Nodup
  mem_iff : ∀ place, place ∈ places.found ↔ ∃ way, ways way ∧ (value.at? way).isSome = true ∧ place = path ++ way

theorem Covers.congr {places : Places} {ways other : DatumPath → Prop} (h : Covers places path value ways)
    (hways : ∀ way, ways way ↔ other way) : Covers places path value other := by
  obtain rfl : ways = other := funext fun way => propext (hways way)
  exact h

theorem Covers.andThen {first second : Places} {ways other : DatumPath → Prop} (h : Covers first path value ways)
    (hother : Covers second path value other) (hdisjoint : ∀ way, ways way → ¬ other way) :
    Covers (first.andThen second) path value fun way => ways way ∨ other way := by
  rw [Places.andThen, h.error]
  refine ⟨hother.error, List.nodup_append.mpr ⟨h.nodup, hother.nodup, ?_⟩, fun place => ?_⟩
  · rintro place hfirst _ hsecond rfl
    obtain ⟨way, hway, -, rfl⟩ := (h.mem_iff place).mp hfirst
    obtain ⟨same, hsame, -, heq⟩ := (hother.mem_iff _).mp hsecond
    obtain rfl := List.append_cancel_left heq
    exact hdisjoint way hway hsame
  · rw [List.mem_append, h.mem_iff, hother.mem_iff]
    constructor
    · rintro (⟨way, hway, hsome⟩ | ⟨way, hway, hsome⟩)
      · exact ⟨way, .inl hway, hsome⟩
      · exact ⟨way, .inr hway, hsome⟩
    · rintro ⟨way, hway | hway, hsome⟩
      · exact .inl ⟨way, hway, hsome⟩
      · exact .inr ⟨way, hway, hsome⟩

theorem Covers.inside {places : DatumPath → Datum → Places} {ways : DatumPath → Prop} (h : value.MapsTo holds)
    (hplaces : ∀ key item, holds key item → Covers (places (path ++ [key]) item) (path ++ [key]) item ways) :
    Covers (inside path (some value) places) path value fun way => ∃ key rest, way = key :: rest ∧ ways rest := by
  obtain ⟨entries, rfl, hdistinct, hentries⟩ := h
  have hcovers (entry : Datum × Datum) (hentry : entry ∈ entries) :=
    hplaces entry.1 entry.2 (hentries entry hentry).2
  have heach : Places.inside path (some (.map entries)) places =
      each entries fun entry => places (path ++ [entry.1]) entry.2 := by
    cases entries with
    | nil => rfl
    | cons entry rest => rfl
  rw [heach, each_eq fun entry hentry => (hcovers entry hentry).error]
  refine ⟨rfl, List.nodup_flatMap.mpr ⟨fun entry hentry => (hcovers entry hentry).nodup, ?_⟩, fun place => ?_⟩
  · -- Places under two keys go on from the path by the one and by the other.
    refine hdistinct.imp_of_mem fun {first second} hfirst hsecond hne place hplace hother => ?_
    obtain ⟨way, -, -, rfl⟩ := ((hcovers first hfirst).mem_iff place).mp hplace
    obtain ⟨same, -, -, heq⟩ := ((hcovers second hsecond).mem_iff _).mp hother
    rw [List.append_assoc, List.append_assoc] at heq
    have hkey : first.1 = second.1 := (List.cons.inj (List.append_cancel_left heq)).1
    rw [Bool.eq_false_iff] at hne
    exact hne ((Datum.sameKey_iff_eq (.inl (hentries first hfirst).1)).mpr hkey)
  · rw [List.mem_flatMap]
    constructor
    · rintro ⟨entry, hentry, hplace⟩
      obtain ⟨way, hway, hsome, rfl⟩ := ((hcovers entry hentry).mem_iff place).mp hplace
      refine ⟨entry.1 :: way, ⟨_, _, rfl, hway⟩, ?_, List.append_assoc _ _ _⟩
      rw [Datum.at?_cons, Datum.at?_map_singleton, Datum.lookup_of_mem hdistinct (hentries entry hentry).1 hentry]
      exact hsome
    · rintro ⟨_, ⟨key, way, rfl, hway⟩, hsome, rfl⟩
      rw [Datum.at?_cons, Datum.at?_map_singleton] at hsome
      obtain ⟨found, hfound⟩ := Option.isSome_iff_exists.mp hsome
      obtain ⟨item, hitem, hfound⟩ := Option.bind_eq_some_iff.mp hfound
      have hmem := Datum.mem_of_lookup (fun entry hentry => (hentries entry hentry).1) hitem
      refine ⟨_, hmem, ((hcovers _ hmem).mem_iff _).mpr ⟨way, hway, ?_, List.append_cons _ _ _⟩⟩
      exact Option.isSome_iff_exists.mpr ⟨found, hfound⟩

theorem Covers.field {places : DatumPath → Option Datum → Places} {ways : DatumPath → Prop} {name : String}
    (h : value.MapsTo holds) (habsent : places (path ++ [.text name]) none = {})
    (hplaces : ∀ item, holds (.text name) item →
      Covers (places (path ++ [.text name]) (some item)) (path ++ [.text name]) item ways) :
    Covers (field path value name places) path value fun way => ∃ rest, way = .text name :: rest ∧ ways rest := by
  obtain ⟨entries, rfl, hdistinct, hentries⟩ := h
  rw [Places.field]
  cases hlookup : Datum.lookup (.text name) entries with
  | none =>
      rw [habsent]
      refine ⟨rfl, List.nodup_nil, fun place => ⟨nofun, ?_⟩⟩
      rintro ⟨_, ⟨way, rfl, -⟩, hsome, -⟩
      rw [Datum.at?_cons, Datum.at?_map_singleton, hlookup] at hsome
      cases hsome
  | some item =>
      have hmem := Datum.mem_of_lookup (fun entry hentry => (hentries entry hentry).1) hlookup
      have hcovers := hplaces item (hentries _ hmem).2
      have hstep (way : DatumPath) : (Datum.map entries).at? (.text name :: way) = item.at? way := by
        rw [Datum.at?_cons, Datum.at?_map_singleton, hlookup]
        rfl
      refine ⟨hcovers.error, hcovers.nodup, fun place => (hcovers.mem_iff place).trans ⟨?_, ?_⟩⟩
      · rintro ⟨way, hway, hsome, rfl⟩
        exact ⟨_, ⟨way, rfl, hway⟩, (hstep way).symm ▸ hsome, List.append_assoc _ _ _⟩
      · rintro ⟨_, ⟨way, rfl, hway⟩, hsome, rfl⟩
        exact ⟨way, hway, hstep way ▸ hsome, List.append_cons _ _ _⟩

end Covers

section Document

open DocCompiler.Document

variable {path : DatumPath} {value document : Datum}

theorem covers_self (path : DatumPath) (value : Datum) : Covers { found := [path] } path value (· = []) := by
  refine ⟨rfl, List.nodup_singleton _, fun place => ?_⟩
  simp [Datum.at?]

theorem covers_content (h : IsHolder value) :
    Covers (ofContent path value) path value fun way => ∃ type, way = [.text "content", type] := by
  have htypes (path : DatumPath) (content : Datum) (hcontent : content.MapsTo fun _ => IsMedia) :
      Covers (inside path (some content) fun path _ => { found := [path] }) path content
        fun way => ∃ type, way = [type] := by
    refine (Covers.inside hcontent fun type media _ => covers_self _ media).congr fun way => ?_
    simp
  refine (Covers.field h rfl fun content hcontent => htypes _ content (hcontent rfl)).congr fun way => ?_
  simp

theorem covers_none (path : DatumPath) (value : Datum) : Covers {} path value fun _ => False := by
  refine ⟨rfl, List.nodup_nil, fun place => ?_⟩
  simp

/-- The media types of a body that may be absent. -/
def ofBody (path : DatumPath) (body : Option Datum) : Places :=
  match body.filter Datum.isTruthy with
  | none => {}
  | some body => ofContent path body

/-- The media types of the operations of a path. -/
def ofMethods (path : DatumPath) (methods : Datum) : Places :=
  match methods with
  | .map _ => inside path (some methods) ofOperation
  | value => { error := some (.noFields value.kindName) }

/-- The media types of the components in a collection. -/
def ofCollection (path : DatumPath) (components : Datum) (name : String) : Places :=
  field path components name fun path entries => inside path entries ofContent

/-- The media types of components that may be absent. -/
def ofComponents (path : DatumPath) (components : Option Datum) : Places :=
  match components.filter Datum.isTruthy with
  | none => {}
  | some components => each ["requestBodies", "responses"] (ofCollection path components)

theorem ofOperation_eq (path : DatumPath) (operation : Datum) :
    ofOperation path operation = (field path operation "requestBody" ofBody).andThen
      (field path operation "responses" fun path responses => inside path responses ofContent) :=
  rfl

theorem ofDocument_eq (document : Datum) :
    ofDocument document = (field [] document "paths" fun path paths => inside path paths ofMethods).andThen
      (field [] document "components" ofComponents) :=
  rfl

theorem covers_body (h : IsHolder value) :
    Covers (ofBody path (some value)) path value fun way => ∃ type, way = [.text "content", type] := by
  have hcovers := @covers_content path value h
  obtain ⟨entries, rfl, -⟩ := h
  cases entries with
  | nil => exact hcovers
  | cons entry rest => exact hcovers

theorem covers_holders (h : value.MapsTo fun _ => IsHolder) :
    Covers (inside path (some value) ofContent) path value fun way =>
      ∃ name type, way = [name, .text "content", type] := by
  refine (Covers.inside h fun name holder hholder => covers_content hholder).congr fun way => ?_
  simp

theorem covers_operation (h : IsOperation value) :
    Covers (ofOperation path value) path value fun way =>
      (∃ type, way = [.text "requestBody", .text "content", type]) ∨
        ∃ status type, way = [.text "responses", status, .text "content", type] := by
  rw [ofOperation_eq]
  refine ((Covers.field h rfl fun body hholds => covers_body (hholds.1 rfl)).andThen
    (Covers.field h rfl fun responses hholds => covers_holders (hholds.2 rfl)) ?_).congr fun way => ?_
  · rintro _ ⟨rest, rfl, -⟩ ⟨other, heq, -⟩
    simp at heq
  · simp

theorem covers_methods (h : value.MapsTo fun _ => IsOperation) :
    Covers (ofMethods path value) path value fun way =>
      ∃ method, (∃ type, way = [method, .text "requestBody", .text "content", type]) ∨
        ∃ status type, way = [method, .text "responses", status, .text "content", type] := by
  have hcovers := @Covers.inside path value _ ofOperation _ h fun method operation => covers_operation
  obtain ⟨entries, rfl, -⟩ := h
  refine hcovers.congr fun way => ?_
  constructor
  · rintro ⟨method, _, rfl, ⟨type, rfl⟩ | ⟨status, type, rfl⟩⟩
    · exact ⟨method, .inl ⟨type, rfl⟩⟩
    · exact ⟨method, .inr ⟨status, type, rfl⟩⟩
  · rintro ⟨method, ⟨type, rfl⟩ | ⟨status, type, rfl⟩⟩
    · exact ⟨method, _, rfl, .inl ⟨type, rfl⟩⟩
    · exact ⟨method, _, rfl, .inr ⟨status, type, rfl⟩⟩

theorem covers_collection {collection : Collection}
    (hcollection : collection = .requestBodies ∨ collection = .responses) (h : AreComponents value) :
    Covers (ofCollection path value collection.name) path value fun way =>
      ∃ name type, way = [.text collection.name, name, .text "content", type] := by
  refine (Covers.field h rfl fun entries hholds => covers_holders (hholds collection hcollection rfl)).congr
    fun way => ?_
  simp

theorem covers_components (h : AreComponents value) :
    Covers (ofComponents path (some value)) path value fun way =>
      ∃ collection : Collection, (collection = .requestBodies ∨ collection = .responses) ∧
        ∃ name type, way = [.text collection.name, name, .text "content", type] := by
  have hcovers : Covers (each ["requestBodies", "responses"] (ofCollection path value)) path value fun way =>
      (∃ name type, way = [.text Collection.requestBodies.name, name, .text "content", type]) ∨
        (∃ name type, way = [.text Collection.responses.name, name, .text "content", type]) ∨ False := by
    refine (covers_collection (.inl rfl) h).andThen
      ((covers_collection (.inr rfl) h).andThen (covers_none path value) fun _ _ => id) ?_
    rintro _ ⟨name, type, rfl⟩ (⟨other, same, heq⟩ | hnone)
    · simp [Collection.name] at heq
    · exact hnone
  have hsame : ofComponents path (some value) = each ["requestBodies", "responses"] (ofCollection path value) := by
    obtain ⟨entries, rfl, -⟩ := h
    cases entries with
    | nil => rfl
    | cons entry rest => rfl
  rw [hsame]
  refine hcovers.congr fun way => ?_
  simp

/-- The walk over a document meets every media type once. -/
theorem covers_document (h : Stocked document) : Covers (ofDocument document) [] document IsMediaPlace := by
  rw [ofDocument_eq]
  refine ((Covers.field h rfl fun paths hholds => Covers.inside (hholds.1 rfl) fun _ _ => covers_methods).andThen
    (Covers.field h rfl fun components hholds => covers_components (hholds.2 rfl)) ?_).congr fun way => ?_
  · rintro _ ⟨rest, rfl, -⟩ ⟨other, heq, -⟩
    simp at heq
  · constructor
    · rintro (⟨_, rfl, path, _, rfl, method, ⟨type, rfl⟩ | ⟨status, type, rfl⟩⟩ |
        ⟨_, rfl, collection, hcollection, name, type, rfl⟩)
      · exact .content (.body path method) type
      · exact .content (.response path method status) type
      · exact .content (.component hcollection name) type
    · rintro ⟨hpath, type⟩
      cases hpath with
      | body path method => exact .inl ⟨_, rfl, path, _, rfl, method, .inl ⟨type, rfl⟩⟩
      | response path method status => exact .inl ⟨_, rfl, path, _, rfl, method, .inr ⟨status, type, rfl⟩⟩
      | component hcollection name => exact .inr ⟨_, rfl, _, hcollection, name, type, rfl⟩

end Document

end Places

end DocCompiler
