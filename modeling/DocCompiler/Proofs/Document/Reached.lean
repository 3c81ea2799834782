import DocCompiler.Proofs.Document.Consistency
import DocCompiler.Proofs.Document.Example
import DocCompiler.Proofs.Document.Nesting

/-!
The schemas that are reached when an example is made for a schema of an accepted document: they are schemas of the
document themselves, an example can be made for them, and what they lead to depends on the components alone.
-/

namespace DocCompiler

section Agreement

variable {document other : Datum} {visit : Visit} {result : Except ShapeError (Option Sample)}

/-- Documents in which the references that are reached lead to the same have the same examples. -/
theorem Makes.of_agree (h : Makes document visit result)
    (hagree : ∀ last pointer, Relation.ReflTransGen (Visit.Next document) visit last →
      reference? last.schema = some pointer → resolvePointer other pointer = resolvePointer document pointer) :
    Makes other visit result := by
  induction h with
  | stop hreference hstop =>
      refine .stop hreference (hstop.imp_right fun hnone target => ?_)
      rw [hagree _ _ .refl hreference]
      exact hnone target
  | follow hreference hnew htarget _ ih =>
      have hnext := Visit.Next.follow hreference hnew htarget
      refine .follow hreference hnew ((hagree _ _ .refl hreference).trans htarget) (ih fun last pointer hlast => ?_)
      exact hagree last pointer (hlast.head hnext)
  | @body visit nested hschema _ ih =>
      refine .body hschema fun place inner hinner => ih place inner hinner fun last pointer hlast => ?_
      exact hagree last pointer (hlast.head (.nested hschema hinner))

end Agreement

/-- A number. -/
def Datum.number? : Datum → Option Number
  | .number value => some value
  | _ => none

/-- The least value of a schema, if it is a number. -/
def Part.minimum? : Part → Option Number
  | .schema facets _ _ => facets.minimum.number?
  | _ => none

/-- The least value of a schema is finite. -/
def Part.HasFiniteMinimum (part : Part) : Prop :=
  ∀ number ∈ part.minimum?, number.IsFinite

instance : DecidablePred Part.HasFiniteMinimum :=
  fun part => inferInstanceAs (Decidable (∀ number ∈ part.minimum?, number.IsFinite))

section Schemas

variable {model : Model} {version : String} {document : Datum} {schema : List (Datum × Datum)}

/-- Where the pointer of a reference to a schema leads. -/
theorem resolvePointer_of_bound_schemas {link : Reference} (h : link.Bound model.components .schemas) :
    ∃ name, ∀ document, resolvePointer document link.pointer =
      ((document.field? "components").bind (Datum.field? Collection.schemas.name)).bind (Datum.field? name) := by
  obtain ⟨name, hname, hslash⟩ := h.name
  refine ⟨name, fun document => ?_⟩
  rw [Reference.pointer, h.collection, hname, Datum.display, Datum.display, resolvePointer_component _ _ hslash]

namespace Layout

variable {link : Reference} {facets : Facets} {properties : Registry} {items : Option Part} {name : String}

theorem lookup_reference {value : Datum} (h : reference link = .map schema) (hname : name ≠ "$ref") :
    Datum.lookup (.text name) schema ≠ some value := by
  have hfield := field?_reference_of_ne link hname
  rw [h] at hfield
  exact fun hvalue => nomatch hvalue.symm.trans hfield

theorem servable_reference (h : reference link = .map schema) : Servable schema where
  properties _ hvalue := absurd hvalue (lookup_reference h (by decide))
  minimum _ hvalue := absurd hvalue (lookup_reference h (by decide))
  choices _ hvalue := absurd hvalue (lookup_reference h (by decide))
  format := by
    rintro ⟨-, value, hvalue, -⟩
    exact lookup_reference h (by decide) hvalue

/-- What the rendering of a schema holds under a name: what was given there, unless that was nothing. -/
theorem lookup_schema (h : Layout.schema (.schema facets properties items) = .ok (.map schema)) :
    ∃ entries required inner, ∀ name, Datum.lookup (.text name) schema =
      (((schemaFields facets required (mapping entries) inner).lookup name).filter fun value => !value.isNull).map
        Datum.settled := by
  obtain ⟨entries, required, inner, -, -, -, hcompact⟩ := schema_eq_ok_iff.mp h
  refine ⟨entries, required, inner, fun name => ?_⟩
  rw [← field?_compact (nodup_schemaFields ..), ← hcompact]
  rfl

theorem eq_settled_of_filter {given value : Datum}
    (h : ((some given).filter fun value => !value.isNull).map Datum.settled = some value) :
    given ≠ .null ∧ value = given.settled := by
  obtain ⟨found, hfound, rfl⟩ := Option.map_eq_some_iff.mp h
  obtain ⟨hgiven, hnull⟩ := Option.filter_eq_some_iff.mp hfound
  obtain rfl := Option.some.inj hgiven
  refine ⟨?_, rfl⟩
  rintro rfl
  cases hnull

theorem servable_schema {link : Collection → Reference → Prop} (hfits : facets.Fits (Terms.typed.withLink link))
    (hmarkers : Rule.markers (.schema facets properties items) = [])
    (hfinite : ∀ number ∈ facets.minimum.number?, number.IsFinite)
    (h : Layout.schema (.schema facets properties items) = .ok (.map schema)) :
    Servable schema ∧ reference? schema = none := by
  obtain ⟨entries, required, inner, hlookup⟩ := lookup_schema h
  -- What a facet shows was given, and it is no marker; so it is what its kind asks for.
  refine ⟨⟨fun value hvalue => ?_, fun value hvalue => ?_, fun value hvalue => ?_, ?_⟩, ?_⟩
  · rw [hlookup] at hvalue
    obtain ⟨hnull, rfl⟩ := eq_settled_of_filter hvalue
    rw [mapping] at hnull ⊢
    split_ifs at hnull ⊢
    · exact absurd rfl hnull
    · exact ⟨_, rfl⟩
  · rw [hlookup] at hvalue
    obtain ⟨hnull, rfl⟩ := eq_settled_of_filter hvalue
    have hfield : facets.minimum ∈ (Rule.fieldsOf (.schema facets properties items)).map (·.2) := by
      simp [Rule.fieldsOf]
    have hmarker := Rule.not_isMarker_of_markers hmarkers hfield
    obtain ⟨number, hnumber⟩ := (hfits.minimum.resolve_left hnull).resolve_left hmarker
    rw [hnumber]
    exact ⟨number, rfl, hfinite number (by rw [hnumber]; rfl)⟩
  · rw [hlookup] at hvalue
    obtain ⟨hnull, rfl⟩ := eq_settled_of_filter hvalue
    obtain ⟨choices, hchoices⟩ := hfits.enum.resolve_left hnull
    rw [hchoices]
    exact ⟨_, rfl⟩
  · rintro ⟨-, value, hvalue, -, hodd⟩
    rw [hlookup] at hvalue
    obtain ⟨hnull, rfl⟩ := eq_settled_of_filter hvalue
    have hfield : facets.format ∈ (Rule.fieldsOf (.schema facets properties items)).map (·.2) := by
      simp [Rule.fieldsOf]
    have hmarker := Rule.not_isMarker_of_markers hmarkers hfield
    obtain ⟨points, hpoints⟩ := (hfits.format.resolve_left hnull).resolve_left hmarker
    rw [hpoints, Datum.isSettled_ofCodes points] at hodd
    rcases Datum.ofCodes_cases points with ⟨text, htext⟩ | hcodes
    · rw [htext] at hodd
      rcases hodd with ⟨items, hitems⟩ | ⟨entries, hentries⟩
      · cases hitems
      · cases hentries
    · rw [hcodes] at hodd
      rcases hodd with ⟨items, hitems⟩ | ⟨entries, hentries⟩
      · cases hitems
      · cases hentries
  · rw [reference?, hlookup]
    rfl

end Layout

section Closed

variable (h : model.Closed Terms.typed) (hdocument : Layout.document model version = .ok document)
  (hfinite : Walk.All Part.HasFiniteMinimum model.walk)

include h hdocument hfinite

/-- A schema of a document is a reference to one of its components, or an example can be made for it. -/
theorem Model.Closed.schema_cases (hschema : Document.HasSchema document (.map schema)) :
    Servable schema ∧ ∀ pointer, reference? schema = some pointer →
      ∃ link : Reference, link.Bound model.components .schemas ∧ pointer = link.pointer := by
  obtain ⟨part, hpart, hthroughout, hrendered⟩ :=
    h.fits.exists_of_hasSchema Terms.asText_of_typed hdocument (h.unmarked.and hfinite) hschema
  cases part with
  | reference link =>
      have hmap := Except.ok.inj hrendered
      refine ⟨Layout.servable_reference hmap, fun pointer hpointer => ⟨link, hpart, ?_⟩⟩
      have hfield := Layout.field?_reference link
      rw [hmap] at hfield
      rw [reference?, show Datum.lookup (.text "$ref") schema = _ from hfield] at hpointer
      exact (Option.some.inj hpointer).symm
  | schema facets properties items =>
      have hfits := (Part.isSchema_schema_iff.mp hpart).1
      obtain ⟨hmarkers, hminimum⟩ := (Part.throughout_schema hthroughout).1
      obtain ⟨hservable, hnone⟩ := Layout.servable_schema hfits hmarkers hminimum hrendered
      exact ⟨hservable, fun pointer hpointer => absurd (hpointer.symm.trans hnone) (Option.some_ne_none _)⟩
  | _ => exact hpart.elim

/-- What is reached from a schema of a document is one. -/
theorem Model.Closed.hasSchema_of_visited {visit last : Visit}
    (hvisit : Document.HasSchema document (.map visit.schema))
    (hlast : Relation.ReflTransGen (Visit.Next document) visit last) :
    Document.HasSchema document (.map last.schema) := by
  induction hlast with
  | refl => exact hvisit
  | @tail middle _ _ hnext ih =>
      cases hnext with
      | @follow pointer target hreference _ htarget =>
          obtain ⟨link, hbound, rfl⟩ := (h.schema_cases hdocument hfinite ih).2 pointer hreference
          obtain ⟨name, hname⟩ := resolvePointer_of_bound_schemas hbound
          obtain ⟨found, -, hfield⟩ := Layout.field?_document hdocument .schemas
          rw [hname, hfield] at htarget
          have hmem := Datum.mem_of_lookup_text (show Datum.lookup (.text name) found = some (.map target) from htarget)
          have hcomponent : (Datum.text name, Datum.map target) ∈ Document.components document .schemas := by
            rw [Document.components_of_field? hfield]
            exact hmem
          exact .component hcomponent
      | @nested place inner _ hnested =>
          cases hnested with
          | @property entries inner key hproperties hproperty =>
              have hfield : (Datum.map middle.schema).field? "properties" = some (.map entries) := hproperties
              have hunder : (Datum.map middle.schema).entriesUnder "properties" = entries := by
                rw [Datum.entriesUnder, hfield]
                rfl
              exact .property ih (hunder ▸ hproperty)
          | items hitems => exact .items ih hitems

/-- An example is made for a schema of a document, unless a schema of numbers is reached whose least value is beyond
all double-precision ones. -/
theorem Model.Closed.exampleFor_cases (hschema : Document.HasSchema document (.map schema)) (path : DatumPath) :
    (∃ found, exampleFor path (.map schema) document = .ok found) ∨
      exampleFor path (.map schema) document = .error .outOfRange ∧
        ∃ last, Relation.ReflTransGen (Visit.Next document) ⟨[], path, schema⟩ last ∧
          isOfKind last.schema "number" = true ∧ HasHugeMinimum last.schema := by
  have hserves (last : Visit) (hlast : Relation.ReflTransGen (Visit.Next document) ⟨[], path, schema⟩ last) :
      Servable last.schema := by
    have hreached := h.hasSchema_of_visited hdocument hfinite hschema hlast
    exact (h.schema_cases hdocument hfinite hreached).1
  have hmakes := (makes_exampleFor document path schema).onlyBeyond_of_servable hserves
  cases hresult : exampleFor path (.map schema) document with
  | ok found => exact .inl ⟨found, rfl⟩
  | error error =>
      obtain ⟨rfl, hhuge⟩ := hmakes error hresult
      exact .inr ⟨rfl, hhuge⟩

/-- The example for a schema of a document is the same in all documents with the same schemas as components. -/
theorem Model.Closed.exampleFor_eq (hschema : Document.HasSchema document (.map schema)) (path : DatumPath)
    {other : Datum}
    (hsame : (other.field? "components").bind (Datum.field? Collection.schemas.name) =
      (document.field? "components").bind (Datum.field? Collection.schemas.name)) :
    exampleFor path (.map schema) other = exampleFor path (.map schema) document := by
  refine makes_iff.mp ((makes_exampleFor document path schema).of_agree fun last pointer hlast hreference => ?_)
  have hreached := h.hasSchema_of_visited hdocument hfinite hschema hlast
  obtain ⟨link, hbound, rfl⟩ := (h.schema_cases hdocument hfinite hreached).2 pointer hreference
  obtain ⟨name, hname⟩ := resolvePointer_of_bound_schemas hbound
  rw [hname, hname, hsame]

end Closed

end Schemas

end DocCompiler
