import DocCompiler.Proofs.Document.Example

/-!
Examples that are made up have the types that their schemas declare. Conformance is followed through
references, with the pointers that were followed on the way, since a property or an item is left out exactly
when there is no example for it.
-/

namespace DocCompiler

/-- The types of schemas that an example is made up for. -/
def knownTypes : List String :=
  ["object", "array", "string", "integer", "number", "boolean"]

/-- The properties that a schema declares, in their order. -/
def declaredProperties (schema : List (Datum × Datum)) : List (Datum × Datum) :=
  match Datum.lookup (.text "properties") schema with
  | some (.map entries) => entries
  | _ => []

/-- A schema that says of what type its values are, and gives none of them itself. -/
structure DeclaresType (schema : List (Datum × Datum)) : Prop where
  given : ∀ name ∈ ["example", "default", "enum"], Datum.lookup (.text name) schema = none
  properties : ∀ value, Datum.lookup (.text "properties") schema = some value →
    ∃ entries, value = .map entries ∧ ∀ entry ∈ entries, ∃ inner, entry.2 = .map inner
  items : ∀ value, Datum.lookup (.text "items") schema = some value → ∃ inner, value = .map inner
  object : (Datum.lookup (.text "properties") schema).isSome = true →
    Datum.lookup (.text "type") schema = none ∨ Datum.lookup (.text "type") schema = some (.text "object")
  minimum : ∀ value, Datum.lookup (.text "minimum") schema = some value →
    ∃ number : Number, value = .number number ∧ number.IsFinite

/-- There is no example for a schema without a known type, for a reference that leads to no mapping or was
followed before, and for a reference that leads to such a schema. -/
inductive Lacks (document : Datum) : List String → List (Datum × Datum) → Prop
  | untyped {followed : List String} {schema : List (Datum × Datum)} (hschema : reference? schema = none)
      (hproperties : Datum.lookup (.text "properties") schema = none)
      (htype : ∀ name ∈ knownTypes, Datum.lookup (.text "type") schema ≠ some (.text name)) :
      Lacks document followed schema
  | dangling {followed : List String} {schema : List (Datum × Datum)} {pointer : String}
      (hreference : reference? schema = some pointer)
      (htarget : ∀ target, resolvePointer document pointer ≠ some (.map target)) : Lacks document followed schema
  | repeated {followed : List String} {schema : List (Datum × Datum)} {pointer : String}
      (hreference : reference? schema = some pointer) (hseen : pointer ∈ followed) : Lacks document followed schema
  | follow {followed : List String} {schema target : List (Datum × Datum)} {pointer : String}
      (hreference : reference? schema = some pointer) (hnew : pointer ∉ followed)
      (htarget : resolvePointer document pointer = some (.map target))
      (hlacks : Lacks document (pointer :: followed) target) : Lacks document followed schema

mutual

/-- A value is of the type that a schema declares, at every level. -/
inductive Conforms (document : Datum) : List String → List (Datum × Datum) → Datum → Prop
  | follow {followed : List String} {schema target : List (Datum × Datum)} {pointer : String} {value : Datum}
      (hreference : reference? schema = some pointer) (hnew : pointer ∉ followed)
      (htarget : resolvePointer document pointer = some (.map target))
      (hvalue : Conforms document (pointer :: followed) target value) : Conforms document followed schema value
  | object {followed : List String} {schema fields : List (Datum × Datum)} (hschema : reference? schema = none)
      (hobject : Datum.lookup (.text "type") schema = some (.text "object") ∨
        Datum.lookup (.text "type") schema = none ∧ (Datum.lookup (.text "properties") schema).isSome = true)
      (hfields : FieldsConform document followed (declaredProperties schema) fields) :
      Conforms document followed schema (.map fields)
  | empty {followed : List String} {schema : List (Datum × Datum)} (hschema : reference? schema = none)
      (harray : Datum.lookup (.text "type") schema = some (.text "array"))
      (hitems : ∀ inner, Datum.lookup (.text "items") schema = some (.map inner) → Lacks document followed inner) :
      Conforms document followed schema (.list [])
  | single {followed : List String} {schema inner : List (Datum × Datum)} {value : Datum}
      (hschema : reference? schema = none) (harray : Datum.lookup (.text "type") schema = some (.text "array"))
      (hitems : Datum.lookup (.text "items") schema = some (.map inner))
      (hvalue : Conforms document followed inner value) : Conforms document followed schema (.list [value])
  | text {followed : List String} {schema : List (Datum × Datum)} (value : String) (hschema : reference? schema = none)
      (htype : Datum.lookup (.text "type") schema = some (.text "string")) :
      Conforms document followed schema (.text value)
  | whole {followed : List String} {schema : List (Datum × Datum)} (value : Int) (hschema : reference? schema = none)
      (htype : Datum.lookup (.text "type") schema = some (.text "integer")) :
      Conforms document followed schema (.int value)
  | double {followed : List String} {schema : List (Datum × Datum)} {value : Binary64}
      (hfinite : value.isFinite = true) (hschema : reference? schema = none)
      (htype : Datum.lookup (.text "type") schema = some (.text "number")) :
      Conforms document followed schema (.number (.float value))
  | truth {followed : List String} {schema : List (Datum × Datum)} (value : Bool)
      (hschema : reference? schema = none)
      (htype : Datum.lookup (.text "type") schema = some (.text "boolean")) :
      Conforms document followed schema (.bool value)

/-- Fields are those of the declared properties that have examples, in their order, and their values conform. -/
inductive FieldsConform (document : Datum) : List String → List (Datum × Datum) → List (Datum × Datum) → Prop
  | nil {followed : List String} : FieldsConform document followed [] []
  | keep {followed : List String} {key value : Datum} {inner properties fields : List (Datum × Datum)}
      (hvalue : Conforms document followed inner value) (hrest : FieldsConform document followed properties fields) :
      FieldsConform document followed ((key, .map inner) :: properties) ((key, value) :: fields)
  | leave {followed : List String} {key : Datum} {inner properties fields : List (Datum × Datum)}
      (hlacks : Lacks document followed inner) (hrest : FieldsConform document followed properties fields) :
      FieldsConform document followed ((key, .map inner) :: properties) fields

end

section Conformance

variable {document : Datum} {followed : List String} {path : DatumPath} {schema : List (Datum × Datum)}
  {nested : DatumPath → List (Datum × Datum) → Except ShapeError (Option Sample)} {found : Option Sample}

/-- The keys of fields stand among the declared properties in the same order. -/
theorem FieldsConform.keys_sublist {properties fields : List (Datum × Datum)}
    (h : FieldsConform document followed properties fields) :
    (fields.map Prod.fst).Sublist (properties.map Prod.fst) := by
  induction properties generalizing fields with
  | nil =>
      cases h
      exact List.Sublist.slnil
  | cons property rest ih =>
      cases h with
      | keep _ hrest => exact (ih hrest).cons_cons _
      | leave _ hrest => exact (ih hrest).cons _

/-- What a call gives: a value that conforms to its schema, or nothing for a schema without example. -/
def Answers (document : Datum) (followed : List String) (schema : List (Datum × Datum)) : Option Sample → Prop
  | some sample => Conforms document followed schema sample.value
  | none => Lacks document followed schema

theorem isOfKind_iff {name : String} :
    isOfKind schema name = true ↔ Datum.lookup (.text "type") schema = some (.text name) := by
  unfold isOfKind
  split
  · next type htype => simp [htype]
  · next hnone => simpa using hnone name

/-- A value conforms to a reference only when it conforms to the target. -/
theorem Conforms.of_reference {pointer : String} {value : Datum} (h : Conforms document followed schema value)
    (hreference : reference? schema = some pointer) :
    pointer ∉ followed ∧ ∃ target, resolvePointer document pointer = some (.map target) ∧
      Conforms document (pointer :: followed) target value := by
  cases h with
  | follow hsame hnew htarget hvalue =>
      obtain rfl := Option.some.inj (hreference.symm.trans hsame)
      exact ⟨hnew, _, htarget, hvalue⟩
  | _ => simp_all

/-- A schema without example has no value that conforms to it. -/
theorem Lacks.not_conforms {value : Datum} (h : Lacks document followed schema) :
    ¬ Conforms document followed schema value := by
  induction h generalizing value with
  | untyped hschema hproperties htype =>
      intro hvalue
      cases hvalue with
      | follow hreference => exact absurd (hreference.symm.trans hschema) (Option.some_ne_none _)
      | object _ hobject =>
          rcases hobject with hobject | ⟨-, hsome⟩
          · exact htype "object" (by decide) hobject
          · rw [hproperties] at hsome
            cases hsome
      | empty _ harray => exact htype "array" (by decide) harray
      | single _ harray => exact htype "array" (by decide) harray
      | text _ _ htext => exact htype "string" (by decide) htext
      | whole _ _ hwhole => exact htype "integer" (by decide) hwhole
      | double _ _ hdouble => exact htype "number" (by decide) hdouble
      | truth _ _ htruth => exact htype "boolean" (by decide) htruth
  | dangling hreference htarget =>
      intro hvalue
      obtain ⟨-, target, hfound, -⟩ := hvalue.of_reference hreference
      exact htarget target hfound
  | repeated hreference hseen =>
      intro hvalue
      exact (hvalue.of_reference hreference).1 hseen
  | follow hreference _ htarget _ ih =>
      intro hvalue
      obtain ⟨-, target, hfound, hvalue⟩ := hvalue.of_reference hreference
      obtain rfl := Datum.map.inj (Option.some.inj (htarget.symm.trans hfound))
      exact ih hvalue

theorem DeclaresType.givenExample? (h : DeclaresType schema) : DocCompiler.givenExample? path schema = none := by
  unfold DocCompiler.givenExample?
  rw [h.given "example" (by simp), h.given "default" (by simp), h.given "enum" (by simp)]
  rfl

theorem DeclaresType.propertyEntries (h : DeclaresType schema) :
    DocCompiler.propertyEntries schema = .ok (declaredProperties schema) := by
  unfold DocCompiler.propertyEntries declaredProperties
  cases hproperties : Datum.lookup (.text "properties") schema with
  | none => rfl
  | some value =>
      obtain ⟨entries, rfl, -⟩ := h.properties value hproperties
      cases entries with
      | nil => rfl
      | cons entry rest => rfl

theorem DeclaresType.lookup_properties {entry : Datum × Datum} (hentry : entry ∈ declaredProperties schema) :
    Datum.lookup (.text "properties") schema = some (.map (declaredProperties schema)) := by
  unfold declaredProperties at hentry ⊢
  split at hentry
  · next entries hproperties => rw [hproperties]
  · cases hentry

theorem fieldsConform_of_filterMapM {properties : List (Datum × Datum)} {fields : List (Datum × Sample)}
    (h : properties.filterMapM (fieldExample nested path) = .ok fields)
    (hproperties : ∀ entry ∈ properties, ∃ inner, entry.2 = .map inner ∧
      ∀ found, nested (path ++ [.text "properties", entry.1]) inner = .ok found →
        Answers document followed inner found) :
    FieldsConform document followed properties (Sample.fieldValues fields) := by
  induction properties generalizing fields with
  | nil =>
      obtain rfl := Except.ok.inj h
      exact .nil
  | cons property rest ih =>
      rcases property with ⟨key, value⟩
      obtain ⟨inner, hinner, hanswers⟩ := hproperties (key, value) List.mem_cons_self
      dsimp only at hinner hanswers
      subst hinner
      have hrest {others : List (Datum × Sample)} (hothers : rest.filterMapM (fieldExample nested path) = .ok others) :=
        ih hothers fun other hother => hproperties other (List.mem_cons_of_mem _ hother)
      rw [List.filterMapM_cons, Result.bind_eq_ok_iff] at h
      obtain ⟨first, hfirst, h⟩ := h
      rw [fieldExample, Result.bind_eq_ok_iff] at hfirst
      obtain ⟨sample, hsample, hfirst⟩ := hfirst
      have hsample := hanswers sample hsample
      obtain rfl := Except.ok.inj hfirst
      cases sample with
      | none => exact .leave hsample (hrest h)
      | some sample =>
          rw [Option.map_some, Result.bind_eq_ok_iff] at h
          obtain ⟨others, hothers, h⟩ := h
          obtain rfl := Except.ok.inj h
          exact .keep hsample (hrest hothers)

/-- The example of an object has conforming fields when what is nested in the schema has conforming examples. -/
theorem DeclaresType.objectExample (h : DeclaresType schema) (hschema : reference? schema = none)
    (hobject : isOfObjects schema = true)
    (hnested : ∀ place inner, Nested path schema place inner →
      ∀ found, nested place inner = .ok found → Answers document followed inner found)
    (hfound : DocCompiler.objectExample nested path schema = .ok found) : Answers document followed schema found := by
  rw [objectExample_of_ok h.propertyEntries, Result.bind_eq_ok_iff] at hfound
  obtain ⟨fields, hfields, hfound⟩ := hfound
  obtain rfl := Except.ok.inj hfound
  refine .object hschema ?_ (fieldsConform_of_filterMapM hfields fun entry hentry => ?_)
  · rw [isOfObjects, Bool.or_eq_true, isOfKind_iff] at hobject
    rcases hobject with hobject | hproperties
    · exact .inl hobject
    · exact (h.object hproperties).elim (fun hnone => .inr ⟨hnone, hproperties⟩) .inl
  · have hlookup := lookup_properties hentry
    obtain ⟨entries, hentries, hinner⟩ := h.properties _ hlookup
    obtain rfl := Datum.map.inj hentries
    obtain ⟨inner, hinner⟩ := hinner entry hentry
    rcases entry with ⟨key, value⟩
    dsimp only at hinner
    subst hinner
    exact ⟨inner, rfl, hnested _ _ (.property hlookup hentry)⟩

theorem answers_arrayExample (hschema : reference? schema = none)
    (harray : Datum.lookup (.text "type") schema = some (.text "array"))
    (hnested : ∀ place inner, Nested path schema place inner →
      ∀ found, nested place inner = .ok found → Answers document followed inner found)
    (hfound : arrayExample nested path schema = .ok found) : Answers document followed schema found := by
  unfold arrayExample at hfound
  split at hfound
  · next inner hitems =>
    rw [Result.bind_eq_ok_iff] at hfound
    obtain ⟨item, hitem, hfound⟩ := hfound
    have hitem := hnested _ _ (.items hitems) item hitem
    obtain rfl := Except.ok.inj hfound
    cases item with
    | none =>
        refine .empty hschema harray fun other hother => ?_
        obtain rfl := Datum.map.inj (Option.some.inj (hitems.symm.trans hother))
        exact hitem
    | some sample => exact .single hschema harray hitems hitem
  · next hnone =>
    obtain rfl := Except.ok.inj hfound
    exact .empty hschema harray fun inner hitems => absurd hitems (hnone inner)

theorem textExample_eq_text {format : Option Datum} {value : Datum} (h : textExample format = .ok value) :
    ∃ text, value = .text text := by
  unfold textExample at h
  split at h
  · exact ⟨_, (Except.ok.inj h).symm⟩
  · cases h
  · cases h
  · exact ⟨_, (Except.ok.inj h).symm⟩

theorem DeclaresType.integerExample (h : DeclaresType schema) {value : Datum}
    (hvalue : DocCompiler.integerExample (Datum.lookup (.text "minimum") schema) = .ok value) :
    ∃ number : Int, value = .int number := by
  cases hminimum : Datum.lookup (.text "minimum") schema with
  | none =>
      rw [hminimum] at hvalue
      exact ⟨0, (Except.ok.inj hvalue).symm⟩
  | some least =>
      obtain ⟨number, rfl, hfinite⟩ := h.minimum least hminimum
      rw [hminimum, DocCompiler.integerExample, Option.filter_some] at hvalue
      cases hzero : (Datum.number number).isTruthy with
      | false =>
          rw [hzero] at hvalue
          exact ⟨0, (Except.ok.inj hvalue).symm⟩
      | true =>
          rw [hzero] at hvalue
          cases number with
          | int least => exact ⟨_, (Except.ok.inj hvalue).symm⟩
          | float least =>
              cases least with
              | nan => cases hfinite
              | infinite negative => cases hfinite
              | finite negative significand exponent => exact ⟨_, (Except.ok.inj hvalue).symm⟩

theorem isFinite_ofInt_of_ne {value : Int} (h : ∀ negative, Binary64.ofInt value ≠ .infinite negative) :
    (Binary64.ofInt value).isFinite = true := by
  have hnan : Binary64.ofInt value ≠ .nan := by
    unfold Binary64.ofInt Binary64.ofRatio
    dsimp only
    split_ifs <;> exact nofun
  cases hvalue : Binary64.ofInt value with
  | nan => exact absurd hvalue hnan
  | infinite negative => exact absurd hvalue (h negative)
  | finite => rfl

theorem DeclaresType.numberExample (h : DeclaresType schema) {value : Datum}
    (hvalue : DocCompiler.numberExample (Datum.lookup (.text "minimum") schema) = .ok value) :
    ∃ number : Binary64, number.isFinite = true ∧ value = .number (.float number) := by
  cases hminimum : Datum.lookup (.text "minimum") schema with
  | none =>
      rw [hminimum] at hvalue
      exact ⟨_, rfl, (Except.ok.inj hvalue).symm⟩
  | some least =>
      obtain ⟨number, rfl, hfinite⟩ := h.minimum least hminimum
      rw [hminimum, DocCompiler.numberExample, Option.filter_some] at hvalue
      cases hzero : (Datum.number number).isTruthy with
      | false =>
          rw [hzero] at hvalue
          exact ⟨_, rfl, (Except.ok.inj hvalue).symm⟩
      | true =>
          rw [hzero] at hvalue
          cases number with
          | float least => exact ⟨_, hfinite, (Except.ok.inj hvalue).symm⟩
          | int least =>
              simp only [if_pos] at hvalue
              split at hvalue
              · cases hvalue
              · next hin => exact ⟨_, isFinite_ofInt_of_ne hin, (Except.ok.inj hvalue).symm⟩

theorem DeclaresType.scalarExample (h : DeclaresType schema) (hschema : reference? schema = none)
    (hobject : ¬ isOfObjects schema = true) (harray : ¬ isOfKind schema "array" = true)
    (hfound : DocCompiler.scalarExample schema = .ok found) : Answers document followed schema found := by
  unfold DocCompiler.scalarExample at hfound
  split_ifs at hfound with htext hwhole hdouble htruth
  · rw [Result.bind_eq_ok_iff] at hfound
    obtain ⟨value, hvalue, hfound⟩ := hfound
    obtain rfl := Except.ok.inj hfound
    obtain ⟨text, rfl⟩ := textExample_eq_text hvalue
    exact .text text hschema (isOfKind_iff.mp htext)
  · rw [Result.bind_eq_ok_iff] at hfound
    obtain ⟨value, hvalue, hfound⟩ := hfound
    obtain rfl := Except.ok.inj hfound
    obtain ⟨number, rfl⟩ := h.integerExample hvalue
    exact .whole number hschema (isOfKind_iff.mp hwhole)
  · rw [Result.bind_eq_ok_iff] at hfound
    obtain ⟨value, hvalue, hfound⟩ := hfound
    obtain rfl := Except.ok.inj hfound
    obtain ⟨number, hfinite, rfl⟩ := h.numberExample hvalue
    exact .double hfinite hschema (isOfKind_iff.mp hdouble)
  · obtain rfl := Except.ok.inj hfound
    exact .truth true hschema (isOfKind_iff.mp htruth)
  · obtain rfl := Except.ok.inj hfound
    rw [isOfObjects, Bool.or_eq_true, not_or] at hobject
    refine .untyped hschema (Option.not_isSome_iff_eq_none.mp hobject.2) fun name hname => ?_
    rw [Ne, ← isOfKind_iff]
    simp only [knownTypes, List.mem_cons, List.not_mem_nil, or_false] at hname
    rcases hname with rfl | rfl | rfl | rfl | rfl | rfl
    · exact hobject.1
    · exact harray
    · exact htext
    · exact hwhole
    · exact hdouble
    · exact htruth

/-- One level of a schema: its example conforms when those of the nested schemas do. -/
theorem DeclaresType.exampleBody (h : DeclaresType schema) (hschema : reference? schema = none)
    (hnested : ∀ place inner, Nested path schema place inner →
      ∀ found, nested place inner = .ok found → Answers document followed inner found)
    (hfound : DocCompiler.exampleBody nested path schema = .ok found) : Answers document followed schema found := by
  rw [exampleBody_eq, h.givenExample?, Option.getD_none] at hfound
  split_ifs at hfound with hobject harray
  · exact h.objectExample hschema hobject hnested hfound
  · exact answers_arrayExample hschema (isOfKind_iff.mp harray) hnested hfound
  · exact h.scalarExample hschema hobject harray hfound

/-- By induction on the derivation: the values at every level are put together from conforming ones. -/
theorem Makes.answers {visit : Visit} {result : Except ShapeError (Option Sample)} (h : Makes document visit result)
    (hdeclares : ∀ last, Relation.ReflTransGen (Visit.Next document) visit last → DeclaresType last.schema)
    (hfound : result = .ok found) : Answers document visit.followed visit.schema found := by
  induction h generalizing found with
  | stop hreference hstop =>
      obtain rfl := Except.ok.inj hfound
      exact hstop.elim (.repeated hreference) (.dangling hreference)
  | follow hreference hnew htarget _ ih =>
      have hnext := Visit.Next.follow hreference hnew htarget
      have htarget' := ih (fun last hlast => hdeclares last (hlast.head hnext)) hfound
      cases found with
      | none => exact .follow hreference hnew htarget htarget'
      | some sample => exact .follow hreference hnew htarget htarget'
  | @body visit nested hschema _ ih =>
      refine (hdeclares visit .refl).exampleBody hschema (fun place inner hinner found hmade => ?_) hfound
      have hnext : Visit.Next document visit ⟨visit.followed, place, inner⟩ := .nested hschema hinner
      exact ih place inner hinner (fun last hlast => hdeclares last (hlast.head hnext)) hmade

theorem DeclaresType.servable (h : DeclaresType schema) (hformat : ¬ HasOddFormat schema) : Servable schema := by
  refine ⟨fun value hvalue => ?_, h.minimum, fun value hvalue => ?_, hformat⟩
  · obtain ⟨entries, rfl, -⟩ := h.properties value hvalue
    exact ⟨entries, rfl⟩
  · rw [h.given "enum" (by simp)] at hvalue
    cases hvalue

/-- A schema with neither properties nor items. -/
theorem DeclaresType.of_flat (hgiven : ∀ name ∈ ["example", "default", "enum"], Datum.lookup (.text name) schema = none)
    (hproperties : Datum.lookup (.text "properties") schema = none)
    (hitems : Datum.lookup (.text "items") schema = none)
    (hminimum : ∀ value, Datum.lookup (.text "minimum") schema = some value →
      ∃ number : Number, value = .number number ∧ number.IsFinite) : DeclaresType schema := by
  refine ⟨hgiven, fun value hvalue => ?_, fun value hvalue => ?_, fun hsome => ?_, hminimum⟩
  · exact absurd (hvalue.symm.trans hproperties) (Option.some_ne_none _)
  · exact absurd (hvalue.symm.trans hitems) (Option.some_ne_none _)
  · rw [hproperties] at hsome
    cases hsome

/-- A call for a schema that is no reference and has none in it leads nowhere. -/
theorem schema_of_visited_flat {last : Visit} (hschema : reference? schema = none)
    (hproperties : Datum.lookup (.text "properties") schema = none)
    (hitems : Datum.lookup (.text "items") schema = none)
    (h : Relation.ReflTransGen (Visit.Next document) ⟨[], path, schema⟩ last) : last.schema = schema := by
  rcases h.cases_head with rfl | ⟨next, hnext, -⟩
  · rfl
  · cases hnext with
    | follow hreference => exact absurd (hreference.symm.trans hschema) (Option.some_ne_none _)
    | nested _ hnested =>
        cases hnested with
        | property hfound => exact absurd (hfound.symm.trans hproperties) (Option.some_ne_none _)
        | items hfound => exact absurd (hfound.symm.trans hitems) (Option.some_ne_none _)

end Conformance

/-- The example for a schema whose types are declared at every level conforms to it, and there is none only
for lack of a known type or of a target. Nothing else happens unless a format is no entry of any table or the
least value of numbers is out of range. -/
theorem exampleFor_conforms {document : Datum} {path : DatumPath} {schema : List (Datum × Datum)}
    (hdeclares : ∀ last, Relation.ReflTransGen (Visit.Next document) ⟨[], path, schema⟩ last →
      DeclaresType last.schema) :
    (∀ error, exampleFor path (.map schema) document = .error error →
      ∃ last, Relation.ReflTransGen (Visit.Next document) ⟨[], path, schema⟩ last ∧
        (HasOddFormat last.schema ∨ isOfKind last.schema "number" = true ∧ HasHugeMinimum last.schema)) ∧
      ∀ found, exampleFor path (.map schema) document = .ok found →
        (found = none ↔ Lacks document [] schema) ∧
          ∀ sample, found = some sample → Conforms document [] schema sample.value := by
  have hmakes := makes_exampleFor document path schema
  constructor
  · intro error herror
    by_contra hnone
    push Not at hnone
    have hserves (last : Visit) (hlast : Relation.ReflTransGen (Visit.Next document) ⟨[], path, schema⟩ last) :
        Servable last.schema := (hdeclares last hlast).servable (hnone last hlast).1
    obtain ⟨-, last, hlast, hnumber, hhuge⟩ := hmakes.onlyBeyond_of_servable hserves error herror
    exact (hnone last hlast).2 hnumber hhuge
  · intro found hfound
    have hanswers := hmakes.answers hdeclares hfound
    refine ⟨⟨?_, fun hlacks => ?_⟩, ?_⟩
    · rintro rfl
      exact hanswers
    · cases found with
      | none => rfl
      | some sample => exact absurd hanswers hlacks.not_conforms
    · rintro sample rfl
      exact hanswers

namespace Lineage

/-- A reference to the schema of a person. -/
def toPerson : List (Datum × Datum) :=
  [(.text "$ref", .text "#/components/schemas/Person")]

/-- The schema of an address. -/
def mail : List (Datum × Datum) :=
  [(.text "type", .text "string"), (.text "format", .text "email")]

/-- The schema of a height, which is a number that is not too small. -/
def size : List (Datum × Datum) :=
  [(.text "type", .text "number"), (.text "minimum", .int 1)]

/-- The schema of a list of persons. -/
def persons : List (Datum × Datum) :=
  [(.text "type", .text "array"), (.text "items", .map toPerson)]

/-- The schema of a person, who has a parent and children. -/
def person : List (Datum × Datum) :=
  [(.text "properties", .map [(.text "mail", .map mail), (.text "parent", .map toPerson), (.text "size", .map size),
    (.text "children", .map persons)])]

/-- A document with the schema of a person. -/
def document : Datum :=
  .map [(.text "components", .map [(.text "schemas", .map [(.text "Person", .map person)])])]

theorem resolvePointer_person : resolvePointer document "#/components/schemas/Person" = some (.map person) := rfl

theorem schema_of_visited {last : Visit} (h : Relation.ReflTransGen (Visit.Next document) ⟨[], [], toPerson⟩ last) :
    last.schema ∈ [toPerson, person, mail, size, persons] := by
  induction h with
  | refl => exact List.mem_cons_self
  | @tail visit next _ hnext ih =>
      rcases visit with ⟨followed, path, schema⟩
      simp only [List.mem_cons, List.not_mem_nil, or_false] at ih ⊢
      cases hnext with
      | follow hreference _ htarget =>
          rcases ih with rfl | rfl | rfl | rfl | rfl
          · obtain rfl := Option.some.inj hreference
            exact .inr (.inl (Datum.map.inj (Option.some.inj (htarget.symm.trans resolvePointer_person))))
          all_goals cases hreference
      | nested hschema hnested =>
          rcases ih with rfl | rfl | rfl | rfl | rfl
          · cases hschema
          · cases hnested with
            | property hproperties hproperty =>
                obtain rfl := Datum.map.inj (Option.some.inj hproperties)
                simp only [List.mem_cons, Prod.mk.injEq, Datum.map.injEq, List.not_mem_nil, or_false] at hproperty
                rcases hproperty with ⟨-, rfl⟩ | ⟨-, rfl⟩ | ⟨-, rfl⟩ | ⟨-, rfl⟩
                all_goals simp
            | items hitems => cases hitems
          all_goals
            cases hnested with
            | property hproperties => cases hproperties
            | items hitems =>
                cases hitems
                all_goals simp

theorem declaresType_person : DeclaresType person := by
  refine ⟨by decide +kernel, fun value hvalue => ?_, nofun, fun _ => .inl rfl, nofun⟩
  cases hvalue
  refine ⟨_, rfl, fun entry hentry => ?_⟩
  simp only [List.mem_cons, List.not_mem_nil, or_false] at hentry
  rcases hentry with rfl | rfl | rfl | rfl
  all_goals exact ⟨_, rfl⟩

theorem declaresType_persons : DeclaresType persons := by
  refine ⟨by decide +kernel, nofun, fun value hvalue => ?_, nofun, nofun⟩
  cases hvalue
  exact ⟨_, rfl⟩

theorem declaresType_size : DeclaresType size := by
  refine .of_flat (by decide +kernel) rfl rfl fun value hvalue => ?_
  cases hvalue
  exact ⟨_, rfl, trivial⟩

theorem declaresType {schema : List (Datum × Datum)} (h : schema ∈ [toPerson, person, mail, size, persons]) :
    DeclaresType schema := by
  simp only [List.mem_cons, List.not_mem_nil, or_false] at h
  rcases h with rfl | rfl | rfl | rfl | rfl
  · exact .of_flat (by decide +kernel) rfl rfl nofun
  · exact declaresType_person
  · exact .of_flat (by decide +kernel) rfl rfl nofun
  · exact declaresType_size
  · exact declaresType_persons

end Lineage

/-- The parent of a person is left out and the children are an empty list, since both lead back to persons. -/
theorem exampleFor_conforms_lineage :
    (∀ last, Relation.ReflTransGen (Visit.Next Lineage.document) ⟨[], [], Lineage.toPerson⟩ last →
      DeclaresType last.schema) ∧
      ∃ sample, exampleFor [] (.map Lineage.toPerson) Lineage.document = .ok (some sample) ∧
        sample.value = .map [(.text "mail", .text "user@example.com"),
          (.text "size", .number (.float (.ofInt 1))), (.text "children", .list [])] ∧
        Conforms Lineage.document [] Lineage.toPerson sample.value := by
  have hdeclares (last : Visit)
      (hlast : Relation.ReflTransGen (Visit.Next Lineage.document) ⟨[], [], Lineage.toPerson⟩ last) :
      DeclaresType last.schema := Lineage.declaresType (Lineage.schema_of_visited hlast)
  refine ⟨hdeclares, _, rfl, rfl, ?_⟩
  exact ((exampleFor_conforms hdeclares).2 _ rfl).2 _ rfl

/-- A schema of texts whose format is a list of formats. -/
def formatsSchema : List (Datum × Datum) :=
  [(.text "type", .text "string"), (.text "format", .list [.text "date"])]

/-- A schema of numbers from a power of ten on that is beyond the double-precision ones. -/
def hugeSchema : List (Datum × Datum) :=
  [(.text "type", .text "number"), (.text "minimum", .int (10 ^ 400))]

/-- Both schemas declare their types, and making an example for them fails. -/
theorem exampleFor_raises :
    (∀ last, Relation.ReflTransGen (Visit.Next (.map [])) ⟨[], [], formatsSchema⟩ last → DeclaresType last.schema) ∧
      exampleFor [] (.map formatsSchema) (.map []) = .error .wrongKind ∧
      (∀ last, Relation.ReflTransGen (Visit.Next (.map [])) ⟨[], [], hugeSchema⟩ last → DeclaresType last.schema) ∧
      exampleFor [] (.map hugeSchema) (.map []) = .error .outOfRange := by
  refine ⟨fun last hlast => ?_, rfl, fun last hlast => ?_, ?_⟩
  · rw [schema_of_visited_flat rfl rfl rfl hlast]
    exact .of_flat (by decide +kernel) rfl rfl nofun
  · rw [schema_of_visited_flat rfl rfl rfl hlast]
    refine .of_flat (by decide +kernel) rfl rfl fun value hvalue => ?_
    cases hvalue
    exact ⟨_, rfl, trivial⟩
  · -- The power is beyond all doubles, and so is a schema's least value.
    have hhuge : Binary64.ofInt (10 ^ 400) = .infinite false := by decide +kernel
    have hnumber : numberExample (some (.int (10 ^ 400))) = .error .outOfRange := by
      have htruthy : (Datum.int (10 ^ 400)).isTruthy = true := by decide +kernel
      rw [numberExample, Option.filter_some, htruthy]
      simp only [if_pos, hhuge]
    calc
      exampleFor [] (.map hugeSchema) (.map []) =
          numberExample (some (.int (10 ^ 400))) >>= fun value => .ok (some (.plain value)) := rfl
      _ = .error .outOfRange := by rw [hnumber]; rfl

end DocCompiler
