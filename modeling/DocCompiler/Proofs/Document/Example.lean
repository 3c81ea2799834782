import DocCompiler.Document.Example
import DocCompiler.Proofs.Data.Numbers
import DocCompiler.Proofs.Data.Registry
import DocCompiler.Proofs.Data.Result
import Mathlib.Data.List.Induction
import Mathlib.Logic.Relation
import Mathlib.Order.Nat

/-!
Making an example ends: references are followed once on each way down, and between two of them the way only
leads deeper into a schema. The examples are those of a derivation that knows of no bound on its steps.
-/

namespace DocCompiler

section Body

variable {nested other : DatumPath → List (Datum × Datum) → Except ShapeError (Option Sample)}
  {path place : DatumPath} {schema inner : List (Datum × Datum)}

/-- The pointer of a schema that is a reference. -/
def reference? (schema : List (Datum × Datum)) : Option String :=
  (Datum.lookup (.text "$ref") schema).bind Datum.text?

/-- Schemas nested in the one at a path: properties and items. -/
inductive Nested (path : DatumPath) (schema : List (Datum × Datum)) : DatumPath → List (Datum × Datum) → Prop
  | property {entries inner : List (Datum × Datum)} {key : Datum}
      (hproperties : Datum.lookup (.text "properties") schema = some (.map entries))
      (hproperty : (key, .map inner) ∈ entries) : Nested path schema (path ++ [.text "properties", key]) inner
  | items {inner : List (Datum × Datum)} (hitems : Datum.lookup (.text "items") schema = some (.map inner)) :
      Nested path schema (path ++ [.text "items"]) inner

/-- Whether a schema says that it is of a kind. -/
def isOfKind (schema : List (Datum × Datum)) (name : String) : Bool :=
  match Datum.lookup (.text "type") schema with
  | some (.text type) => type == name
  | _ => false

/-- Whether a schema is one of objects: it says so, or it has properties. -/
def isOfObjects (schema : List (Datum × Datum)) : Bool :=
  isOfKind schema "object" || (Datum.lookup (.text "properties") schema).isSome

/-- The example that a schema itself gives: its own one, a default, or the first of its choices. -/
def givenExample? (path : DatumPath) (schema : List (Datum × Datum)) :
    Option (Except ShapeError (Option Sample)) :=
  match Datum.lookup (.text "example") schema with
  | some value => some (.ok (Sample.borrowed (path ++ [.text "example"]) value).present?)
  | none =>
      match (Datum.lookup (.text "default") schema).filter (!·.isNull) with
      | some value => some (.ok (some (.borrowed (path ++ [.text "default"]) value)))
      | none =>
          match (Datum.lookup (.text "enum") schema).filter Datum.isTruthy with
          | some choices => some (return (← firstChoice path choices).present?)
          | none => none

/-- The field that a property gives. -/
def fieldExample (nested : DatumPath → List (Datum × Datum) → Except ShapeError (Option Sample))
    (path : DatumPath) (entry : Datum × Datum) : Except ShapeError (Option (Datum × Sample)) :=
  match entry.2 with
  | .map inner => do
      let sample ← nested (path ++ [.text "properties", entry.1]) inner
      return sample.map fun sample => (entry.1, sample)
  | _ => return none

/-- The example of an object. -/
def objectExample (nested : DatumPath → List (Datum × Datum) → Except ShapeError (Option Sample))
    (path : DatumPath) (schema : List (Datum × Datum)) : Except ShapeError (Option Sample) := do
  let fields ← (← propertyEntries schema).filterMapM (fieldExample nested path)
  return some (.object fields)

/-- The example of an array. -/
def arrayExample (nested : DatumPath → List (Datum × Datum) → Except ShapeError (Option Sample))
    (path : DatumPath) (schema : List (Datum × Datum)) : Except ShapeError (Option Sample) :=
  match Datum.lookup (.text "items") schema with
  | some (.map inner) => do
      let item ← nested (path ++ [.text "items"]) inner
      return some (.array item.toList)
  | _ => return some (.array [])

/-- The example of a text, a number or a truth value. -/
def scalarExample (schema : List (Datum × Datum)) : Except ShapeError (Option Sample) := do
  if isOfKind schema "string" then return some (.plain (← textExample (Datum.lookup (.text "format") schema)))
  if isOfKind schema "integer" then return some (.plain (← integerExample (Datum.lookup (.text "minimum") schema)))
  if isOfKind schema "number" then return some (.plain (← numberExample (Datum.lookup (.text "minimum") schema)))
  if isOfKind schema "boolean" then return some (.plain (.bool true))
  return none

theorem exampleBody_eq (nested : DatumPath → List (Datum × Datum) → Except ShapeError (Option Sample))
    (path : DatumPath) (schema : List (Datum × Datum)) :
    exampleBody nested path schema = (givenExample? path schema).getD
      (if isOfObjects schema then objectExample nested path schema
        else if isOfKind schema "array" then arrayExample nested path schema
        else scalarExample schema) := by
  unfold exampleBody givenExample?
  cases hexample : Datum.lookup (.text "example") schema with
  | some value => simp only [hexample]; rfl
  | none =>
      cases hdefault : (Datum.lookup (.text "default") schema).filter (!·.isNull) with
      | some value => simp only [hexample, hdefault]; rfl
      | none =>
          cases hchoices : (Datum.lookup (.text "enum") schema).filter Datum.isTruthy with
          | some choices => simp only [hexample, hdefault, hchoices]; rfl
          | none => simp only [hexample, hdefault, hchoices]; rfl

theorem propertyEntries_eq_ok {entries : List (Datum × Datum)} {entry : Datum × Datum}
    (h : propertyEntries schema = .ok entries) (hentry : entry ∈ entries) :
    Datum.lookup (.text "properties") schema = some (.map entries) := by
  unfold propertyEntries at h
  split at h
  · obtain rfl := Except.ok.inj h
    cases hentry
  · next found hfound =>
    obtain rfl := Except.ok.inj h
    exact (Option.filter_eq_some_iff.mp hfound).1
  · cases h

theorem objectExample_of_ok {entries : List (Datum × Datum)} (h : propertyEntries schema = .ok entries) :
    objectExample nested path schema =
      entries.filterMapM (fieldExample nested path) >>= fun fields => .ok (some (.object fields)) := by
  rw [objectExample, h]
  rfl

theorem objectExample_congr
    (h : ∀ place inner, Nested path schema place inner → nested place inner = other place inner) :
    objectExample nested path schema = objectExample other path schema := by
  cases hentries : propertyEntries schema with
  | error error => rw [objectExample, objectExample, hentries]; rfl
  | ok entries =>
      have hfields : entries.filterMapM (fieldExample nested path) = entries.filterMapM (fieldExample other path) := by
        refine Result.filterMapM_congr fun entry hentry => ?_
        rcases entry with ⟨key, value⟩
        cases value with
        | map inner =>
            have hproperties := propertyEntries_eq_ok hentries hentry
            simp only [fieldExample, h _ _ (.property hproperties hentry)]
        | _ => rfl
      rw [objectExample_of_ok hentries, objectExample_of_ok hentries, hfields]

theorem arrayExample_congr
    (h : ∀ place inner, Nested path schema place inner → nested place inner = other place inner) :
    arrayExample nested path schema = arrayExample other path schema := by
  unfold arrayExample
  split
  · next inner hitems => rw [h _ _ (.items hitems)]
  · rfl

/-- What is made of a schema depends on what is made of those nested in it. -/
theorem exampleBody_congr
    (h : ∀ place inner, Nested path schema place inner → nested place inner = other place inner) :
    exampleBody nested path schema = exampleBody other path schema := by
  rw [exampleBody_eq, exampleBody_eq, objectExample_congr h, arrayExample_congr h]

end Body

/-- A call for an example: the pointers followed before, the last one first, and a schema with its path. -/
structure Visit where
  followed : List String
  path : DatumPath
  schema : List (Datum × Datum)

namespace Visit

/-- The calls that a call may lead to: for the target of a reference that was not followed before, and for
schemas nested in one that is no reference. -/
inductive Next (document : Datum) (visit : Visit) : Visit → Prop
  | follow {pointer : String} {target : List (Datum × Datum)} (hreference : reference? visit.schema = some pointer)
      (hnew : pointer ∉ visit.followed) (htarget : resolvePointer document pointer = some (.map target)) :
      Next document visit ⟨pointer :: visit.followed, pointerPath pointer, target⟩
  | nested {place : DatumPath} {inner : List (Datum × Datum)} (hschema : reference? visit.schema = none)
      (hnested : Nested visit.path visit.schema place inner) : Next document visit ⟨visit.followed, place, inner⟩

end Visit

/-- Making an example, as a derivation: there is none for a reference that was followed before or leads to no
mapping; any other reference is followed, and what is no reference is made an example of with those of the
schemas nested in it. -/
inductive Makes (document : Datum) : Visit → Except ShapeError (Option Sample) → Prop
  | stop {visit : Visit} {pointer : String} (hreference : reference? visit.schema = some pointer)
      (hstop : pointer ∈ visit.followed ∨ ∀ target, resolvePointer document pointer ≠ some (.map target)) :
      Makes document visit (.ok none)
  | follow {visit : Visit} {pointer : String} {target : List (Datum × Datum)}
      {result : Except ShapeError (Option Sample)} (hreference : reference? visit.schema = some pointer)
      (hnew : pointer ∉ visit.followed) (htarget : resolvePointer document pointer = some (.map target))
      (hmakes : Makes document ⟨pointer :: visit.followed, pointerPath pointer, target⟩ result) :
      Makes document visit result
  | body {visit : Visit} {nested : DatumPath → List (Datum × Datum) → Except ShapeError (Option Sample)}
      (hschema : reference? visit.schema = none)
      (hnested : ∀ place inner, Nested visit.path visit.schema place inner →
        Makes document ⟨visit.followed, place, inner⟩ (nested place inner)) :
      Makes document visit (exampleBody nested visit.path visit.schema)

section Derivation

variable {document : Datum} {visit : Visit} {result : Except ShapeError (Option Sample)}

theorem Makes.unique {other : Except ShapeError (Option Sample)} (h : Makes document visit result)
    (hother : Makes document visit other) : result = other := by
  induction h generalizing other with
  | stop hreference hstop =>
      cases hother with
      | stop => rfl
      | follow hsame hnew htarget =>
          obtain rfl := Option.some.inj (hreference.symm.trans hsame)
          exact absurd htarget (hstop.resolve_left hnew _)
      | body hschema => exact absurd (hreference.symm.trans hschema) (Option.some_ne_none _)
  | follow hreference hnew htarget _ ih =>
      cases hother with
      | stop hsame hstop =>
          obtain rfl := Option.some.inj (hreference.symm.trans hsame)
          exact absurd htarget (hstop.resolve_left hnew _)
      | follow hsame _ hfound hmakes =>
          obtain rfl := Option.some.inj (hreference.symm.trans hsame)
          obtain rfl := Datum.map.inj (Option.some.inj (htarget.symm.trans hfound))
          exact ih hmakes
      | body hschema => exact absurd (hreference.symm.trans hschema) (Option.some_ne_none _)
  | body hschema _ ih =>
      cases hother with
      | stop hreference => exact absurd (hreference.symm.trans hschema) (Option.some_ne_none _)
      | follow hreference => exact absurd (hreference.symm.trans hschema) (Option.some_ne_none _)
      | body _ hnested =>
          exact exampleBody_congr fun place inner hinner => ih place inner hinner (hnested place inner hinner)

/-- A derivation leaves no endless way of calls. -/
theorem Makes.acc (h : Makes document visit result) : Acc (fun next visit => Visit.Next document visit next) visit := by
  induction h with
  | stop hreference hstop =>
      refine ⟨_, fun next hnext => ?_⟩
      cases hnext with
      | follow hsame hnew htarget =>
          obtain rfl := Option.some.inj (hreference.symm.trans hsame)
          exact absurd htarget (hstop.resolve_left hnew _)
      | nested hschema => exact absurd (hreference.symm.trans hschema) (Option.some_ne_none _)
  | follow hreference hnew htarget _ ih =>
      refine ⟨_, fun next hnext => ?_⟩
      cases hnext with
      | follow hsame _ hfound =>
          obtain rfl := Option.some.inj (hreference.symm.trans hsame)
          obtain rfl := Datum.map.inj (Option.some.inj (htarget.symm.trans hfound))
          exact ih
      | nested hschema => exact absurd (hreference.symm.trans hschema) (Option.some_ne_none _)
  | body hschema _ ih =>
      refine ⟨_, fun next hnext => ?_⟩
      cases hnext with
      | follow hreference => exact absurd (hreference.symm.trans hschema) (Option.some_ne_none _)
      | nested _ hnested => exact ih _ _ hnested

/-- No pointer is followed twice on the way to a call. -/
theorem nodup_followed (hvisit : visit.followed.Nodup) {last : Visit}
    (h : Relation.ReflTransGen (Visit.Next document) visit last) : last.followed.Nodup := by
  induction h with
  | refl => exact hvisit
  | tail _ hnext ih =>
      cases hnext with
      | follow _ hnew _ => exact List.nodup_cons.mpr ⟨hnew, ih⟩
      | nested => exact ih

end Derivation

namespace Datum

/-- One value is no higher than another one and holds no pointers but those of the other one. -/
structure PartOf (part whole : Datum) : Prop where
  height : part.height ≤ whole.height
  pointers : part.pointers ⊆ whole.pointers

variable {part whole value key : Datum} {entries : List (Datum × Datum)}

theorem PartOf.trans {outer : Datum} (h : part.PartOf whole) (houter : whole.PartOf outer) : part.PartOf outer :=
  ⟨h.height.trans houter.height, List.Subset.trans h.pointers houter.pointers⟩

theorem height_le_of_mem (h : (key, value) ∈ entries) : value.height ≤ entriesHeight entries := by
  induction entries with
  | nil => cases h
  | cons entry rest ih =>
      rw [entriesHeight]
      rcases List.mem_cons.mp h with rfl | hrest
      · exact Nat.le_max_left _ _
      · exact (ih hrest).trans (Nat.le_max_right _ _)

theorem entryPointers_subset_cons (entry : Datum × Datum) (entries : List (Datum × Datum)) :
    entryPointers entries ⊆ entryPointers (entry :: entries) :=
  fun pointer hpointer => by simp [entryPointers, hpointer]

theorem pointers_subset_of_mem (h : (key, value) ∈ entries) : value.pointers ⊆ entryPointers entries := by
  induction entries with
  | nil => cases h
  | cons entry rest ih =>
      rcases List.mem_cons.mp h with rfl | hrest
      · exact fun pointer hpointer => by simp [entryPointers, hpointer]
      · exact List.Subset.trans (ih hrest) (entryPointers_subset_cons entry rest)

theorem height_lt_of_mem (h : (key, value) ∈ entries) : value.height < (map entries).height := by
  have hle := height_le_of_mem h
  rw [height]
  omega

theorem partOf_of_mem (h : (key, value) ∈ entries) : value.PartOf (map entries) :=
  ⟨(height_lt_of_mem h).le, pointers_subset_of_mem h⟩

theorem mem_of_lookup_text {name : String} (h : lookup (.text name) entries = some value) :
    (.text name, value) ∈ entries := by
  obtain ⟨found, hsame, hmem⟩ := mem_of_lookup_eq_some h
  rwa [sameKey_text.mp hsame] at hmem

theorem mem_pointers_of_reference {pointer : String} (h : reference? entries = some pointer) :
    pointer ∈ (map entries).pointers := by
  obtain ⟨value, hvalue, htext⟩ := Option.bind_eq_some_iff.mp h
  obtain rfl : value = .text pointer := by
    cases value with
    | text text => rw [Option.some.inj htext]
    | _ => cases htext
  have hmem := mem_of_lookup_text hvalue
  clear h hvalue htext
  rw [pointers]
  induction entries with
  | nil => cases hmem
  | cons entry rest ih =>
      rcases List.mem_cons.mp hmem with rfl | hrest
      · simp [entryPointers]
      · simp [entryPointers, ih hrest]

theorem partOf_of_field? {name : String} (h : field? name whole = some part) : part.PartOf whole := by
  cases whole with
  | map entries => exact partOf_of_mem (mem_of_lookup_text h)
  | _ => cases h

/-- What a pointer addresses is a part of the document. -/
theorem partOf_of_resolvePointer {document : Datum} {pointer : String}
    (h : resolvePointer document pointer = some value) : value.PartOf document := by
  rw [resolvePointer] at h
  split_ifs at h with hstart
  generalize Text.splitOn '/' (String.ofList (pointer.toList.drop 2)) = names at h
  induction names using List.reverseRecOn generalizing value with
  | nil =>
      obtain rfl := Option.some.inj h
      exact ⟨le_rfl, fun _ hmem => hmem⟩
  | append_singleton names name ih =>
      rw [List.foldl_append, List.foldl_cons, List.foldl_nil] at h
      obtain ⟨whole, hwhole, hfield⟩ := Option.bind_eq_some_iff.mp h
      exact (partOf_of_field? hfield).trans (ih hwhole)

end Datum

section Enough

variable {document : Datum} {path place : DatumPath} {schema inner : List (Datum × Datum)} {visit next : Visit}

theorem Nested.height_lt (h : Nested path schema place inner) : (Datum.map inner).height < (Datum.map schema).height := by
  cases h with
  | property hproperties hproperty =>
      exact (Datum.height_lt_of_mem hproperty).trans (Datum.height_lt_of_mem (Datum.mem_of_lookup_text hproperties))
  | items hitems => exact Datum.height_lt_of_mem (Datum.mem_of_lookup_text hitems)

theorem Nested.partOf (h : Nested path schema place inner) : (Datum.map inner).PartOf (.map schema) := by
  cases h with
  | property hproperties hproperty =>
      exact (Datum.partOf_of_mem hproperty).trans (Datum.partOf_of_mem (Datum.mem_of_lookup_text hproperties))
  | items hitems => exact Datum.partOf_of_mem (Datum.mem_of_lookup_text hitems)

/-- How many of some pointers were not followed. -/
def remaining (pointers followed : List String) : Nat :=
  (pointers.filter (· ∉ followed)).length

theorem remaining_cons {pointers followed : List String} {pointer : String} (h : pointer ∈ pointers)
    (hnew : pointer ∉ followed) : remaining pointers (pointer :: followed) < remaining pointers followed := by
  have hfilter : pointers.filter (· ∉ pointer :: followed) = (pointers.filter (· ∉ followed)).filter (· ≠ pointer) := by
    rw [List.filter_filter]
    refine List.filter_congr fun other _ => ?_
    simp [not_or]
  rw [remaining, hfilter]
  exact List.length_filter_lt_length_iff_exists.mpr
    ⟨pointer, List.mem_filter.mpr ⟨h, decide_eq_true hnew⟩, by simp⟩

/-- Steps that are enough for a call: between two references the way leads no deeper than the bound. -/
structure Enough (pointers : List String) (bound fuel : Nat) (visit : Visit) : Prop where
  known : (Datum.map visit.schema).pointers ⊆ pointers
  height : (Datum.map visit.schema).height < bound
  fuel : remaining pointers visit.followed * bound + (Datum.map visit.schema).height ≤ fuel

theorem Enough.step {pointers : List String} {bound fuel : Nat} (hpointers : document.pointers ⊆ pointers)
    (hbound : document.height < bound) (h : Enough pointers bound (fuel + 1) visit)
    (hnext : Visit.Next document visit next) : Enough pointers bound fuel next := by
  have henough := h.fuel
  cases hnext with
  | @follow pointer target hreference hnew htarget =>
      -- One pointer less remains, which makes up for the height of any schema of the document.
      have hpart := Datum.partOf_of_resolvePointer htarget
      have hheight : (Datum.map target).height < bound := hpart.height.trans_lt hbound
      refine ⟨List.Subset.trans hpart.pointers hpointers, hheight, ?_⟩
      have hless := remaining_cons (h.known (Datum.mem_pointers_of_reference hreference)) hnew
      have hmul : (remaining pointers (pointer :: visit.followed) + 1) * bound ≤
          remaining pointers visit.followed * bound := Nat.mul_le_mul_right bound hless
      have hpos : 0 < (Datum.map visit.schema).height := by
        rw [Datum.height]
        omega
      rw [Nat.succ_mul] at hmul
      change remaining pointers (pointer :: visit.followed) * bound + (Datum.map target).height ≤ fuel
      omega
  | @nested place inner hschema hnested =>
      have hless := hnested.height_lt
      refine ⟨List.Subset.trans hnested.partOf.pointers h.known, hless.trans h.height, ?_⟩
      change remaining pointers visit.followed * bound + (Datum.map inner).height ≤ fuel
      omega

/-- With a step to spare, a reference is followed unless it was, and what is no reference is an example made
of. -/
theorem exampleAt_succ (fuel : Nat) (followed : List String) :
    exampleAt document (fuel + 1) followed path schema =
      match reference? schema with
      | some pointer =>
          if pointer ∈ followed then .ok none
          else
            match resolvePointer document pointer with
            | some (.map target) => exampleAt document fuel (pointer :: followed) (pointerPath pointer) target
            | _ => .ok none
      | none => exampleBody (exampleAt document fuel followed) path schema := by
  rw [exampleAt, reference?]
  cases Datum.lookup (.text "$ref") schema with
  | none => rfl
  | some value =>
      cases value with
      | text pointer =>
          simp only [List.contains_iff_mem]
          rfl
      | _ => rfl

/-- With enough steps an example is made. -/
theorem makes_exampleAt {pointers : List String} {bound fuel : Nat} (hpointers : document.pointers ⊆ pointers)
    (hbound : document.height < bound) (h : Enough pointers bound fuel visit) :
    Makes document visit (exampleAt document fuel visit.followed visit.path visit.schema) := by
  induction fuel generalizing visit with
  | zero =>
      -- A schema has a level of its own, so that without steps there are never enough.
      have hpos : 0 < (Datum.map visit.schema).height := by
        rw [Datum.height]
        omega
      have hfuel := h.fuel
      omega
  | succ fuel ih =>
      have hstep {next : Visit} (hnext : Visit.Next document visit next) :=
        ih (h.step hpointers hbound hnext)
      rw [exampleAt_succ]
      cases hreference : reference? visit.schema with
      | none => exact .body hreference fun place inner hinner => hstep (.nested hreference hinner)
      | some pointer =>
          dsimp only
          split
          · next hseen => exact .stop hreference (.inl hseen)
          · next hnew =>
            split
            · next target htarget => exact .follow hreference hnew htarget (hstep (.follow hreference hnew htarget))
            · next hnone => exact .stop hreference (.inr hnone)

theorem height_le_exampleFuel (schema document : Datum) : schema.height ≤ exampleFuel schema document :=
  calc
    schema.height ≤ max schema.height document.height + 1 := (Nat.le_max_left _ _).trans (Nat.le_succ _)
    _ ≤ exampleFuel schema document := Nat.le_mul_of_pos_left _ (Nat.succ_pos _)

theorem makes_exampleFor (document : Datum) (path : DatumPath) (schema : List (Datum × Datum)) :
    Makes document ⟨[], path, schema⟩ (exampleFor path (.map schema) document) := by
  let pointers := (Datum.map schema).pointers ++ document.pointers
  let bound := max (Datum.map schema).height document.height + 1
  suffices henough : Enough pointers bound (exampleFuel (.map schema) document) ⟨[], path, schema⟩ from
    makes_exampleAt (List.subset_append_right _ _) (Nat.lt_succ_of_le (Nat.le_max_right _ _)) henough
  refine ⟨List.subset_append_left _ _, Nat.lt_succ_of_le (Nat.le_max_left _ _), ?_⟩
  have hremaining : remaining pointers [] * bound ≤ pointers.length * bound :=
    Nat.mul_le_mul_right _ (List.length_filter_le _ _)
  have hheight : (Datum.map schema).height ≤ bound := (Nat.le_max_left _ _).trans (Nat.le_succ _)
  rw [exampleFuel, Nat.succ_mul]
  exact Nat.add_le_add hremaining hheight

/-- Making an example ends, and its outcome is that of the only derivation. -/
theorem makes_iff {result : Except ShapeError (Option Sample)} :
    Makes document ⟨[], path, schema⟩ result ↔ exampleFor path (.map schema) document = result := by
  refine ⟨(makes_exampleFor document path schema).unique, ?_⟩
  rintro rfl
  exact makes_exampleFor document path schema

end Enough

section WellShaped

variable {nested : DatumPath → List (Datum × Datum) → Except ShapeError (Option Sample)}
  {path : DatumPath} {schema : List (Datum × Datum)} {beyond : Prop}

/-- A schema as it stands in a written document, as far as examples look at it. -/
structure WellShaped (schema : List (Datum × Datum)) : Prop where
  properties : ∀ value, Datum.lookup (.text "properties") schema = some value → ∃ entries, value = .map entries
  minimum : ∀ value, Datum.lookup (.text "minimum") schema = some value →
    ∃ number : Number, value = .number number ∧ number.IsFinite
  choices : ∀ value, Datum.lookup (.text "enum") schema = some value → ∃ items, value = .list items
  format : ∀ value, Datum.lookup (.text "format") schema = some value → ∃ text, value = .text text

/-- A schema of texts says that its format is a list or a mapping with something in it, which no table of
formats has an entry for. -/
def HasOddFormat (schema : List (Datum × Datum)) : Prop :=
  isOfKind schema "string" = true ∧
    ∃ value, Datum.lookup (.text "format") schema = some value ∧ value.isTruthy = true ∧
      ((∃ items, value = .list items) ∨ ∃ entries, value = .map entries)

/-- A schema that an example can be made for, as far as no number is out of range. -/
structure Servable (schema : List (Datum × Datum)) : Prop where
  properties : ∀ value, Datum.lookup (.text "properties") schema = some value → ∃ entries, value = .map entries
  minimum : ∀ value, Datum.lookup (.text "minimum") schema = some value →
    ∃ number : Number, value = .number number ∧ number.IsFinite
  choices : ∀ value, Datum.lookup (.text "enum") schema = some value → ∃ items, value = .list items
  format : ¬ HasOddFormat schema

theorem WellShaped.servable (h : WellShaped schema) : Servable schema := by
  refine ⟨h.properties, h.minimum, h.choices, ?_⟩
  rintro ⟨-, value, hvalue, -, hodd⟩
  obtain ⟨text, rfl⟩ := h.format value hvalue
  rcases hodd with ⟨items, hitems⟩ | ⟨entries, hentries⟩
  · cases hitems
  · cases hentries

/-- The least value of a schema is a whole number beyond all double-precision ones. -/
def HasHugeMinimum (schema : List (Datum × Datum)) : Prop :=
  ∃ value, Datum.lookup (.text "minimum") schema = some (.int value) ∧ (Binary64.ofInt value).isFinite = false

/-- A result is missing only in one case, and then because something is out of range. -/
def OnlyBeyond {α : Type} (beyond : Prop) (result : Except ShapeError α) : Prop :=
  ∀ error, result = .error error → error = .outOfRange ∧ beyond

theorem onlyBeyond_ok {α : Type} {value : α} : OnlyBeyond beyond (.ok value) := nofun

theorem OnlyBeyond.bind {α β : Type} {result : Except ShapeError α} {next : α → Except ShapeError β}
    (h : OnlyBeyond beyond result) (hnext : ∀ value, result = .ok value → OnlyBeyond beyond (next value)) :
    OnlyBeyond beyond (result >>= next) := by
  intro error herror
  rcases Result.bind_eq_error_iff.mp herror with hresult | ⟨value, hvalue, hrest⟩
  · exact h error hresult
  · exact hnext value hvalue error hrest

theorem onlyBeyond_filterMapM {α β : Type} {f : α → Except ShapeError (Option β)} {items : List α}
    (h : ∀ item ∈ items, OnlyBeyond beyond (f item)) : OnlyBeyond beyond (items.filterMapM f) := by
  induction items with
  | nil => exact onlyBeyond_ok
  | cons item rest ih =>
      have hrest := ih fun other hother => h other (List.mem_cons_of_mem _ hother)
      rw [List.filterMapM_cons]
      refine (h item List.mem_cons_self).bind fun found _ => ?_
      cases found with
      | none => exact hrest
      | some first => exact hrest.bind fun _ _ => onlyBeyond_ok

theorem Servable.givenExample? (h : Servable schema) {result : Except ShapeError (Option Sample)}
    (hgiven : DocCompiler.givenExample? path schema = some result) : OnlyBeyond beyond result := by
  unfold DocCompiler.givenExample? at hgiven
  split at hgiven
  · obtain rfl := Option.some.inj hgiven
    exact onlyBeyond_ok
  · split at hgiven
    · obtain rfl := Option.some.inj hgiven
      exact onlyBeyond_ok
    · split at hgiven
      · next choices hchoices =>
        obtain ⟨hlookup, htruthy⟩ := Option.filter_eq_some_iff.mp hchoices
        obtain ⟨items, rfl⟩ := h.choices _ hlookup
        obtain rfl := Option.some.inj hgiven
        cases items with
        | nil => cases htruthy
        | cons first rest => exact onlyBeyond_ok
      · cases hgiven

theorem Servable.objectExample (h : Servable schema)
    (hnested : ∀ place inner, Nested path schema place inner → OnlyBeyond beyond (nested place inner)) :
    OnlyBeyond beyond (DocCompiler.objectExample nested path schema) := by
  obtain ⟨entries, hentries⟩ : ∃ entries, propertyEntries schema = .ok entries := by
    unfold propertyEntries
    split
    · exact ⟨_, rfl⟩
    · exact ⟨_, rfl⟩
    · next value hmap hvalue =>
      obtain ⟨entries, rfl⟩ := h.properties value (Option.filter_eq_some_iff.mp hvalue).1
      exact absurd rfl (hmap entries)
  rw [objectExample_of_ok hentries]
  refine (onlyBeyond_filterMapM fun entry hentry => ?_).bind fun _ _ => onlyBeyond_ok
  rcases entry with ⟨key, value⟩
  cases value with
  | map inner =>
      exact (hnested _ _ (.property (propertyEntries_eq_ok hentries hentry) hentry)).bind fun _ _ => onlyBeyond_ok
  | _ => exact onlyBeyond_ok

theorem onlyBeyond_arrayExample
    (hnested : ∀ place inner, Nested path schema place inner → OnlyBeyond beyond (nested place inner)) :
    OnlyBeyond beyond (arrayExample nested path schema) := by
  unfold arrayExample
  split
  · next inner hitems => exact (hnested _ _ (.items hitems)).bind fun _ _ => onlyBeyond_ok
  · exact onlyBeyond_ok

theorem Servable.textExample (h : Servable schema) (hkind : isOfKind schema "string" = true) :
    OnlyBeyond beyond (DocCompiler.textExample (Datum.lookup (.text "format") schema)) := by
  unfold DocCompiler.textExample
  split
  · exact onlyBeyond_ok
  · next first rest hformat => exact absurd ⟨hkind, _, hformat, rfl, .inl ⟨_, rfl⟩⟩ h.format
  · next first rest hformat => exact absurd ⟨hkind, _, hformat, rfl, .inr ⟨_, rfl⟩⟩ h.format
  · exact onlyBeyond_ok

theorem Servable.integerExample (h : Servable schema) :
    OnlyBeyond beyond (DocCompiler.integerExample (Datum.lookup (.text "minimum") schema)) := by
  cases hminimum : Datum.lookup (.text "minimum") schema with
  | none => exact onlyBeyond_ok
  | some value =>
      obtain ⟨number, rfl, hfinite⟩ := h.minimum value hminimum
      rw [DocCompiler.integerExample, Option.filter_some]
      cases hzero : (Datum.number number).isTruthy with
      | false => exact onlyBeyond_ok
      | true =>
          match number, hfinite with
          | .int _, _ => exact onlyBeyond_ok
          | .float (.finite ..), _ => exact onlyBeyond_ok

theorem Servable.numberExample (h : Servable schema) :
    OnlyBeyond (HasHugeMinimum schema) (DocCompiler.numberExample (Datum.lookup (.text "minimum") schema)) := by
  cases hminimum : Datum.lookup (.text "minimum") schema with
  | none => exact onlyBeyond_ok
  | some value =>
      obtain ⟨number, rfl, hfinite⟩ := h.minimum value hminimum
      rw [DocCompiler.numberExample, Option.filter_some]
      cases hzero : (Datum.number number).isTruthy with
      | false => exact onlyBeyond_ok
      | true =>
          match number, hfinite with
          | .float _, _ => exact onlyBeyond_ok
          | .int value, _ =>
              simp only [if_pos]
              split
              · next negative hhuge =>
                intro error herror
                cases herror
                exact ⟨rfl, value, hminimum, by rw [hhuge]; rfl⟩
              · exact onlyBeyond_ok

theorem OnlyBeyond.mono {α : Type} {more : Prop} {result : Except ShapeError α} (h : OnlyBeyond beyond result)
    (hmore : beyond → more) : OnlyBeyond more result :=
  fun error herror => ⟨(h error herror).1, hmore (h error herror).2⟩

theorem Servable.scalarExample (h : Servable schema) :
    OnlyBeyond (isOfKind schema "number" = true ∧ HasHugeMinimum schema) (DocCompiler.scalarExample schema) := by
  unfold DocCompiler.scalarExample
  split
  · next htext => exact (h.textExample htext).bind fun _ _ => onlyBeyond_ok
  split
  · exact h.integerExample.bind fun _ _ => onlyBeyond_ok
  split
  · next hnumber => exact (h.numberExample.mono fun hhuge => ⟨hnumber, hhuge⟩).bind fun _ _ => onlyBeyond_ok
  split
  · exact onlyBeyond_ok
  · exact onlyBeyond_ok

/-- A schema has an example when those nested in it have, unless a number is out of range. -/
theorem Servable.exampleBody (h : Servable schema)
    (hhuge : isOfKind schema "number" = true ∧ HasHugeMinimum schema → beyond)
    (hnested : ∀ place inner, Nested path schema place inner → OnlyBeyond beyond (nested place inner)) :
    OnlyBeyond beyond (DocCompiler.exampleBody nested path schema) := by
  rw [exampleBody_eq]
  cases hgiven : DocCompiler.givenExample? path schema with
  | some result => exact h.givenExample? hgiven
  | none =>
      rw [Option.getD_none]
      split_ifs with hobjects harray
      · exact h.objectExample hnested
      · exact onlyBeyond_arrayExample hnested
      · exact h.scalarExample.mono hhuge

/-- Schemas that are reached have examples, unless one of them is a schema of numbers whose least value is out
of range. -/
theorem Makes.onlyBeyond_of_servable {document : Datum} {visit : Visit} {result : Except ShapeError (Option Sample)}
    (h : Makes document visit result)
    (hserves : ∀ last, Relation.ReflTransGen (Visit.Next document) visit last → Servable last.schema) :
    OnlyBeyond (∃ last, Relation.ReflTransGen (Visit.Next document) visit last ∧
      isOfKind last.schema "number" = true ∧ HasHugeMinimum last.schema) result := by
  induction h with
  | stop => exact onlyBeyond_ok
  | follow hreference hnew htarget _ ih =>
      have hnext := Visit.Next.follow hreference hnew htarget
      refine (ih fun last hlast => hserves last (hlast.head hnext)).mono ?_
      rintro ⟨last, hlast, hhuge⟩
      exact ⟨last, hlast.head hnext, hhuge⟩
  | @body visit nested hschema _ ih =>
      refine (hserves visit .refl).exampleBody (fun hhuge => ⟨visit, .refl, hhuge⟩) fun place inner hinner => ?_
      have hnext : Visit.Next document visit ⟨visit.followed, place, inner⟩ := .nested hschema hinner
      refine (ih place inner hinner fun last hlast => hserves last (hlast.head hnext)).mono ?_
      rintro ⟨last, hlast, hhuge⟩
      exact ⟨last, hlast.head hnext, hhuge⟩

theorem Makes.onlyBeyond {document : Datum} {visit : Visit} {result : Except ShapeError (Option Sample)}
    (h : Makes document visit result)
    (hshape : ∀ last, Relation.ReflTransGen (Visit.Next document) visit last → WellShaped last.schema) :
    OnlyBeyond (∃ last, Relation.ReflTransGen (Visit.Next document) visit last ∧ HasHugeMinimum last.schema)
      result := by
  refine (h.onlyBeyond_of_servable fun last hlast => (hshape last hlast).servable).mono ?_
  rintro ⟨last, hlast, -, hhuge⟩
  exact ⟨last, hlast, hhuge⟩

end WellShaped

end DocCompiler
