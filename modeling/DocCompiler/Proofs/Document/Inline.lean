import DocCompiler.Proofs.Document.Example
import Mathlib.Data.Fintype.Card
import Mathlib.Data.Set.Finite.List

/-!
References in a written document that form no cycle can be replaced by what they lead to, all the way down.
A schema has the same example before and after.
-/

namespace DocCompiler

namespace Datum

mutual

/-- The pointers of the references in a schema: its own one, or those among its properties and items. -/
def references : Datum → List String
  | .map schema =>
      match reference? schema with
      | some pointer => [pointer]
      | none => fieldReferences schema
  | _ => []

/-- The pointers in the fields of a schema. -/
def fieldReferences : List (Datum × Datum) → List String
  | [] => []
  | (key, value) :: rest =>
      (if key.isText "properties" then propertyReferences value
        else if key.isText "items" then references value
        else []) ++ fieldReferences rest

/-- The pointers in the properties of a schema. -/
def propertyReferences : Datum → List String
  | .map entries => entryReferences entries
  | _ => []

/-- The pointers in schemas under names. -/
def entryReferences : List (Datum × Datum) → List String
  | [] => []
  | (_, value) :: rest => references value ++ entryReferences rest

end

variable (expand : String → List (Datum × Datum))

mutual

/-- A schema with its references replaced: itself, or those among its properties and items. -/
def inlined : Datum → Datum
  | .map schema =>
      match reference? schema with
      | some pointer => .map (expand pointer)
      | none => .map (inlinedFields schema)
  | value => value

/-- Fields of a schema with the references in them replaced. -/
def inlinedFields : List (Datum × Datum) → List (Datum × Datum)
  | [] => []
  | (key, value) :: rest =>
      (key, if key.isText "properties" then inlinedProperties value
        else if key.isText "items" then inlined value
        else value) :: inlinedFields rest

/-- The properties of a schema with the references in them replaced. -/
def inlinedProperties : Datum → Datum
  | .map entries => .map (inlinedEntries entries)
  | value => value

/-- Schemas under names with the references in them replaced. -/
def inlinedEntries : List (Datum × Datum) → List (Datum × Datum)
  | [] => []
  | (key, value) :: rest => (key, inlined value) :: inlinedEntries rest

end

end Datum

/-- A schema with its references replaced. -/
def inlinedSchema (expand : String → List (Datum × Datum)) (schema : List (Datum × Datum)) : List (Datum × Datum) :=
  match reference? schema with
  | some pointer => expand pointer
  | none => Datum.inlinedFields expand schema

section Fields

variable {expand other : String → List (Datum × Datum)} {schema entries : List (Datum × Datum)} {key value : Datum}
  {name : String}

/-- A field of a schema with the references in it replaced. -/
def inlinedField (expand : String → List (Datum × Datum)) (key value : Datum) : Datum :=
  if key.isText "properties" then Datum.inlinedProperties expand value
  else if key.isText "items" then Datum.inlined expand value
  else value

theorem inlined_map : Datum.inlined expand (.map schema) = .map (inlinedSchema expand schema) := by
  rw [Datum.inlined, inlinedSchema]
  split <;> rfl

theorem inlinedFields_cons : Datum.inlinedFields expand ((key, value) :: schema) =
    (key, inlinedField expand key value) :: Datum.inlinedFields expand schema :=
  rfl

theorem lookup_inlinedFields : Datum.lookup (.text name) (Datum.inlinedFields expand schema) =
    (Datum.lookup (.text name) schema).map (inlinedField expand (.text name)) := by
  induction schema with
  | nil => rfl
  | cons entry rest ih =>
      rcases entry with ⟨key, value⟩
      rw [inlinedFields_cons]
      by_cases hkey : key.sameKey (.text name) = true
      · rw [Datum.lookup_cons_of_same hkey, Datum.lookup_cons_of_same hkey, Datum.sameKey_text.mp hkey,
          Option.map_some]
      · rw [Datum.lookup_cons_of_ne hkey, Datum.lookup_cons_of_ne hkey, ih]

theorem lookup_inlinedFields_of_ne (hproperties : name ≠ "properties") (hitems : name ≠ "items") :
    Datum.lookup (.text name) (Datum.inlinedFields expand schema) = Datum.lookup (.text name) schema := by
  have hfield : inlinedField expand (.text name) = id := by
    funext value
    simp [inlinedField, Datum.isText, Datum.text?, hproperties, hitems]
  rw [lookup_inlinedFields, hfield, Option.map_id_fun, id]

theorem lookup_properties_inlinedFields : Datum.lookup (.text "properties") (Datum.inlinedFields expand schema) =
    (Datum.lookup (.text "properties") schema).map (Datum.inlinedProperties expand) :=
  lookup_inlinedFields

theorem lookup_items_inlinedFields : Datum.lookup (.text "items") (Datum.inlinedFields expand schema) =
    (Datum.lookup (.text "items") schema).map (Datum.inlined expand) :=
  lookup_inlinedFields

theorem reference?_inlinedFields : reference? (Datum.inlinedFields expand schema) = reference? schema := by
  rw [reference?, reference?, lookup_inlinedFields_of_ne (by decide) (by decide)]

theorem inlinedEntries_eq_map : Datum.inlinedEntries expand entries =
    entries.map fun entry => (entry.1, Datum.inlined expand entry.2) := by
  induction entries with
  | nil => rfl
  | cons entry rest ih => rw [Datum.inlinedEntries, ih, List.map_cons]

theorem mem_references_of_mem {pointer : String} (hvalue : (key, value) ∈ entries)
    (h : pointer ∈ value.references) : pointer ∈ Datum.entryReferences entries := by
  induction entries with
  | nil => cases hvalue
  | cons entry rest ih =>
      rw [Datum.entryReferences, List.mem_append]
      rcases List.mem_cons.mp hvalue with rfl | hrest
      · exact .inl h
      · exact .inr (ih hrest)

theorem references_of_reference {pointer : String} (h : reference? schema = some pointer) :
    (Datum.map schema).references = [pointer] := by
  rw [Datum.references, h]

theorem references_of_fields (h : reference? schema = none) :
    (Datum.map schema).references = Datum.fieldReferences schema := by
  rw [Datum.references, h]

theorem mem_fieldReferences {pointer : String} (hvalue : (.text name, value) ∈ schema)
    (h : name = "properties" ∧ pointer ∈ value.propertyReferences ∨ name = "items" ∧ pointer ∈ value.references) :
    pointer ∈ Datum.fieldReferences schema := by
  induction schema with
  | nil => cases hvalue
  | cons entry rest ih =>
      rw [Datum.fieldReferences, List.mem_append]
      rcases List.mem_cons.mp hvalue with rfl | hrest
      · refine .inl ?_
        rcases h with ⟨rfl, hpointer⟩ | ⟨rfl, hpointer⟩
        · exact hpointer
        · exact hpointer
      · exact .inr (ih hrest)

/-- The references in a nested schema are among those in the schema around it. -/
theorem Nested.references_subset {path place : DatumPath} {inner : List (Datum × Datum)}
    (hschema : reference? schema = none) (h : Nested path schema place inner) :
    (Datum.map inner).references ⊆ (Datum.map schema).references := by
  rw [references_of_fields hschema]
  intro pointer hpointer
  cases h with
  | property hproperties hproperty =>
      exact mem_fieldReferences (Datum.mem_of_lookup_text hproperties)
        (.inl ⟨rfl, mem_references_of_mem hproperty hpointer⟩)
  | items hitems => exact mem_fieldReferences (Datum.mem_of_lookup_text hitems) (.inr ⟨rfl, hpointer⟩)

end Fields

section Congruence

variable {expand other : String → List (Datum × Datum)}

mutual

/-- What references are replaced by matters only where there are references. -/
theorem inlined_congr (value : Datum) (h : ∀ pointer ∈ value.references, expand pointer = other pointer) :
    value.inlined expand = value.inlined other := by
  cases value with
  | map schema =>
      rw [inlined_map, inlined_map, inlinedSchema, inlinedSchema]
      cases hreference : reference? schema with
      | some pointer =>
          rw [references_of_reference hreference] at h
          exact congrArg Datum.map (h pointer List.mem_cons_self)
      | none =>
          rw [references_of_fields hreference] at h
          exact congrArg Datum.map (inlinedFields_congr schema h)
  | _ => rfl

theorem inlinedFields_congr (schema : List (Datum × Datum))
    (h : ∀ pointer ∈ Datum.fieldReferences schema, expand pointer = other pointer) :
    Datum.inlinedFields expand schema = Datum.inlinedFields other schema := by
  cases schema with
  | nil => rfl
  | cons entry rest =>
      rcases entry with ⟨key, value⟩
      rw [Datum.fieldReferences, List.forall_mem_append] at h
      obtain ⟨hhere, hrest⟩ := h
      rw [inlinedFields_cons, inlinedFields_cons, inlinedFields_congr rest hrest]
      unfold inlinedField
      split_ifs at hhere ⊢ with hproperties hitems
      · rw [inlinedProperties_congr value hhere]
      · rw [inlined_congr value hhere]
      · rfl

theorem inlinedProperties_congr (value : Datum)
    (h : ∀ pointer ∈ value.propertyReferences, expand pointer = other pointer) :
    value.inlinedProperties expand = value.inlinedProperties other := by
  cases value with
  | map entries => exact congrArg Datum.map (inlinedEntries_congr entries h)
  | _ => rfl

theorem inlinedEntries_congr (entries : List (Datum × Datum))
    (h : ∀ pointer ∈ Datum.entryReferences entries, expand pointer = other pointer) :
    Datum.inlinedEntries expand entries = Datum.inlinedEntries other entries := by
  cases entries with
  | nil => rfl
  | cons entry rest =>
      rcases entry with ⟨key, value⟩
      rw [Datum.entryReferences, List.forall_mem_append] at h
      rw [Datum.inlinedEntries, Datum.inlinedEntries, inlined_congr value h.1, inlinedEntries_congr rest h.2]

end

theorem inlinedSchema_congr {schema : List (Datum × Datum)}
    (h : ∀ pointer ∈ (Datum.map schema).references, expand pointer = other pointer) :
    inlinedSchema expand schema = inlinedSchema other schema := by
  have hvalue := inlined_congr (.map schema) h
  rw [inlined_map, inlined_map] at hvalue
  exact Datum.map.inj hvalue

mutual

/-- What is left of references is what there is in what they are replaced by. -/
theorem references_inlined (value : Datum) :
    (value.inlined expand).references =
      value.references.flatMap fun pointer => (Datum.map (expand pointer)).references := by
  cases value with
  | map schema =>
      rw [inlined_map, inlinedSchema]
      cases hreference : reference? schema with
      | some pointer => rw [references_of_reference hreference, List.flatMap_singleton]
      | none =>
          rw [references_of_fields hreference, references_of_fields (reference?_inlinedFields.trans hreference)]
          exact fieldReferences_inlinedFields schema
  | _ => rfl

theorem fieldReferences_inlinedFields (schema : List (Datum × Datum)) :
    Datum.fieldReferences (Datum.inlinedFields expand schema) =
      (Datum.fieldReferences schema).flatMap fun pointer => (Datum.map (expand pointer)).references := by
  cases schema with
  | nil => rfl
  | cons entry rest =>
      rcases entry with ⟨key, value⟩
      rw [inlinedFields_cons, Datum.fieldReferences, Datum.fieldReferences, List.flatMap_append,
        fieldReferences_inlinedFields rest]
      unfold inlinedField
      split_ifs with hproperties hitems
      · rw [propertyReferences_inlinedProperties value]
      · rw [references_inlined value]
      · rfl

theorem propertyReferences_inlinedProperties (value : Datum) :
    (value.inlinedProperties expand).propertyReferences =
      value.propertyReferences.flatMap fun pointer => (Datum.map (expand pointer)).references := by
  cases value with
  | map entries => exact entryReferences_inlinedEntries entries
  | _ => rfl

theorem entryReferences_inlinedEntries (entries : List (Datum × Datum)) :
    Datum.entryReferences (Datum.inlinedEntries expand entries) =
      (Datum.entryReferences entries).flatMap fun pointer => (Datum.map (expand pointer)).references := by
  cases entries with
  | nil => rfl
  | cons entry rest =>
      rcases entry with ⟨key, value⟩
      rw [Datum.inlinedEntries, Datum.entryReferences, Datum.entryReferences, List.flatMap_append,
        references_inlined value, entryReferences_inlinedEntries rest]

end

mutual

/-- The pointers of references are among all pointers. -/
theorem references_subset_pointers (value : Datum) : value.references ⊆ value.pointers := by
  cases value with
  | map schema =>
      cases hreference : reference? schema with
      | some pointer =>
          rw [references_of_reference hreference]
          exact List.cons_subset.mpr ⟨Datum.mem_pointers_of_reference hreference, List.nil_subset _⟩
      | none =>
          rw [references_of_fields hreference, Datum.pointers]
          exact fieldReferences_subset_pointers schema
  | _ => exact List.nil_subset _

theorem fieldReferences_subset_pointers (schema : List (Datum × Datum)) :
    Datum.fieldReferences schema ⊆ Datum.entryPointers schema := by
  cases schema with
  | nil => exact List.nil_subset _
  | cons entry rest =>
      rcases entry with ⟨key, value⟩
      have hvalue : value.pointers ⊆ Datum.entryPointers ((key, value) :: rest) :=
        Datum.pointers_subset_of_mem List.mem_cons_self
      have hrest := Datum.entryPointers_subset_cons (key, value) rest
      rw [Datum.fieldReferences]
      refine List.append_subset.mpr ⟨?_, List.Subset.trans (fieldReferences_subset_pointers rest) hrest⟩
      split_ifs
      · exact List.Subset.trans (propertyReferences_subset_pointers value) hvalue
      · exact List.Subset.trans (references_subset_pointers value) hvalue
      · exact List.nil_subset _

theorem propertyReferences_subset_pointers (value : Datum) : value.propertyReferences ⊆ value.pointers := by
  cases value with
  | map entries =>
      rw [Datum.pointers]
      exact entryReferences_subset_pointers entries
  | _ => exact List.nil_subset _

theorem entryReferences_subset_pointers (entries : List (Datum × Datum)) :
    Datum.entryReferences entries ⊆ Datum.entryPointers entries := by
  cases entries with
  | nil => exact List.nil_subset _
  | cons entry rest =>
      rcases entry with ⟨key, value⟩
      have hvalue : value.pointers ⊆ Datum.entryPointers ((key, value) :: rest) :=
        Datum.pointers_subset_of_mem List.mem_cons_self
      have hrest := Datum.entryPointers_subset_cons (key, value) rest
      rw [Datum.entryReferences]
      exact List.append_subset.mpr ⟨List.Subset.trans (references_subset_pointers value) hvalue,
        List.Subset.trans (entryReferences_subset_pointers rest) hrest⟩

end

end Congruence

section Graph

variable {document : Datum} {schema inner target : List (Datum × Datum)} {pointer next : String}

/-- A pointer leads to a mapping in which there is a reference to another one. -/
def Refers (document : Datum) (pointer next : String) : Prop :=
  ∃ target, resolvePointer document pointer = some (.map target) ∧ next ∈ (Datum.map target).references

/-- A pointer that following references from a schema leads to. -/
def Reached (document : Datum) (schema : List (Datum × Datum)) (pointer : String) : Prop :=
  ∃ start ∈ (Datum.map schema).references, Relation.ReflTransGen (Refers document) start pointer

/-- No pointer that is reached from a schema leads back to itself. -/
def Acyclic (document : Datum) (schema : List (Datum × Datum)) : Prop :=
  ∀ pointer, Reached document schema pointer → ¬ Relation.TransGen (Refers document) pointer pointer

/-- All pointers that are reached from a schema lead to mappings. -/
def Resolves (document : Datum) (schema : List (Datum × Datum)) : Prop :=
  ∀ pointer, Reached document schema pointer → ∃ target, resolvePointer document pointer = some (.map target)

theorem reached_of_mem (h : pointer ∈ (Datum.map schema).references) : Reached document schema pointer :=
  ⟨pointer, h, .refl⟩

theorem reached_of_reference (h : reference? schema = some pointer) : Reached document schema pointer := by
  refine reached_of_mem ?_
  rw [references_of_reference h]
  exact List.mem_cons_self

theorem Reached.refers (h : Reached document schema pointer) (hnext : Refers document pointer next) :
    Reached document schema next := by
  obtain ⟨start, hstart, hpath⟩ := h
  exact ⟨start, hstart, hpath.tail hnext⟩

theorem Reached.mono (hsubset : (Datum.map inner).references ⊆ (Datum.map schema).references)
    (h : Reached document inner pointer) : Reached document schema pointer := by
  obtain ⟨start, hstart, hpath⟩ := h
  exact ⟨start, hsubset hstart, hpath⟩

/-- What is reached from the target of a pointer is reached from the pointer. -/
theorem Reached.transGen (htarget : resolvePointer document pointer = some (.map target))
    (h : Reached document target next) : Relation.TransGen (Refers document) pointer next := by
  obtain ⟨start, hstart, hpath⟩ := h
  exact .head' ⟨target, htarget, hstart⟩ hpath

theorem Reached.of_target (hreference : reference? schema = some pointer)
    (htarget : resolvePointer document pointer = some (.map target)) (h : Reached document target next) :
    Reached document schema next := by
  have hreached : Reached document schema pointer := reached_of_reference hreference
  obtain ⟨start, hstart, hpath⟩ := hreached
  exact ⟨start, hstart, hpath.trans (h.transGen htarget).to_reflTransGen⟩

theorem Reached.mem_pointers (h : Reached document schema pointer) :
    pointer ∈ (Datum.map schema).pointers ++ document.pointers := by
  obtain ⟨start, hstart, hpath⟩ := h
  rcases hpath.cases_tail with rfl | ⟨before, -, target, htarget, hmem⟩
  · exact List.mem_append_left _ (references_subset_pointers _ hstart)
  · have hpart := Datum.partOf_of_resolvePointer htarget
    exact List.mem_append_right _ (hpart.pointers (references_subset_pointers _ hmem))

/-- A pointer comes behind another one on a way along references. -/
def Behind (document : Datum) (schema : List (Datum × Datum))
    (next pointer : { pointer // Reached document schema pointer }) : Prop :=
  Relation.TransGen (Refers document) pointer.1 next.1

/-- Without a cycle there is no endless way along references. -/
theorem Acyclic.wellFounded (h : Acyclic document schema) : WellFounded (Behind document schema) := by
  have hfinite : Finite { pointer // Reached document schema pointer } :=
    ((List.finite_toSet _).subset fun _ hreached => Reached.mem_pointers hreached).to_subtype
  have htrans : IsTrans _ (Behind document schema) := ⟨fun _ _ _ hfirst hsecond => hsecond.trans hfirst⟩
  have hirrefl : Std.Irrefl (Behind document schema) := ⟨fun pointer => h pointer.1 pointer.2⟩
  exact Finite.wellFounded_of_trans_of_irrefl _

/-- What holds of a pointer when it holds of those that it refers to holds of all that are reached. -/
theorem Acyclic.induction {motive : String → Prop} (h : Acyclic document schema)
    (hstep : ∀ pointer, Reached document schema pointer → (∀ next, Refers document pointer next → motive next) →
      motive pointer) (pointer : String) (hpointer : Reached document schema pointer) : motive pointer :=
  h.wellFounded.induction ⟨pointer, hpointer⟩ fun pointer ih => hstep pointer.1 pointer.2 fun next hnext =>
    ih ⟨next, pointer.2.refers hnext⟩ (.single hnext)

end Graph

section Expansion

variable {document : Datum} {schema : List (Datum × Datum)} {expand other : String → List (Datum × Datum)}

/-- Each pointer that is reached from a schema is expanded to the mapping it leads to, with the references in
this mapping replaced likewise. -/
def Expands (document : Datum) (schema : List (Datum × Datum)) (expand : String → List (Datum × Datum)) : Prop :=
  ∀ pointer, Reached document schema pointer → ∃ target, resolvePointer document pointer = some (.map target) ∧
    expand pointer = inlinedSchema expand target

/-- A schema in which all references have been replaced by what they lead to, all the way down. -/
def Inlines (document : Datum) (schema result : List (Datum × Datum)) : Prop :=
  ∃ expand, Expands document schema expand ∧ result = inlinedSchema expand schema

/-- The mapping that a pointer leads to. -/
def pointerTarget (document : Datum) (pointer : String) : List (Datum × Datum) :=
  match resolvePointer document pointer with
  | some (.map target) => target
  | _ => []

open Classical in
/-- What a pointer expands to when it is known what those behind it expand to. -/
noncomputable def expandStep (document : Datum) (schema : List (Datum × Datum))
    (pointer : { pointer // Reached document schema pointer })
    (behind : ∀ next, Behind document schema next pointer → List (Datum × Datum)) : List (Datum × Datum) :=
  inlinedSchema (fun next =>
    if h : ∃ hnext : Reached document schema next, Behind document schema ⟨next, hnext⟩ pointer then
      behind ⟨next, h.1⟩ h.2
    else []) (pointerTarget document pointer.1)

open Classical in
/-- What pointers expand to when references form no cycle. -/
noncomputable def expansion (h : Acyclic document schema) (pointer : String) : List (Datum × Datum) :=
  if hpointer : Reached document schema pointer then
    h.wellFounded.fix (expandStep document schema) ⟨pointer, hpointer⟩
  else []

/-- References that form no cycle can be expanded. -/
theorem expands_expansion (hacyclic : Acyclic document schema) (hresolves : Resolves document schema) :
    Expands document schema (expansion hacyclic) := by
  intro pointer hpointer
  obtain ⟨target, htarget⟩ := hresolves pointer hpointer
  refine ⟨target, htarget, ?_⟩
  have htargetOf : pointerTarget document pointer = target := by rw [pointerTarget, htarget]
  rw [expansion, dif_pos hpointer, WellFounded.fix_eq, expandStep, htargetOf]
  refine inlinedSchema_congr fun next hnext => ?_
  have hrefers : Refers document pointer next := ⟨target, htarget, hnext⟩
  have hreached := hpointer.refers hrefers
  rw [dif_pos ⟨hreached, .single hrefers⟩, expansion, dif_pos hreached]

theorem Expands.eq (hacyclic : Acyclic document schema) (h : Expands document schema expand)
    (hother : Expands document schema other) :
    ∀ pointer, Reached document schema pointer → expand pointer = other pointer := by
  refine hacyclic.induction fun pointer hpointer ih => ?_
  obtain ⟨target, htarget, hexpand⟩ := h pointer hpointer
  obtain ⟨found, hfound, hotherExpand⟩ := hother pointer hpointer
  obtain rfl := Datum.map.inj (Option.some.inj (htarget.symm.trans hfound))
  rw [hexpand, hotherExpand]
  exact inlinedSchema_congr fun next hnext => ih next ⟨target, htarget, hnext⟩

theorem references_inlinedSchema
    (h : ∀ pointer ∈ (Datum.map schema).references, (Datum.map (expand pointer)).references = []) :
    (Datum.map (inlinedSchema expand schema)).references = [] := by
  rw [← inlined_map, references_inlined, List.flatMap_eq_nil_iff]
  exact h

/-- Expanded references leave none. -/
theorem Expands.references_eq_nil (hacyclic : Acyclic document schema) (h : Expands document schema expand) :
    ∀ pointer, Reached document schema pointer → (Datum.map (expand pointer)).references = [] := by
  refine hacyclic.induction fun pointer hpointer ih => ?_
  obtain ⟨target, htarget, hexpand⟩ := h pointer hpointer
  rw [hexpand]
  exact references_inlinedSchema fun next hnext => ih next ⟨target, htarget, hnext⟩

/-- References that form no cycle can be replaced in one way, and none are left. -/
theorem existsUnique_inlines (hacyclic : Acyclic document schema) (hresolves : Resolves document schema) :
    ∃! result, Inlines document schema result := by
  have hexpand := expands_expansion hacyclic hresolves
  refine ⟨inlinedSchema (expansion hacyclic) schema, ⟨_, hexpand, rfl⟩, ?_⟩
  rintro _ ⟨other, hother, rfl⟩
  exact inlinedSchema_congr fun pointer hpointer => hother.eq hacyclic hexpand pointer (reached_of_mem hpointer)

theorem Inlines.references_eq_nil {result : List (Datum × Datum)} (hacyclic : Acyclic document schema)
    (h : Inlines document schema result) : (Datum.map result).references = [] := by
  obtain ⟨expand, hexpand, rfl⟩ := h
  exact references_inlinedSchema fun pointer hpointer =>
    hexpand.references_eq_nil hacyclic pointer (reached_of_mem hpointer)

end Expansion

section Agreement

variable {nested other : DatumPath → List (Datum × Datum) → Except ShapeError (Option Sample)}
  {path place : DatumPath} {schema entries : List (Datum × Datum)} {expand : String → List (Datum × Datum)}

/-- The outcome of making an example, wherever its parts come from. -/
def exampleValue (result : Except ShapeError (Option Sample)) : Except ShapeError (Option Datum) :=
  result.map (Option.map Sample.value)

theorem value_present?_borrowed (path : DatumPath) (value : Datum) :
    (Sample.borrowed path value).present?.map Sample.value = (some value).filter (!·.isNull) := by
  cases value <;> rfl

theorem exampleValue_firstChoice (path : DatumPath) (choices : Datum) :
    exampleValue (firstChoice path choices >>= fun sample => .ok sample.present?) =
      exampleValue (firstChoice place choices >>= fun sample => .ok sample.present?) := by
  have hborrowed (value : Datum) : exampleValue (.ok (Sample.borrowed (path ++ [.text "enum", .int 0]) value).present?) =
      exampleValue (.ok (Sample.borrowed (place ++ [.text "enum", .int 0]) value).present?) :=
    congrArg Except.ok ((value_present?_borrowed _ _).trans (value_present?_borrowed _ _).symm)
  cases choices with
  | list items =>
      cases items with
      | nil => rfl
      | cons first rest => exact hborrowed first
  | map entries =>
      rw [firstChoice, firstChoice]
      cases Datum.lookup (.int 0) entries with
      | none => rfl
      | some value => exact hborrowed value
  | _ => rfl

/-- What a schema gives by itself is the same without references. -/
theorem givenExample?_inlinedFields :
    (givenExample? place (Datum.inlinedFields expand schema)).map exampleValue =
      (givenExample? path schema).map exampleValue := by
  unfold givenExample?
  rw [lookup_inlinedFields_of_ne (by decide) (by decide), lookup_inlinedFields_of_ne (by decide) (by decide),
    lookup_inlinedFields_of_ne (by decide) (by decide)]
  cases Datum.lookup (.text "example") schema with
  | some value =>
      exact congrArg (some ∘ Except.ok) ((value_present?_borrowed _ _).trans (value_present?_borrowed _ _).symm)
  | none =>
      cases (Datum.lookup (.text "default") schema).filter (!·.isNull) with
      | some value => rfl
      | none =>
          cases (Datum.lookup (.text "enum") schema).filter Datum.isTruthy with
          | some choices => exact congrArg some (exampleValue_firstChoice place choices)
          | none => rfl

theorem isOfKind_inlinedFields (name : String) :
    isOfKind (Datum.inlinedFields expand schema) name = isOfKind schema name := by
  rw [isOfKind, isOfKind, lookup_inlinedFields_of_ne (by decide) (by decide)]

theorem isOfObjects_inlinedFields : isOfObjects (Datum.inlinedFields expand schema) = isOfObjects schema := by
  rw [isOfObjects, isOfObjects, isOfKind_inlinedFields, lookup_properties_inlinedFields, Option.isSome_map]

theorem scalarExample_inlinedFields : scalarExample (Datum.inlinedFields expand schema) = scalarExample schema := by
  have hformat : Datum.lookup (.text "format") (Datum.inlinedFields expand schema) =
      Datum.lookup (.text "format") schema := lookup_inlinedFields_of_ne (by decide) (by decide)
  have hminimum : Datum.lookup (.text "minimum") (Datum.inlinedFields expand schema) =
      Datum.lookup (.text "minimum") schema := lookup_inlinedFields_of_ne (by decide) (by decide)
  simp only [scalarExample, isOfKind_inlinedFields, hformat, hminimum]

theorem inlinedProperties_of_not_map {value : Datum} (h : value.isMap = false) :
    value.inlinedProperties expand = value := by
  cases value with
  | map entries => cases h
  | _ => rfl

theorem propertyEntries_inlinedFields : propertyEntries (Datum.inlinedFields expand schema) =
    (propertyEntries schema).map (Datum.inlinedEntries expand) := by
  rw [propertyEntries, propertyEntries, lookup_properties_inlinedFields]
  cases Datum.lookup (.text "properties") schema with
  | none => rfl
  | some value =>
      cases value with
      | map entries => cases entries <;> rfl
      | _ =>
          rw [Option.map_some, inlinedProperties_of_not_map rfl, Option.filter_some]
          split_ifs <;> rfl

/-- The value of a field, under its name. -/
def fieldValue (field : Datum × Sample) : Datum × Datum :=
  (field.1, field.2.value)

theorem fieldValues_eq_map (fields : List (Datum × Sample)) : Sample.fieldValues fields = fields.map fieldValue := by
  induction fields with
  | nil => rfl
  | cons field rest ih => rw [Sample.fieldValues, ih, List.map_cons]; rfl

theorem exampleValue_objectExample_of_ok (h : propertyEntries schema = .ok entries) :
    exampleValue (objectExample nested path schema) =
      ((entries.filterMapM (fieldExample nested path)).map (List.map fieldValue)).map fun fields => some (.map fields) := by
  rw [objectExample_of_ok h]
  cases entries.filterMapM (fieldExample nested path) with
  | error error => rfl
  | ok fields =>
      change Except.ok (some (Datum.map (Sample.fieldValues fields))) = _
      rw [fieldValues_eq_map]
      rfl

theorem fieldExample_map (key : Datum) (inner : List (Datum × Datum)) :
    (fieldExample nested path (key, .map inner)).map (Option.map fieldValue) =
      (exampleValue (nested (path ++ [.text "properties", key]) inner)).map (Option.map (Prod.mk key)) := by
  simp only [fieldExample]
  cases nested (path ++ [.text "properties", key]) inner with
  | error error => rfl
  | ok sample => cases sample <;> rfl

theorem objectExample_inlinedFields
    (h : ∀ here inner, Nested path schema here inner → ∀ there,
      exampleValue (other there (inlinedSchema expand inner)) = exampleValue (nested here inner)) :
    exampleValue (objectExample other place (Datum.inlinedFields expand schema)) =
      exampleValue (objectExample nested path schema) := by
  have hproperties : propertyEntries (Datum.inlinedFields expand schema) = _ := propertyEntries_inlinedFields
  cases hentries : propertyEntries schema with
  | error error =>
      rw [hentries] at hproperties
      rw [objectExample, objectExample, hentries, hproperties]
      rfl
  | ok entries =>
      rw [hentries] at hproperties
      rw [exampleValue_objectExample_of_ok hentries, exampleValue_objectExample_of_ok hproperties]
      congr 1
      rw [inlinedEntries_eq_map]
      refine Result.map_filterMapM (List.forall₂_map_left_iff.mpr (List.forall₂_same.mpr fun entry hentry => ?_))
      rcases entry with ⟨key, value⟩
      cases value with
      | map inner =>
          rw [inlined_map, fieldExample_map, fieldExample_map,
            h _ _ (.property (propertyEntries_eq_ok hentries hentry) hentry)]
      | _ => rfl

theorem exampleValue_array (result : Except ShapeError (Option Sample)) :
    exampleValue (result >>= fun item => .ok (some (.array item.toList))) =
      (exampleValue result).map fun item => some (.list item.toList) := by
  cases result with
  | error error => rfl
  | ok sample => cases sample <;> rfl

theorem arrayExample_inlinedFields
    (h : ∀ here inner, Nested path schema here inner → ∀ there,
      exampleValue (other there (inlinedSchema expand inner)) = exampleValue (nested here inner)) :
    exampleValue (arrayExample other place (Datum.inlinedFields expand schema)) =
      exampleValue (arrayExample nested path schema) := by
  rw [arrayExample, arrayExample, lookup_items_inlinedFields]
  cases hitems : Datum.lookup (.text "items") schema with
  | none => rfl
  | some value =>
      cases value with
      | map inner =>
          have hinner := h _ _ (.items hitems) (place ++ [.text "items"])
          rw [Option.map_some, inlined_map]
          exact (exampleValue_array _).trans ((congrArg _ hinner).trans (exampleValue_array _).symm)
      | _ => rfl

/-- An example for a schema with its references replaced is one for the schema when this holds of those nested in
it. -/
theorem exampleBody_inlinedFields
    (h : ∀ here inner, Nested path schema here inner → ∀ there,
      exampleValue (other there (inlinedSchema expand inner)) = exampleValue (nested here inner)) :
    exampleValue (exampleBody other place (Datum.inlinedFields expand schema)) =
      exampleValue (exampleBody nested path schema) := by
  have hgiven : (givenExample? place (Datum.inlinedFields expand schema)).map exampleValue =
      (givenExample? path schema).map exampleValue := givenExample?_inlinedFields
  rw [exampleBody_eq, exampleBody_eq, isOfObjects_inlinedFields, isOfKind_inlinedFields, scalarExample_inlinedFields]
  cases hfirst : givenExample? path schema with
  | some result =>
      rw [hfirst] at hgiven
      obtain ⟨found, hfound, hsame⟩ := Option.map_eq_some_iff.mp hgiven
      rw [hfound]
      exact hsame
  | none =>
      rw [hfirst] at hgiven
      rw [Option.map_eq_none_iff.mp hgiven, Option.getD_none, Option.getD_none]
      split_ifs
      · exact objectExample_inlinedFields h
      · exact arrayExample_inlinedFields h
      · rfl

end Agreement

section Inlining

variable {document : Datum} {schema : List (Datum × Datum)} {expand : String → List (Datum × Datum)}

theorem Expands.mono {inner : List (Datum × Datum)} (h : Expands document schema expand)
    (hreached : ∀ pointer, Reached document inner pointer → Reached document schema pointer) :
    Expands document inner expand :=
  fun pointer hpointer => h pointer (hreached pointer hpointer)

theorem Acyclic.mono {inner : List (Datum × Datum)} (h : Acyclic document schema)
    (hreached : ∀ pointer, Reached document inner pointer → Reached document schema pointer) :
    Acyclic document inner :=
  fun pointer hpointer => h pointer (hreached pointer hpointer)

theorem Nested.inlinedFields {path here : DatumPath} {inner : List (Datum × Datum)}
    (h : Nested path schema here inner) :
    ∃ there, Nested path (Datum.inlinedFields expand schema) there (inlinedSchema expand inner) := by
  cases h with
  | @property entries inner key hproperties hproperty =>
      have hlookup : Datum.lookup (.text "properties") (Datum.inlinedFields expand schema) =
          some (.map (Datum.inlinedEntries expand entries)) := by
        rw [lookup_properties_inlinedFields, hproperties]
        rfl
      have hmem : (key, .map (inlinedSchema expand inner)) ∈ Datum.inlinedEntries expand entries := by
        rw [inlinedEntries_eq_map, ← inlined_map]
        exact List.mem_map_of_mem hproperty
      exact ⟨_, .property hlookup hmem⟩
  | items hitems =>
      refine ⟨_, .items ?_⟩
      rw [lookup_items_inlinedFields, hitems, Option.map_some, inlined_map]

/-- Replacing the references does not change what a derivation comes to, when none of them was followed before. -/
theorem Makes.inlined {visit : Visit} {result : Except ShapeError (Option Sample)} (h : Makes document visit result)
    (hacyclic : Acyclic document visit.schema) (hexpands : Expands document visit.schema expand)
    (hnew : ∀ pointer ∈ visit.followed, ¬ Reached document visit.schema pointer) {fuel : Nat}
    (hfuel : (Datum.map (inlinedSchema expand visit.schema)).height ≤ fuel) (place : DatumPath) (elsewhere : Datum) :
    exampleValue (exampleAt elsewhere fuel [] place (inlinedSchema expand visit.schema)) = exampleValue result := by
  induction h generalizing fuel place with
  | @stop visit pointer hreference hstop =>
      have hreached : Reached document visit.schema pointer := reached_of_reference hreference
      obtain ⟨target, htarget, -⟩ := hexpands pointer hreached
      rcases hstop with hseen | hnone
      · exact absurd hreached (hnew pointer hseen)
      · exact absurd htarget (hnone target)
  | @follow visit pointer target result hreference _ htarget _ ih =>
      have hreached (next : String) (h : Reached document target next) : Reached document visit.schema next :=
        h.of_target hreference htarget
      have hpointer : Reached document visit.schema pointer := reached_of_reference hreference
      obtain ⟨found, hfound, hexpand⟩ := hexpands pointer hpointer
      obtain rfl := Datum.map.inj (Option.some.inj (htarget.symm.trans hfound))
      have hinlined : inlinedSchema expand visit.schema = inlinedSchema expand target := by
        rw [← hexpand, inlinedSchema, hreference]
      rw [hinlined] at hfuel ⊢
      -- What is reached from the target is not the pointer itself, since there is no cycle.
      refine ih (hacyclic.mono hreached) (hexpands.mono hreached) (fun next hnext hback => ?_) hfuel place
      rcases List.mem_cons.mp hnext with rfl | hbefore
      · exact hacyclic next hpointer (hback.transGen htarget)
      · exact hnew next hbefore (hreached next hback)
  | @body visit nested hschema _ ih =>
      have hinlined : inlinedSchema expand visit.schema = Datum.inlinedFields expand visit.schema := by
        rw [inlinedSchema, hschema]
      rw [hinlined] at hfuel ⊢
      obtain ⟨fuel, rfl⟩ : ∃ less, fuel = less + 1 := by
        refine Nat.exists_eq_succ_of_ne_zero fun hzero => ?_
        rw [hzero, Datum.height] at hfuel
        omega
      rw [exampleAt_succ, reference?_inlinedFields, hschema]
      refine exampleBody_inlinedFields fun here inner hinner there => ?_
      have hreached (pointer : String) (h : Reached document inner pointer) : Reached document visit.schema pointer :=
        h.mono (hinner.references_subset hschema)
      refine ih here inner hinner (hacyclic.mono hreached) (hexpands.mono hreached)
        (fun pointer hpointer hback => hnew pointer hpointer (hreached pointer hback)) ?_ there
      obtain ⟨_, hnested⟩ := hinner.inlinedFields
      exact Nat.le_of_lt_succ (hnested.height_lt.trans_le hfuel)

/-- Making an example ends for all schemas of all documents, whatever their references lead to: its outcome is that
of the only derivation, no pointer is followed twice on the way to a call, and for schemas as they are written the
outcome is an example unless a least value is beyond all doubles. When references form no cycle and lead to mappings,
it is what comes of the schema with all of them replaced, wherever that stands. -/
theorem exampleFor_ends (document : Datum) (path : DatumPath) (schema : List (Datum × Datum)) :
    (∀ result, Makes document ⟨[], path, schema⟩ result ↔ exampleFor path (.map schema) document = result) ∧
      Acc (fun next visit => Visit.Next document visit next) ⟨[], path, schema⟩ ∧
      (∀ last, Relation.ReflTransGen (Visit.Next document) ⟨[], path, schema⟩ last → last.followed.Nodup) ∧
      ((∀ last, Relation.ReflTransGen (Visit.Next document) ⟨[], path, schema⟩ last → WellShaped last.schema) →
        (∃ sample, exampleFor path (.map schema) document = .ok sample) ∨
          exampleFor path (.map schema) document = .error .outOfRange ∧
            ∃ last, Relation.ReflTransGen (Visit.Next document) ⟨[], path, schema⟩ last ∧
              HasHugeMinimum last.schema) ∧
      (Acyclic document schema → Resolves document schema →
        ∃ result, Inlines document schema result ∧ (∀ other, Inlines document schema other → other = result) ∧
          (Datum.map result).references = [] ∧
          ∀ place elsewhere, exampleValue (exampleFor place (.map result) elsewhere) =
            exampleValue (exampleFor path (.map schema) document)) := by
  have hmakes := makes_exampleFor document path schema
  refine ⟨fun _ => makes_iff, hmakes.acc, fun last => nodup_followed List.nodup_nil, fun hshape => ?_,
    fun hacyclic hresolves => ?_⟩
  · cases hresult : exampleFor path (.map schema) document with
    | ok sample => exact .inl ⟨sample, rfl⟩
    | error error =>
        obtain ⟨rfl, hhuge⟩ := hmakes.onlyBeyond hshape error hresult
        exact .inr ⟨rfl, hhuge⟩
  · obtain ⟨result, hinlines, hunique⟩ := existsUnique_inlines hacyclic hresolves
    refine ⟨result, hinlines, hunique, hinlines.references_eq_nil hacyclic, fun place elsewhere => ?_⟩
    obtain ⟨expand, hexpands, rfl⟩ := hinlines
    exact hmakes.inlined hacyclic hexpands (fun _ => nofun) (height_le_exampleFuel _ elsewhere) place elsewhere

end Inlining

namespace Shared

/-- A reference to the schema of an address. -/
def toMail : List (Datum × Datum) :=
  [(.text "$ref", .text "#/components/schemas/Mail")]

/-- The schema of an address. -/
def mail : List (Datum × Datum) :=
  [(.text "type", .text "string"), (.text "format", .text "email")]

/-- A schema that refers to the one of an address twice. -/
def order : List (Datum × Datum) :=
  [(.text "type", .text "object"),
    (.text "properties", .map [(.text "buyer", .map toMail), (.text "seller", .map toMail)])]

/-- A reference to the schema of an order. -/
def toOrder : List (Datum × Datum) :=
  [(.text "$ref", .text "#/components/schemas/Order")]

/-- A document with both schemas. -/
def document : Datum :=
  .map [(.text "components", .map [(.text "schemas", .map [(.text "Order", .map order), (.text "Mail", .map mail)])])]

theorem resolvePointer_order : resolvePointer document "#/components/schemas/Order" = some (.map order) := rfl

theorem resolvePointer_mail : resolvePointer document "#/components/schemas/Mail" = some (.map mail) := rfl

theorem refers_order {next : String} (h : Refers document "#/components/schemas/Order" next) :
    next = "#/components/schemas/Mail" := by
  obtain ⟨target, htarget, hnext⟩ := h
  obtain rfl := Datum.map.inj (Option.some.inj (resolvePointer_order.symm.trans htarget))
  have hreferences : (Datum.map order).references = ["#/components/schemas/Mail", "#/components/schemas/Mail"] := rfl
  simpa [hreferences] using hnext

theorem not_refers_mail {next : String} : ¬ Refers document "#/components/schemas/Mail" next := by
  rintro ⟨target, htarget, hnext⟩
  obtain rfl := Datum.map.inj (Option.some.inj (resolvePointer_mail.symm.trans htarget))
  cases hnext

theorem eq_of_reached {pointer : String} (h : Reached document toOrder pointer) :
    pointer = "#/components/schemas/Order" ∨ pointer = "#/components/schemas/Mail" := by
  obtain ⟨start, hstart, hpath⟩ := h
  induction hpath with
  | refl => exact .inl (List.mem_singleton.mp hstart)
  | tail _ hrefers ih =>
      rcases ih with rfl | rfl
      · exact .inr (refers_order hrefers)
      · exact absurd hrefers not_refers_mail

theorem acyclic : Acyclic document toOrder := by
  intro pointer hpointer hcycle
  have hmail {next : String} (h : Relation.TransGen (Refers document) "#/components/schemas/Mail" next) : False := by
    obtain ⟨_, hrefers, -⟩ := Relation.TransGen.head'_iff.mp h
    exact not_refers_mail hrefers
  rcases eq_of_reached hpointer with rfl | rfl
  · obtain ⟨next, hrefers, hrest⟩ := Relation.TransGen.head'_iff.mp hcycle
    obtain rfl := refers_order hrefers
    rcases Relation.reflTransGen_iff_eq_or_transGen.mp hrest with heq | hpath
    · exact absurd heq (by decide)
    · exact hmail hpath
  · exact hmail hcycle

theorem resolves : Resolves document toOrder := by
  intro pointer hpointer
  rcases eq_of_reached hpointer with rfl | rfl
  · exact ⟨order, resolvePointer_order⟩
  · exact ⟨mail, resolvePointer_mail⟩

theorem schema_of_visited {last : Visit} (h : Relation.ReflTransGen (Visit.Next document) ⟨[], [], toOrder⟩ last) :
    last.schema = toOrder ∨ last.schema = order ∨ last.schema = toMail ∨ last.schema = mail := by
  induction h with
  | refl => exact .inl rfl
  | @tail visit next _ hnext ih =>
      rcases visit with ⟨followed, path, schema⟩
      dsimp only at ih
      rcases ih with rfl | rfl | rfl | rfl
      · cases hnext with
        | follow hreference _ htarget =>
            obtain rfl := Option.some.inj hreference
            exact .inr (.inl (Datum.map.inj (Option.some.inj (htarget.symm.trans resolvePointer_order))))
        | nested hschema => cases hschema
      · cases hnext with
        | follow hreference => cases hreference
        | nested _ hnested =>
            cases hnested with
            | property hproperties hproperty =>
                obtain rfl := Datum.map.inj (Option.some.inj hproperties)
                simp only [List.mem_cons, Prod.mk.injEq, Datum.map.injEq, List.not_mem_nil, or_false] at hproperty
                exact .inr (.inr (.inl (hproperty.elim And.right And.right)))
            | items hitems => cases hitems
      · cases hnext with
        | follow hreference _ htarget =>
            obtain rfl := Option.some.inj hreference
            exact .inr (.inr (.inr (Datum.map.inj (Option.some.inj (htarget.symm.trans resolvePointer_mail)))))
        | nested hschema => cases hschema
      · cases hnext with
        | follow hreference => cases hreference
        | nested _ hnested =>
            cases hnested with
            | property hproperties => cases hproperties
            | items hitems => cases hitems

theorem lookup_minimum {last : Visit} (h : Relation.ReflTransGen (Visit.Next document) ⟨[], [], toOrder⟩ last) :
    Datum.lookup (.text "minimum") last.schema = none := by
  rcases schema_of_visited h with hschema | hschema | hschema | hschema
  all_goals
    rw [hschema]
    rfl

theorem wellShaped {last : Visit} (h : Relation.ReflTransGen (Visit.Next document) ⟨[], [], toOrder⟩ last) :
    WellShaped last.schema := by
  have hminimum := lookup_minimum h
  rcases schema_of_visited h with hschema | hschema | hschema | hschema
  all_goals
    rw [hschema] at hminimum ⊢
    refine ⟨fun value hvalue => ?_, fun value hvalue => ?_, fun value hvalue => ?_, fun value hvalue => ?_⟩
  all_goals cases hvalue
  all_goals exact ⟨_, rfl⟩

end Shared

/-- A schema that is shared is followed in each of its places, and its value stands in both. -/
theorem exampleFor_ends_shared :
    Acyclic Shared.document Shared.toOrder ∧ Resolves Shared.document Shared.toOrder ∧
      (∃ sample, exampleFor [] (.map Shared.toOrder) Shared.document = .ok sample) ∧
      ∃ result, Inlines Shared.document Shared.toOrder result ∧ (Datum.map result).references = [] ∧
        ∀ place elsewhere, exampleValue (exampleFor place (.map result) elsewhere) =
          .ok (some (.map [(.text "buyer", .text "user@example.com"), (.text "seller", .text "user@example.com")])) := by
  obtain ⟨-, -, -, hgiven, hinlined⟩ := exampleFor_ends Shared.document [] Shared.toOrder
  obtain ⟨result, hresult, -, hreferences, hvalue⟩ := hinlined Shared.acyclic Shared.resolves
  refine ⟨Shared.acyclic, Shared.resolves, ?_, result, hresult, hreferences, hvalue⟩
  rcases hgiven fun _ => Shared.wellShaped with hsample | ⟨-, last, hlast, value, hminimum, -⟩
  · exact hsample
  · rw [Shared.lookup_minimum hlast] at hminimum
    cases hminimum

end DocCompiler
