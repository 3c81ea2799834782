import DocCompiler.Build.Fragment
import DocCompiler.Proofs.Build.Step
import DocCompiler.Proofs.Build.View
import DocCompiler.Proofs.Document.Resolve

/-!
What the fragments of a document are made of: each stands in the place of its kind, with references
that name a component without a slash.
-/

namespace DocCompiler

namespace Build

open Annotation

private theorem slash_notMem_of_ite {collection found : Option String} {name : List Char}
    {text : String}
    (h : (if name.isEmpty || name.any (fun c => c == '/' || Text.isBlank c) then none
      else some (collection, String.ofList name)) = some (found, text)) : '/' ∉ text.toList := by
  split at h
  · cases h
  · rename_i hname
    obtain ⟨-, rfl⟩ := Prod.mk.inj (Option.some.inj h)
    intro hslash
    rw [String.toList_ofList] at hslash
    apply hname
    rw [Bool.or_eq_true, List.any_eq_true]
    exact .inr ⟨'/', hslash, by simp⟩

theorem slash_notMem_of_readPointer? {text : List Char} {collection : Option String} {name : String}
    (h : readPointer? text = some (collection, name)) : '/' ∉ name.toList := by
  simp only [readPointer?] at h
  split at h
  · exact slash_notMem_of_ite h
  · exact slash_notMem_of_ite h

theorem fresh_of_yields_reference {view : View} {raw : Datum} {expected : Collection}
    {link : Reference} {context after : Context}
    (h : Yields (reference view raw expected) context link after) : link.Fresh expected := by
  unfold reference at h
  cases raw with
  | unresolved marker =>
      obtain ⟨rfl, rfl⟩ := yields_pure_iff.mp h
      exact ⟨⟨_, rfl⟩, .inl ⟨_, rfl⟩, rfl, rfl, rfl⟩
  | text value =>
      simp only at h
      split at h
      · exact absurd h not_yields_refuse
      · rename_i collection name hread
        obtain ⟨rfl, rfl⟩ := yields_pure_iff.mp h
        exact ⟨⟨_, rfl⟩, .inr ⟨name, rfl, slash_notMem_of_readPointer? hread⟩, rfl, rfl, rfl⟩
  | _ => exact absurd h not_yields_giveUp

theorem yields_orReference_iff {view : View} {expected : Collection} {inline : Step Part} {part : Part}
    {context after : Context} :
    Yields (orReference view expected inline) context part after ↔
      ∃ raw, view.text "ref" = .ok raw ∧
        ((raw.isNull = true ∧ Yields inline context part after) ∨
          (raw.isNull = false ∧ view.checkChildren [] = .ok () ∧
            ∃ link, Yields (reference view raw expected) context link after ∧
              part = .reference link)) := by
  have hunit : (∃ value, view.checkChildren [] = .ok value) ↔ view.checkChildren [] = .ok () :=
    ⟨fun ⟨_, h⟩ => h, fun h => ⟨_, h⟩⟩
  simp [orReference, hunit]

/-- Properties that are read come behind those read before. Each stands under a name that was given, and what
holds of all parts that are read holds of it. -/
theorem entries_of_yields_properties {admits : LeafKind → Datum → Prop} {holds : Part → Prop} {unit : String}
    {view : View} {schema : Node → Step Part} {nodes : List Node} {done found : Registry}
    {context after : Context} (hleaves : ∀ node ∈ nodes, node.Leaves admits)
    (hschema : ∀ node ∈ nodes, ∀ context part after,
      Yields (schema node) context part after → holds part)
    (hdistinct : Datum.Distinct done) (hdone : ∀ entry ∈ done, admits .string entry.1 ∧ holds entry.2)
    (h : Yields (properties unit view schema nodes done) context found after) :
    Datum.Distinct found ∧ ∀ entry ∈ found, admits .string entry.1 ∧ holds entry.2 := by
  induction nodes generalizing done context with
  | nil =>
      obtain ⟨rfl, rfl⟩ := yields_pure_iff.mp h
      exact ⟨hdistinct, hdone⟩
  | cons child rest ih =>
      simp only [properties, yields_bind_iff, yields_look_iff, yields_ite_iff, not_yields_refuse,
        and_false, false_or] at h
      obtain ⟨name, _, hname, _, _, ⟨-, rfl⟩, hnew, part, _, hpart, hrest⟩ := h
      have hkey : Datum.lookup name done = none := by simpa using hnew
      rw [Datum.insertEntry_of_lookup_eq_none hkey] at hrest
      refine ih (fun node hnode => hleaves node (by simp [hnode]))
        (fun node hnode => hschema node (by simp [hnode])) (hdistinct.append_singleton hkey) ?_ hrest
      intro entry hentry
      rcases List.mem_append.mp hentry with hold | hnew
      · exact hdone entry hold
      · obtain rfl : entry = (name, part) := by simpa using hnew
        refine ⟨?_, hschema child (by simp) _ _ _ hpart⟩
        unfold propertyName at hname
        split at hname
        · rename_i given hget
          obtain ⟨rfl, rfl⟩ := yields_pure_iff.mp hname
          obtain ⟨key, -, hmem⟩ := Datum.mem_of_lookup_eq_some hget
          exact ((Node.leaves_iff _).mp (hleaves child (by simp))).1 _ hmem
        · exact absurd hname not_yields_throw

theorem yields_requireArray_iff {view : View} {enum : Datum} {value : Unit}
    {context after : Context} :
    Yields (requireArray view enum) context value after ↔
      (enum = .null ∨ ∃ items, enum = .list items) ∧ after = context := by
  unfold requireArray
  cases enum with
  | null => simp
  | list items => simp
  | _ => simp

theorem fits_of_yields_facets {terms : Terms} {view : View} (hleaves : view.node.Leaves terms.leaf)
    {hasProperties hasItems : Bool} {found : Facets} {context after : Context}
    (h : Yields (facets view hasProperties hasItems) context found after) : found.Fits terms := by
  simp only [facets, yields_bind_iff, yields_look_iff, yields_requireArray_iff, yields_pure_iff,
    and_assoc, exists_and_left, exists_eq_left, exists_const] at h
  obtain ⟨given, hgiven, enum, henum, harray, title, htitle, description, hdescription, format,
    hformat, required, hrequired, sample, -, default, -, minimum, hminimum, maximum, hmaximum,
    nullable, hnullable, readOnly, hreadOnly, writeOnly, hwriteOnly, rfl, -⟩ := h
  have htype : terms.Given .string
      (if !given.isNull then given else if hasProperties then .text "object"
        else if hasItems then .text "array" else .null) := by
    split_ifs
    · exact View.given_of_text hleaves hgiven
    · exact .inr (Terms.stated_text _)
    · exact .inr (Terms.stated_text _)
    · exact Terms.given_null _
  exact
    { name := Terms.given_null _
      title := View.given_of_text hleaves htitle
      description := View.given_of_text hleaves hdescription
      type := htype
      format := View.given_of_text hleaves hformat
      required := View.listed_of_texts hleaves hrequired
      enum := harray
      minimum := View.given_of_number hleaves hminimum
      maximum := View.given_of_number hleaves hmaximum
      nullable := View.given_of_flag hleaves hnullable
      readOnly := View.given_of_flag hleaves hreadOnly
      writeOnly := View.given_of_flag hleaves hwriteOnly }

theorem yields_option_mapM {α β : Type} {f : α → Step β} {item : Option α} {found : Option β}
    {context after : Context} (h : Yields (item.mapM f) context found after) {value : β}
    (hvalue : value ∈ found) : ∃ given ∈ item, Yields (f given) context value after := by
  cases item with
  | none =>
      obtain ⟨rfl, -⟩ := yields_none_mapM_iff.mp h
      simp at hvalue
  | some given =>
      obtain ⟨first, hfirst, rfl⟩ := yields_some_mapM_iff.mp h
      obtain rfl : first = value := by simpa using hvalue
      exact ⟨given, rfl, hfirst⟩

theorem isSchema_of_yields_schemaBody {terms : Terms} {unit : String} {view : View} {nested : Node → Step Part}
    (hleaves : view.node.Leaves terms.leaf)
    (hnested : ∀ node : Node, node.height < view.node.height → node.Leaves terms.leaf →
      ∀ context part after, Yields (nested node) context part after → part.IsSchema terms)
    {part : Part} {context after : Context}
    (h : Yields (schemaBody unit nested view) context part after) : part.IsSchema terms := by
  simp only [schemaBody, yields_bind_iff, yields_look_iff, yields_ite_iff, yields_pure_iff,
    not_yields_refuse, and_assoc, exists_and_left, exists_eq_left, exists_const, false_and,
    and_false, false_or] at h
  obtain ⟨children, hchildren, found, _, hproperties, nodes, hnodes, _, -, -, items, _, hitems,
    facets, _, hfacets, rfl, rfl⟩ := h
  obtain ⟨hdistinct, hfound⟩ := entries_of_yields_properties
    (fun node hnode => View.leaves_of_nested hleaves hchildren hnode)
    (fun node hnode => hnested node (View.height_of_nested hchildren hnode)
      (View.leaves_of_nested hleaves hchildren hnode))
    List.Pairwise.nil (by simp) hproperties
  refine ⟨fits_of_yields_facets hleaves hfacets, hdistinct, Part.areProperties_iff.mpr hfound, ?_⟩
  rw [Part.isSchema?_iff]
  intro part hpart
  obtain ⟨node, hnode, hyields⟩ := yields_option_mapM hitems hpart
  have hmem := List.mem_of_head? hnode
  exact hnested node (View.height_of_nested hnodes hmem) (View.leaves_of_nested hleaves hnodes hmem)
    _ _ _ hyields

theorem stated_orEmpty {terms : Terms} {value : Datum} (h : terms.Given .string value) :
    terms.Stated .string (orEmpty value) := by
  unfold orEmpty
  split_ifs with htruthy
  · rcases h with rfl | h
    · simp [Datum.isTruthy] at htruthy
    · exact h
  · exact Terms.stated_text _

theorem stated_of_yields_parameterLocation {terms : Terms} {view : View}
    (hleaves : view.node.Leaves terms.leaf) {location : Datum} {context after : Context}
    (h : Yields (parameterLocation view) context location after) :
    terms.Stated .string location := by
  unfold parameterLocation at h
  split at h
  · obtain ⟨rfl, -⟩ := yields_pure_iff.mp h
    exact Terms.stated_text _
  · simp only [yields_bind_iff, yields_look_iff, yields_pure_iff, and_assoc, exists_and_left,
      exists_eq_left] at h
    obtain ⟨given, hgiven, rfl, -⟩ := h
    exact stated_orEmpty (View.given_of_text hleaves hgiven)

/-- Content that is read comes behind what was read before, with media types that are not the same. What holds
of every media type that is read holds of it. -/
theorem entries_of_yields_contents (holds : Datum → Part → Prop) {unit : String} {view : View}
    {nodes : List Node} {done found : Registry} {context after : Context}
    (hmedia : ∀ node ∈ nodes, ∀ context found after,
      Yields (mediaType unit node) context found after → holds found.1 found.2)
    (hdistinct : Datum.Distinct done) (hdone : ∀ entry ∈ done, holds entry.1 entry.2)
    (h : Yields (contents unit view nodes done) context found after) :
    Datum.Distinct found ∧ ∀ entry ∈ found, holds entry.1 entry.2 := by
  induction nodes generalizing done context with
  | nil =>
      obtain ⟨rfl, rfl⟩ := yields_pure_iff.mp h
      exact ⟨hdistinct, hdone⟩
  | cons child rest ih =>
      simp only [contents, yields_bind_iff, yields_ite_iff, not_yields_refuse, and_false,
        false_or] at h
      obtain ⟨⟨type, media⟩, _, hyields, hnew, hrest⟩ := h
      have hkey : Datum.lookup type done = none := by simpa using hnew
      rw [Datum.insertEntry_of_lookup_eq_none hkey] at hrest
      refine ih (fun node hnode => hmedia node (by simp [hnode])) (hdistinct.append_singleton hkey) ?_ hrest
      intro entry hentry
      rcases List.mem_append.mp hentry with hold | hlast
      · exact hdone entry hold
      · obtain rfl : entry = (type, media) := by simpa using hlast
        exact hmedia child (by simp) _ _ _ hyields

section Forms

variable {terms : Terms} (hfresh : ∀ place link, Reference.Fresh place link → terms.link place link)

include hfresh

/-- The depth that a schema is read with leaves no level of it out. -/
theorem isSchema_of_yields_schemaOf {unit : String} {depth : Nat} {view : View}
    (hdepth : view.node.height ≤ depth) (hleaves : view.node.Leaves terms.leaf) {part : Part}
    {context after : Context} (h : Yields (schemaOf unit depth view) context part after) :
    part.IsSchema terms := by
  induction depth generalizing view context part after with
  | zero =>
      have hpos : 0 < view.node.height := by
        rcases view with ⟨⟨tag, attributes, children, line, column⟩, place⟩
        simp only [Node.height]
        omega
      omega
  | succ depth ih =>
      obtain ⟨raw, -, ⟨-, hbody⟩ | ⟨-, -, link, hlink, rfl⟩⟩ := yields_orReference_iff.mp h
      · refine isSchema_of_yields_schemaBody hleaves ?_ hbody
        intro node hheight hnode context part after hyields
        obtain ⟨inner, between, hinner, hrest⟩ := yields_bind_iff.mp hyields
        obtain ⟨rfl, -⟩ := yields_enter_iff.mp hinner
        exact ih (by simp only [View.of]; omega) hnode hrest
      · exact hfresh _ _ (fresh_of_yields_reference hlink)

theorem isSchema_of_yields_viewedSchema {unit : String} {view : View}
    (hleaves : view.node.Leaves terms.leaf) {part : Part} {context after : Context}
    (h : Yields (viewedSchema unit view) context part after) : part.IsSchema terms :=
  isSchema_of_yields_schemaOf hfresh (Nat.le_refl _) hleaves h

theorem isSchema_of_yields_schema {unit : String} {node : Node} (hleaves : node.Leaves terms.leaf)
    {part : Part} {context after : Context} (h : Yields (schema unit node) context part after) :
    part.IsSchema terms := by
  obtain ⟨view, between, hview, hrest⟩ := yields_bind_iff.mp h
  obtain ⟨rfl, -⟩ := yields_enter_iff.mp hview
  exact isSchema_of_yields_viewedSchema hfresh hleaves hrest

/-- The schema among nested annotations that may hold one. -/
theorem isSchema?_of_yields_mapM {unit : String} {view : View} {name : String} {tags : List String}
    (hleaves : view.node.Leaves terms.leaf) {nodes : List Node}
    (hnodes : view.nested tags (some name) = .ok nodes) {found : Option Part}
    {context after : Context} (h : Yields (nodes.head?.mapM (schema unit)) context found after) :
    Part.IsSchema? terms found := by
  rw [Part.isSchema?_iff]
  intro part hpart
  obtain ⟨node, hnode, hyields⟩ := yields_option_mapM h hpart
  exact isSchema_of_yields_schema hfresh
    (View.leaves_of_nested hleaves hnodes (List.mem_of_head? hnode)) hyields

theorem isMedia_of_yields_mediaType {unit : String} {node : Node} (hleaves : node.Leaves terms.leaf)
    {found : Datum × Part} {context after : Context}
    (h : Yields (mediaType unit node) context found after) :
    found.1.asText = found.1 ∧ found.2.IsMedia terms := by
  unfold mediaType at h
  split at h
  · obtain ⟨part, between, hpart, h⟩ := yields_bind_iff.mp h
    obtain ⟨rfl, -⟩ := yields_pure_iff.mp h
    exact ⟨rfl, isSchema_of_yields_schema hfresh hleaves hpart⟩
  · simp only [yields_bind_iff, yields_look_iff, yields_ite_iff, yields_pure_iff, yields_enter_iff,
      not_yields_refuse, and_assoc, exists_and_left, exists_eq_left, exists_const, false_and,
      and_false, false_or] at h
    obtain ⟨_, -, type, -, -, nodes, hnodes, _, -, inner, _, hinner, sample, -, rfl, -⟩ := h
    exact ⟨Datum.asText_asText type, isSchema?_of_yields_mapM hfresh hleaves hnodes hinner⟩

theorem isContent_of_yields_contents {unit : String} {view : View} {nodes : List Node} {found : Registry}
    {context after : Context} (hleaves : ∀ node ∈ nodes, node.Leaves terms.leaf)
    (h : Yields (contents unit view nodes []) context found after) : IsContent terms found := by
  obtain ⟨hdistinct, hall⟩ := entries_of_yields_contents
    (fun type media => type.asText = type ∧ media.IsMedia terms)
    (fun node hnode _ _ _ hyields => isMedia_of_yields_mediaType hfresh (hleaves node hnode) hyields)
    List.Pairwise.nil (by simp) h
  exact ⟨hdistinct, fun entry hentry => (hall entry hentry).1, fun entry hentry => (hall entry hentry).2⟩

theorem isContent_of_yields_content {unit : String} {view : View}
    (hleaves : view.node.Leaves terms.leaf) {found : Registry} {context after : Context}
    (h : Yields (content unit view) context found after) : IsContent terms found := by
  simp only [content, yields_bind_iff, yields_look_iff, yields_pure_iff, and_assoc, exists_and_left,
    exists_eq_left] at h
  obtain ⟨nodes, hnodes, content, between, hcontent, _, -, rfl, -⟩ := h
  exact isContent_of_yields_contents hfresh
    (fun node hnode => View.leaves_of_nested hleaves hnodes hnode) hcontent

theorem isEntry_of_yields_orReference {view : View} {place : Collection} {inline : Step Part}
    {part : Part} {context after : Context}
    (hinline : ∀ context part after, Yields inline context part after → part.IsEntry terms place)
    (h : Yields (orReference view place inline) context part after) : part.IsEntry terms place := by
  obtain ⟨raw, -, ⟨-, hbody⟩ | ⟨-, -, link, hlink, rfl⟩⟩ := yields_orReference_iff.mp h
  · exact hinline _ _ _ hbody
  · rw [Part.isEntry_reference_iff]
    exact hfresh _ _ (fresh_of_yields_reference hlink)

theorem isEntry_of_yields_parameter {unit : String} {view : View}
    (hleaves : view.node.Leaves terms.leaf) {part : Part} {context after : Context}
    (h : Yields (parameter unit view) context part after) : part.IsEntry terms .parameters := by
  refine isEntry_of_yields_orReference hfresh ?_ h
  intro context part after hbody
  simp only [parameterBody, yields_bind_iff, yields_look_iff, yields_ite_iff, yields_pure_iff,
    not_yields_refuse, and_assoc, exists_and_left, exists_eq_left, exists_const, false_and,
    and_false, false_or] at hbody
  obtain ⟨location, _, hlocation, nodes, hnodes, _, -, -, given, hgiven, name, hname, description,
    hdescription, deprecated, hdeprecated, inner, _, hinner, sample, -, rfl, -⟩ := hbody
  refine ⟨?_, isSchema?_of_yields_mapM hfresh hleaves hnodes hinner⟩
  exact
    { name := stated_orEmpty (View.given_of_text hleaves hname)
      location := stated_of_yields_parameterLocation hleaves hlocation
      description := View.given_of_text hleaves hdescription
      required := by
        dsimp only
        split_ifs
        · exact .inr (.inr (terms.bool true))
        · exact View.given_of_flag hleaves hgiven
      inPath := by
        intro hpath
        dsimp only at hpath ⊢
        split_ifs with hnull
        · simp
        · rintro rfl
          exact hnull (by simp [hpath, Datum.isNull])
      deprecated := View.given_of_flag hleaves hdeprecated }

theorem isEntry_of_yields_requestBody {unit : String} {view : View}
    (hleaves : view.node.Leaves terms.leaf) {part : Part} {context after : Context}
    (h : Yields (requestBody unit view) context part after) : part.IsEntry terms .requestBodies := by
  refine isEntry_of_yields_orReference hfresh ?_ h
  intro context part after hbody
  simp only [yields_bind_iff, yields_look_iff, yields_pure_iff, and_assoc, exists_and_left,
    exists_eq_left] at hbody
  obtain ⟨content, between, hcontent, description, hdescription, required, hrequired, rfl, -⟩ := hbody
  exact ⟨⟨View.given_of_text hleaves hdescription, View.given_of_flag hleaves hrequired⟩,
    isContent_of_yields_content hfresh hleaves hcontent⟩

theorem isEntry_of_yields_response {unit : String} {view : View}
    (hleaves : view.node.Leaves terms.leaf) {part : Part} {context after : Context}
    (h : Yields (response unit view) context part after) : part.IsEntry terms .responses := by
  refine isEntry_of_yields_orReference hfresh ?_ h
  intro context part after hbody
  simp only [yields_bind_iff, yields_look_iff, yields_pure_iff, and_assoc, exists_and_left,
    exists_eq_left] at hbody
  obtain ⟨content, between, hcontent, description, hdescription, rfl, -⟩ := hbody
  exact ⟨View.given_of_text hleaves hdescription, isContent_of_yields_content hfresh hleaves hcontent⟩

end Forms

end Build

end DocCompiler
