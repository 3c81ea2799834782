import DocCompiler.Proofs.Build.Declaration
import DocCompiler.Proofs.Build.Heed
import DocCompiler.Proofs.Document.Shown

/-!
Fragments that are read without a report show every annotation that is heeded in them.
-/

namespace DocCompiler.Build

open Annotation Relation

/-- The number of diagnostics so far. -/
def Context.reported (context : Context) : Nat :=
  context.diagnostics.length

@[simp] theorem Context.reported_warn (context : Context) (warnings : List Diagnostic) :
    (context.warn warnings).reported = context.reported + warnings.length :=
  List.length_append

@[simp] theorem Context.reported_claim (context : Context) (key : Claim) (place : Location) :
    (context.claim key place).reported = context.reported :=
  rfl

@[simp] theorem Context.reported_change (context : Context)
    (change : Model → Model × Option ModelError) :
    (context.change change).reported = context.reported :=
  rfl

/-- Of an annotation, and of all that is heeded in it, the places are shown. -/
def Covered (unit : String) (node : Node) (shows : Location → Prop) : Prop :=
  ∀ inner, ReflTransGen Node.Heeds node inner → inner.isPart = true → shows (placeOf unit inner)

namespace Covered

variable {unit : String} {node : Node} {shows more : Location → Prop}

theorem of_heeds (hself : node.isPart = true → shows (placeOf unit node))
    (h : ∀ inner, node.Heeds inner → Covered unit inner shows) : Covered unit node shows := by
  intro inner hinner hpart
  rcases ReflTransGen.cases_head hinner with rfl | ⟨next, hnext, hrest⟩
  · exact hself hpart
  · exact h next hnext inner hrest hpart

theorem mono (h : Covered unit node shows) (hmore : ∀ place, shows place → more place) :
    Covered unit node more :=
  fun inner hinner hpart => hmore _ (h inner hinner hpart)

/-- An annotation that is read without a fault or a warning is covered if all that its slots take is. -/
theorem of_slots {tag : String} {slots : List Slot} (hnode : node.tag = .text tag)
    (hslots : tagSlots tag = slots) (hself : node.isPart = true → shows (placeOf unit node))
    (hwarnings : (View.of unit node).warnings = .ok [])
    (hattributes : ∀ name ∈ (attributesOf? tag).getD [], (View.of unit node).Watched tag name)
    (hchildren : tag ∈ uncheckedTags ∨ (View.of unit node).checkChildren (slots.flatMap (·.2)) = .ok ())
    (h : ∀ slot ∈ slots, ∃ nodes, (View.of unit node).nested slot.2 (some slot.1) = .ok nodes ∧
      ∀ inner ∈ nodes, node.Heeds inner → Covered unit inner shows) : Covered unit node shows := by
  subst hslots
  refine of_heeds hself fun inner hheeds => ?_
  obtain ⟨slot, hslot, hfound⟩ := (View.of unit node).exists_slot_of_heeds hnode hwarnings hattributes
    hchildren hheeds
  obtain ⟨nodes, hnodes, hcovered⟩ := h slot hslot
  exact hcovered inner (hfound nodes hnodes) hheeds

end Covered

/-- Whatever is read of an annotation without a report shows all that is heeded in it. -/
def Tells (unit : String) (node : Node) (read : Step Part) : Prop :=
  ∀ context part after, Yields read context part after → after.reported ≤ context.reported →
    Covered unit node (Part.Shows · part)

variable {unit : String} {node : Node} {context after : Context} {part : Part}

theorem Reads.reported_le {α : Type} {step : Step α} {value : α} (h : Reads step)
    (hyields : Yields step context value after) : context.reported ≤ after.reported := by
  obtain ⟨warnings, -, rfl⟩ := h.warns (yields_iff_ends.mp hyields)
  simp

/-- An annotation that is opened without a report is opened without a warning. -/
theorem warnings_of_yields_enter {view : View} (h : Yields (enter unit node) context view after)
    (hquiet : after.reported ≤ context.reported) :
    view = View.of unit node ∧ (View.of unit node).warnings = .ok [] ∧ after = context := by
  obtain ⟨rfl, warnings, hwarnings, rfl⟩ := yields_enter_iff.mp h
  rw [Context.reported_warn] at hquiet
  obtain rfl : warnings = [] := List.length_eq_zero_iff.mp (by omega)
  exact ⟨rfl, hwarnings, context.warn_nil⟩

/-- A step on an annotation that is opened first. -/
theorem tells_enter {read : View → Step Part} (hreads : ∀ view, Reads (read view))
    (h : (View.of unit node).warnings = .ok [] → Tells unit node (read (View.of unit node))) :
    Tells unit node (do read (← enter unit node)) := by
  intro context part after hyields hquiet
  obtain ⟨view, between, henter, hread⟩ := yields_bind_iff.mp hyields
  have hfirst := (Reads.enter unit node).reported_le henter
  have hsecond := (hreads view).reported_le hread
  obtain ⟨rfl, hwarnings, rfl⟩ := warnings_of_yields_enter henter (by omega)
  exact h hwarnings between part after hread hquiet

theorem location_of_yields_reference {view : View} {raw : Datum} {expected : Collection}
    {link : Reference} (h : Yields (reference view raw expected) context link after) :
    link.location = some view.place := by
  unfold reference at h
  cases raw with
  | unresolved marker =>
      obtain ⟨rfl, -⟩ := yields_pure_iff.mp h
      rfl
  | text value =>
      simp only at h
      split at h
      · exact absurd h not_yields_refuse
      · obtain ⟨rfl, -⟩ := yields_pure_iff.mp h
        rfl
  | _ => exact absurd h not_yields_giveUp

theorem tells_orReference {expected : Collection} {inline : Step Part}
    (h : (View.of unit node).Untagged "ref" → Tells unit node inline) :
    Tells unit node (orReference (View.of unit node) expected inline) := by
  intro context part after hyields hquiet
  obtain ⟨raw, hraw, ⟨-, hinline⟩ | ⟨hnull, hchildren, link, hlink, rfl⟩⟩ :=
    yields_orReference_iff.mp hyields
  · exact h (View.untagged_of_text hraw) context part after hinline hquiet
  · refine .of_heeds (fun _ => ?_) fun inner hheeds => ?_
    · exact Part.shows_of_place (location_of_yields_reference hlink)
    · have hreference : (View.of unit node).node.isReference = true :=
        View.isReference_of_text hraw hnull
      exact absurd hheeds (View.not_heeds_of_reference hreference hchildren)

/-- Tags of schemas. -/
def schemaTags : List String :=
  "Schema" :: "Property" :: "Items" :: contentTags.map (·.1)

/-- Attributes with the facets of a schema. -/
def facetAttributes : List String :=
  ["type", "enum", "title", "description", "format", "required", "example", "default", "minimum", "maximum",
    "nullable", "readOnly", "writeOnly"]

theorem untagged_of_yields_facets {view : View} {hasProperties hasItems : Bool} {found : Facets}
    (h : Yields (facets view hasProperties hasItems) context found after) :
    (∀ name ∈ facetAttributes, view.Untagged name) ∧ found.place = some view.place := by
  simp only [facets, yields_bind_iff, yields_look_iff, yields_requireArray_iff, yields_pure_iff,
    and_assoc, exists_and_left, exists_eq_left, exists_const] at h
  obtain ⟨given, hgiven, enum, henum, -, title, htitle, description, hdescription, format, hformat,
    required, hrequired, sample, hsample, default, hdefault, minimum, hminimum, maximum, hmaximum,
    nullable, hnullable, readOnly, hreadOnly, writeOnly, hwriteOnly, rfl, -⟩ := h
  refine ⟨?_, rfl⟩
  simp only [facetAttributes, List.forall_mem_cons]
  exact ⟨View.untagged_of_text hgiven, View.untagged_of_literal henum, View.untagged_of_text htitle,
    View.untagged_of_text hdescription, View.untagged_of_text hformat, View.untagged_of_texts hrequired,
    View.untagged_of_literal hsample, View.untagged_of_literal hdefault,
    View.untagged_of_number hminimum, View.untagged_of_number hmaximum,
    View.untagged_of_flag hnullable, View.untagged_of_flag hreadOnly, View.untagged_of_flag hwriteOnly,
    by simp⟩

/-- An annotation of a schema. A property has a name that is no annotation. -/
structure IsSchema (unit : String) (node : Node) : Prop where
  tag : node.tag.isAmong schemaTags = true
  name : node.tag = .text "Property" → (View.of unit node).Untagged "property"

theorem isSchema_of_isAmong {tags : List String} (h : node.tag.isAmong tags = true)
    (htags : tags ⊆ "Schema" :: "Items" :: contentTags.map (·.1)) : IsSchema unit node := by
  have hschema := Datum.isAmong_of_subset h htags
  refine ⟨Datum.isAmong_of_subset hschema (by decide), fun hproperty => ?_⟩
  rw [hproperty] at hschema
  exact absurd hschema (by decide)

theorem untagged_of_yields_propertyName {name : Datum}
    (h : Yields (propertyName unit node) context name after) :
    (View.of unit node).Untagged "property" := by
  unfold propertyName at h
  split at h
  · next data hget =>
    intro value inner hvalue hholds
    obtain rfl : value = .leaf .string data := Option.some.inj (hvalue.symm.trans hget)
    exact Value.not_holds_leaf hholds
  · exact absurd h not_yields_throw

theorem reads_propertyName_context {name : Datum}
    (h : Yields (propertyName unit node) context name after) : after = context := by
  unfold propertyName at h
  split at h
  · exact (yields_pure_iff.mp h).2
  · exact absurd h not_yields_throw

/-- What is read of the first of some annotations is read of the one that is not behind another. -/
theorem exists_of_yields_head? {nodes : List Node} {read : Node → Step Part} {found : Option Part}
    (h : Yields (nodes.head?.mapM read) context found after) (hmem : node ∈ nodes)
    (hfirst : node ∉ nodes.tail) : ∃ part, Yields (read node) context part after ∧ found = some part := by
  cases nodes with
  | nil => cases hmem
  | cons first rest =>
      obtain rfl : node = first := (List.mem_cons.mp hmem).resolve_right hfirst
      exact yields_some_mapM_iff.mp h

theorem not_mem_tail_of_length {nodes : List Node} (h : ¬ 1 < nodes.length) : node ∉ nodes.tail := by
  have htail : nodes.tail = [] := List.length_eq_zero_iff.mp (by rw [List.length_tail]; omega)
  simp [htail]

theorem covered_of_yields_properties {view : View} {nested : Node → Step Part} {nodes : List Node}
    {done found : Registry} (hreads : ∀ child, Reads (nested child))
    (hnested : ∀ child ∈ nodes, (View.of unit child).Untagged "property" →
      Tells unit child (nested child))
    (h : Yields (properties unit view nested nodes done) context found after)
    (hquiet : after.reported ≤ context.reported) :
    done ⊆ found ∧ ∀ child ∈ nodes, ∃ entry ∈ found, Covered unit child (Part.Shows · entry.2) := by
  induction nodes generalizing done context with
  | nil =>
      obtain ⟨rfl, -⟩ := yields_pure_iff.mp h
      exact ⟨List.Subset.refl _, by simp⟩
  | cons child rest ih =>
      simp only [properties, yields_bind_iff, yields_look_iff, yields_ite_iff, not_yields_refuse,
        and_false, false_or] at h
      obtain ⟨name, _, hname, _, _, ⟨-, rfl⟩, hnew, part, _, hpart, hrest⟩ := h
      have hkey : Datum.lookup name done = none := by simpa using hnew
      rw [Datum.insertEntry_of_lookup_eq_none hkey] at hrest
      have huntagged := untagged_of_yields_propertyName hname
      obtain rfl := reads_propertyName_context hname
      have hfirst := (hreads child).reported_le hpart
      have hlater := (reads_properties hreads rest _).reported_le hrest
      obtain ⟨hkept, hothers⟩ :=
        ih (fun other hother => hnested other (by simp [hother])) hrest (by omega)
      refine ⟨fun entry hentry => hkept (by simp [hentry]), List.forall_mem_cons.mpr ⟨?_, hothers⟩⟩
      have hcovered := hnested child (by simp) huntagged _ part _ hpart (by omega)
      exact ⟨(name, part), hkept (by simp), hcovered⟩

/-- Each attribute of a schema takes annotations, is a facet, or is of no use to an annotation that is
nested. -/
theorem schema_attribute_cases :
    ∀ tag ∈ schemaTags, ∀ name ∈ (attributesOf? tag).getD [], name ∈ idleAttributes tag ∨
      (∃ slot ∈ tagSlots tag, slot.1 = name) ∨ name ∈ facetAttributes ∨ name = "ref" ∨
        tag = "Property" ∧ name = "property" := by
  decide

theorem tagSlots_of_schemaTags :
    ∀ tag ∈ schemaTags, tagSlots tag = [("properties", ["Property"]), ("items", ["Items"])] := by
  decide

theorem tells_schemaBody {nested : Node → Step Part} (h : IsSchema unit node)
    (hwarnings : (View.of unit node).warnings = .ok [])
    (href : (View.of unit node).Untagged "ref") (hreads : ∀ child, Reads (nested child))
    (hnested : ∀ child : Node, child.height < node.height → IsSchema unit child →
      Tells unit child (nested child)) :
    Tells unit node (schemaBody unit nested (View.of unit node)) := by
  intro context part after hyields hquiet
  obtain ⟨tag, htag, hnode⟩ := Datum.isAmong_iff.mp h.tag
  simp only [schemaBody, yields_bind_iff, yields_look_iff, yields_ite_iff, yields_pure_iff,
    not_yields_refuse, and_assoc, exists_and_left, exists_eq_left, exists_const, false_and,
    and_false, false_or] at hyields
  obtain ⟨children, hchildren, found, _, hproperties, nodes, hnodes, _, hchecked, hone, items, _, hitems,
    facets, _, hfacets, rfl, rfl⟩ := hyields
  have hfirst := (reads_properties hreads children []).reported_le hproperties
  have hsecond := (Reads.optionMapM fun child _ => hreads child).reported_le hitems
  have hthird := (reads_facets _ _ _).reported_le hfacets
  obtain ⟨huntagged, hplace⟩ := untagged_of_yields_facets hfacets
  have hattributes : ∀ name ∈ (attributesOf? tag).getD [], (View.of unit node).Watched tag name := by
    intro name hname
    rcases schema_attribute_cases tag htag name hname with
      hidle | ⟨slot, hslot, rfl⟩ | hfacet | rfl | ⟨rfl, rfl⟩
    · exact .idle hidle
    · exact .slot hslot rfl
    · exact .untagged (huntagged name hfacet)
    · exact .untagged href
    · exact .untagged (h.name hnode)
  refine .of_slots hnode (tagSlots_of_schemaTags tag htag) (fun _ => Part.shows_of_place hplace) hwarnings
    hattributes (.inr hchecked) ?_
  rw [List.forall_mem_cons, List.forall_mem_singleton]
  refine ⟨⟨children, hchildren, fun inner hinner _ => ?_⟩, ⟨nodes, hnodes, fun inner hinner _ => ?_⟩⟩
  · have hproperty : ∀ child ∈ children, (View.of unit child).Untagged "property" →
        Tells unit child (nested child) := by
      intro child hchild hname
      have htag : child.tag.isAmong ["Property"] = true := (View.mem_of_nested hchildren hchild).1
      refine hnested child (View.height_of_nested hchildren hchild) ⟨?_, fun _ => hname⟩
      exact Datum.isAmong_of_subset htag (by decide)
    obtain ⟨-, hcovered⟩ := covered_of_yields_properties hreads hproperty hproperties (by omega)
    obtain ⟨⟨name, property⟩, hfound, hshows⟩ := hcovered inner hinner
    exact hshows.mono fun place hplace => hplace.schema_property hfound
  · have hschema : IsSchema unit inner :=
      isSchema_of_isAmong (View.mem_of_nested hnodes hinner).1 (by decide)
    obtain ⟨part, hpart, rfl⟩ := exists_of_yields_head? hitems hinner (not_mem_tail_of_length hone)
    have hcovered := hnested inner (View.height_of_nested hnodes hinner) hschema _ part _ hpart (by omega)
    exact hcovered.mono fun place hplace => hplace.schema_items

theorem tells_schemaOf {depth : Nat} (hdepth : node.height ≤ depth) (h : IsSchema unit node)
    (hwarnings : (View.of unit node).warnings = .ok []) :
    Tells unit node (schemaOf unit depth (View.of unit node)) := by
  induction depth generalizing node with
  | zero =>
      have hpos : 0 < node.height := by
        rcases node with ⟨tag, attributes, children, line, column⟩
        simp only [Node.height]
        omega
      omega
  | succ depth ih =>
      refine tells_orReference fun href => ?_
      have hreads (child : Node) : Reads (do schemaOf unit depth (← enter unit child)) :=
        (Reads.enter unit child).bind fun view => reads_schemaOf unit depth view
      -- A schema that stands in this one is lower, so the depth that is left is enough for it.
      refine tells_schemaBody h hwarnings href hreads fun child hheight hchild => ?_
      exact tells_enter (reads_schemaOf unit depth) fun hwarnings => ih (by omega) hchild hwarnings

theorem tells_viewedSchema (h : IsSchema unit node) (hwarnings : (View.of unit node).warnings = .ok []) :
    Tells unit node (viewedSchema unit (View.of unit node)) :=
  tells_schemaOf (Nat.le_refl _) h hwarnings

theorem tells_schema (h : IsSchema unit node) : Tells unit node (schema unit node) :=
  tells_enter (reads_viewedSchema unit) (tells_viewedSchema h)

theorem eq_mediaType_of_lookup : ∀ tag ∈ contentNames, contentTags.lookup tag = none → tag = "MediaType" := by
  decide

/-- The content of a media type has a schema that shows a place. -/
def ShowsIn (media : Part) (place : Location) : Prop :=
  ∃ sample part, media = .mediaType sample (some part) ∧ part.Shows place

theorem covered_of_yields_mediaType {found : Datum × Part} (htag : node.tag.isAmong contentNames = true)
    (h : Yields (mediaType unit node) context found after)
    (hquiet : after.reported ≤ context.reported) : Covered unit node (ShowsIn found.2) := by
  obtain ⟨tag, hmem, hnode⟩ := Datum.isAmong_iff.mp htag
  unfold mediaType at h
  split at h
  · next type htype =>
    obtain ⟨part, between, hpart, h⟩ := yields_bind_iff.mp h
    obtain ⟨rfl, rfl⟩ := yields_pure_iff.mp h
    have hcontent : node.tag.isAmong (contentTags.map (·.1)) = true := by
      refine Datum.isAmong_iff.mpr ⟨tag, (List.mem_cons.mp hmem).resolve_left ?_, hnode⟩
      rintro rfl
      rw [hnode] at htype
      cases htype
    have hschema : IsSchema unit node := isSchema_of_isAmong hcontent (by decide)
    exact (tells_schema hschema context part _ hpart hquiet).mono fun place hplace =>
      ⟨_, part, rfl, hplace⟩
  · next hnone =>
    obtain rfl : tag = "MediaType" := by
      rw [hnode] at hnone
      exact eq_mediaType_of_lookup tag hmem hnone
    simp only [yields_bind_iff, yields_look_iff, yields_ite_iff, yields_pure_iff,
      not_yields_refuse, and_assoc, exists_and_left, exists_eq_left, exists_const, false_and,
      and_false, false_or] at h
    obtain ⟨view, between, henter, type, htype, -, nodes, hnodes, _, hchecked, inner, _, hinner, sample,
      hsample, rfl, rfl⟩ := h
    have hfirst := (Reads.enter unit node).reported_le henter
    have hsecond := (Reads.optionMapM fun item _ => reads_schema unit item).reported_le hinner
    obtain ⟨rfl, hwarnings, rfl⟩ := warnings_of_yields_enter henter (by omega)
    have hattributes : ∀ name ∈ (attributesOf? "MediaType").getD [],
        (View.of unit node).Watched "MediaType" name := by
      simp only [attributesOf?, Option.getD_some, List.forall_mem_cons]
      exact ⟨.untagged (View.untagged_of_text htype), .slot (List.mem_singleton_self _) rfl,
        .untagged (View.untagged_of_literal hsample), by simp⟩
    have hslots : tagSlots "MediaType" = [("schema", ["Schema"])] := rfl
    refine .of_slots hnode hslots (fun hself => absurd hself (Node.not_isPart hnode (by decide))) hwarnings
      hattributes (.inr hchecked) ?_
    rw [List.forall_mem_singleton]
    refine ⟨nodes, hnodes, fun child hchild hheeds => ?_⟩
    have hone : child ∉ nodes.tail := by
      have hall : nodes = (View.of unit node).node.nestedIn ("schema", ["Schema"]) :=
        View.eq_nestedIn hnodes
      exact fun hlater => hheeds.2 (.further hnode (hall ▸ hlater))
    obtain ⟨part, hpart, rfl⟩ := exists_of_yields_head? hinner hchild hone
    have hschema : IsSchema unit child :=
      isSchema_of_isAmong (View.mem_of_nested hnodes hchild).1 (by decide)
    exact (tells_schema hschema _ part _ hpart (by omega)).mono fun place hplace =>
      ⟨_, part, rfl, hplace⟩

theorem covered_of_yields_contents {view : View} {nodes : List Node} {done found : Registry}
    (hnodes : ∀ child ∈ nodes, child.tag.isAmong contentNames = true)
    (h : Yields (contents unit view nodes done) context found after)
    (hquiet : after.reported ≤ context.reported) :
    done ⊆ found ∧ ∀ child ∈ nodes, ∃ entry ∈ found, Covered unit child (ShowsIn entry.2) := by
  induction nodes generalizing done context with
  | nil =>
      obtain ⟨rfl, -⟩ := yields_pure_iff.mp h
      exact ⟨List.Subset.refl _, by simp⟩
  | cons child rest ih =>
      rw [List.forall_mem_cons] at hnodes
      simp only [contents, yields_bind_iff, yields_ite_iff, not_yields_refuse, and_false,
        false_or] at h
      obtain ⟨⟨type, media⟩, _, hmedia, hnew, hrest⟩ := h
      have hkey : Datum.lookup type done = none := by simpa using hnew
      rw [Datum.insertEntry_of_lookup_eq_none hkey] at hrest
      have hfirst := (reads_mediaType unit child).reported_le hmedia
      have hlater := (reads_contents unit view rest _).reported_le hrest
      obtain ⟨hkept, hothers⟩ := ih hnodes.2 hrest (by omega)
      refine ⟨fun entry hentry => hkept (by simp [hentry]), List.forall_mem_cons.mpr ⟨?_, hothers⟩⟩
      have hcovered := covered_of_yields_mediaType hnodes.1 hmedia (by omega)
      exact ⟨(type, media), hkept (by simp), hcovered⟩

/-- Content that is read without a report shows all that is heeded in what stands in its slot. -/
theorem covered_of_yields_content {view : View} {found : Registry}
    (h : Yields (content unit view) context found after) (hquiet : after.reported ≤ context.reported) :
    view.checkChildren contentNames = .ok () ∧
      ∃ nodes, view.nested contentNames (some "content") = .ok nodes ∧ ∀ child ∈ nodes,
        Covered unit child fun place => ∀ path, Walk.Shows place (Part.walkContent path found) := by
  simp only [content, yields_bind_iff, yields_look_iff, yields_pure_iff, and_assoc, exists_and_left,
    exists_eq_left] at h
  obtain ⟨nodes, hnodes, found, between, hcontent, _, hchecked, rfl, rfl⟩ := h
  refine ⟨hchecked, nodes, hnodes, fun child hchild => ?_⟩
  have htags (node : Node) (hnode : node ∈ nodes) : node.tag.isAmong contentNames = true :=
    (View.mem_of_nested hnodes hnode).1
  obtain ⟨-, hall⟩ := covered_of_yields_contents htags hcontent hquiet
  obtain ⟨⟨type, media⟩, hmedia, hcovered⟩ := hall child hchild
  refine hcovered.mono fun place hplace => ?_
  obtain ⟨sample, part, rfl, hshows⟩ := hplace
  exact fun _ => hshows.content_schema hmedia

/-- A body or response whose other attributes hold nothing. -/
theorem covered_of_content {tag : String} {found : Registry} (hnode : node.tag = .text tag)
    (hslots : tagSlots tag = [("content", contentNames)])
    (hwarnings : (View.of unit node).warnings = .ok [])
    (hattributes : ∀ name ∈ (attributesOf? tag).getD [], (View.of unit node).Watched tag name)
    (hcontent : Yields (content unit (View.of unit node)) context found after)
    (hquiet : after.reported ≤ context.reported) (hplace : part.place = some (placeOf unit node))
    (hshows : ∀ place, (∀ path, Walk.Shows place (Part.walkContent path found)) → part.Shows place) :
    Covered unit node (Part.Shows · part) := by
  obtain ⟨hchecked, nodes, hnodes, hcovered⟩ := covered_of_yields_content hcontent hquiet
  refine .of_slots hnode hslots (fun _ => Part.shows_of_place hplace) hwarnings hattributes
    (.inr hchecked) ?_
  rw [List.forall_mem_singleton]
  exact ⟨nodes, hnodes, fun inner hinner _ => (hcovered inner hinner).mono hshows⟩

theorem tells_requestBody (hnode : node.tag = .text "RequestBody")
    (hwarnings : (View.of unit node).warnings = .ok []) :
    Tells unit node (requestBody unit (View.of unit node)) := by
  refine tells_orReference fun href context part after hyields hquiet => ?_
  simp only [yields_bind_iff, yields_look_iff, yields_pure_iff, and_assoc, exists_and_left,
    exists_eq_left] at hyields
  obtain ⟨found, between, hcontent, description, hdescription, required, hrequired, rfl, rfl⟩ := hyields
  refine covered_of_content hnode rfl hwarnings ?_ hcontent hquiet rfl fun place => Part.shows_requestBody
  simp only [attributesOf?, Option.getD_some, List.forall_mem_cons]
  exact ⟨.untagged href, .idle (List.mem_singleton_self _),
    .untagged (View.untagged_of_text hdescription), .untagged (View.untagged_of_flag hrequired),
    .slot (List.mem_singleton_self _) rfl, by simp⟩

theorem tells_response (hnode : node.tag = .text "Response")
    (hwarnings : (View.of unit node).warnings = .ok [])
    (hstatus : (View.of unit node).Untagged "response") :
    Tells unit node (response unit (View.of unit node)) := by
  refine tells_orReference fun href context part after hyields hquiet => ?_
  simp only [yields_bind_iff, yields_look_iff, yields_pure_iff, and_assoc, exists_and_left,
    exists_eq_left] at hyields
  obtain ⟨found, between, hcontent, description, hdescription, rfl, rfl⟩ := hyields
  refine covered_of_content hnode rfl hwarnings ?_ hcontent hquiet rfl fun place => Part.shows_response
  simp only [attributesOf?, Option.getD_some, List.forall_mem_cons]
  exact ⟨.untagged href, .untagged hstatus, .untagged (View.untagged_of_text hdescription),
    .slot (List.mem_singleton_self _) rfl, by simp⟩

theorem parameter_attribute_cases :
    ∀ tag ∈ parameterTags, ∀ name ∈ (attributesOf? tag).getD [], name ∈ idleAttributes tag ∨
      (∃ slot ∈ tagSlots tag, slot.1 = name) ∨
        name ∈ ["ref", "name", "description", "required", "deprecated", "example"] ∨
          tag = "Parameter" ∧ name = "in" := by
  decide

theorem tagSlots_of_parameterTags : ∀ tag ∈ parameterTags, tagSlots tag = [("schema", ["Schema"])] := by
  decide

/-- Where a parameter is passed is read of its tag, or of an attribute without annotations. -/
theorem untagged_of_yields_parameterLocation {location : Datum}
    (h : Yields (parameterLocation (View.of unit node)) context location after) :
    after = context ∧ (node.tag = .text "Parameter" → (View.of unit node).Untagged "in") := by
  unfold parameterLocation at h
  split at h
  · next place hplace =>
    refine ⟨(yields_pure_iff.mp h).2, fun htag => ?_⟩
    rw [View.tag, View.of, htag] at hplace
    cases hplace
  · simp only [yields_bind_iff, yields_look_iff, yields_pure_iff, and_assoc, exists_and_left,
      exists_eq_left] at h
    obtain ⟨given, hgiven, -, rfl⟩ := h
    exact ⟨rfl, fun _ => View.untagged_of_text hgiven⟩

theorem tells_parameter (htag : node.tag.isAmong parameterTags = true)
    (hwarnings : (View.of unit node).warnings = .ok []) :
    Tells unit node (parameter unit (View.of unit node)) := by
  obtain ⟨tag, hmem, hnode⟩ := Datum.isAmong_iff.mp htag
  refine tells_orReference fun href context part after hyields hquiet => ?_
  simp only [parameterBody, yields_bind_iff, yields_look_iff, yields_ite_iff, yields_pure_iff,
    not_yields_refuse, and_assoc, exists_and_left, exists_eq_left, exists_const, false_and,
    and_false, false_or] at hyields
  obtain ⟨location, _, hlocation, nodes, hnodes, _, hchecked, hone, given, hgiven, name, hname,
    description, hdescription, deprecated, hdeprecated, inner, _, hinner, sample, hsample, rfl, rfl⟩ :=
    hyields
  obtain ⟨rfl, hin⟩ := untagged_of_yields_parameterLocation hlocation
  have hread : ∀ name ∈ ["ref", "name", "description", "required", "deprecated", "example"],
      (View.of unit node).Untagged name := by
    simp only [List.forall_mem_cons]
    exact ⟨href, View.untagged_of_text hname, View.untagged_of_text hdescription,
      View.untagged_of_flag hgiven, View.untagged_of_flag hdeprecated,
      View.untagged_of_literal hsample, by simp⟩
  have hattributes : ∀ name ∈ (attributesOf? tag).getD [], (View.of unit node).Watched tag name := by
    intro name hname
    rcases parameter_attribute_cases tag hmem name hname with
      hidle | ⟨slot, hslot, rfl⟩ | hfound | ⟨rfl, rfl⟩
    · exact .idle hidle
    · exact .slot hslot rfl
    · exact .untagged (hread name hfound)
    · exact .untagged (hin hnode)
  refine .of_slots hnode (tagSlots_of_parameterTags tag hmem) (fun _ => Part.shows_of_place rfl) hwarnings
    hattributes (.inr hchecked) ?_
  rw [List.forall_mem_singleton]
  refine ⟨nodes, hnodes, fun child hchild _ => ?_⟩
  obtain ⟨part, hpart, rfl⟩ := exists_of_yields_head? hinner hchild (not_mem_tail_of_length hone)
  have hschema : IsSchema unit child := isSchema_of_isAmong (View.mem_of_nested hnodes hchild).1 (by decide)
  exact (tells_schema hschema _ part _ hpart hquiet).mono fun place hplace => hplace.parameter_schema

/-- Of annotations that are read one after the other without a report, each is among the parts found. -/
theorem covered_of_yields_mapM {nodes : List Node} {read : Node → Step Part} {found : List Part}
    (hreads : ∀ child, Reads (read child)) (hnodes : ∀ child ∈ nodes, Tells unit child (read child))
    (h : Yields (nodes.mapM read) context found after) (hquiet : after.reported ≤ context.reported) :
    ∀ child ∈ nodes, ∃ part ∈ found, Covered unit child (Part.Shows · part) := by
  induction nodes generalizing context found with
  | nil => simp
  | cons child rest ih =>
      rw [List.forall_mem_cons] at hnodes
      obtain ⟨part, between, others, hpart, hothers, rfl⟩ := yields_cons_mapM_iff.mp h
      have hfirst := (hreads child).reported_le hpart
      have hlater := (Reads.mapM fun other _ => hreads other).reported_le hothers
      refine List.forall_mem_cons.mpr ⟨⟨part, by simp, ?_⟩, fun other hother => ?_⟩
      · exact hnodes.1 context part between hpart (by omega)
      · obtain ⟨later, hmem, hcovered⟩ := ih hnodes.2 hothers (by omega) other hother
        exact ⟨later, by simp [hmem], hcovered⟩

theorem covered_of_yields_statusResponse {found : Datum × Part} (htag : node.tag = .text "Response")
    (h : Yields (statusResponse unit node) context found after)
    (hquiet : after.reported ≤ context.reported) : Covered unit node (Part.Shows · found.2) := by
  simp only [statusResponse, yields_bind_iff, yields_look_iff, yields_ite_iff, yields_pure_iff,
    not_yields_refuse, and_assoc, exists_and_left, exists_eq_left, and_false, false_or] at h
  obtain ⟨view, between, henter, status, hstatus, -, part, _, hpart, rfl, rfl⟩ := h
  have hfirst := (Reads.enter unit node).reported_le henter
  have hsecond := (reads_response unit view).reported_le hpart
  obtain ⟨rfl, hwarnings, rfl⟩ := warnings_of_yields_enter henter (by omega)
  exact tells_response htag hwarnings (View.untagged_of_textOrNumber hstatus) _ part _ hpart hquiet

theorem covered_of_yields_statusResponses {label : String} {nodes : List Node} {done found : Registry}
    (hnodes : ∀ child ∈ nodes, child.tag = .text "Response")
    (h : Yields (statusResponses unit label nodes done) context found after)
    (hquiet : after.reported ≤ context.reported) :
    done ⊆ found ∧ ∀ child ∈ nodes, ∃ entry ∈ found, Covered unit child (Part.Shows · entry.2) := by
  induction nodes generalizing done context with
  | nil =>
      obtain ⟨rfl, -⟩ := yields_pure_iff.mp h
      exact ⟨List.Subset.refl _, by simp⟩
  | cons child rest ih =>
      rw [List.forall_mem_cons] at hnodes
      simp only [statusResponses, yields_bind_iff, yields_look_iff, yields_ite_iff, not_yields_throw,
        and_false, false_or] at h
      obtain ⟨⟨status, response⟩, _, hresponse, _, _, ⟨-, rfl⟩, hnew, hrest⟩ := h
      have hkey : Datum.lookup status done = none := by simpa using hnew
      rw [Datum.insertEntry_of_lookup_eq_none hkey] at hrest
      have hfirst := (reads_statusResponse unit child).reported_le hresponse
      have hlater := (reads_statusResponses unit label rest _).reported_le hrest
      obtain ⟨hkept, hothers⟩ := ih hnodes.2 hrest (by omega)
      refine ⟨fun entry hentry => hkept (by simp [hentry]), List.forall_mem_cons.mpr ⟨?_, hothers⟩⟩
      have hcovered := covered_of_yields_statusResponse hnodes.1 hresponse (by omega)
      exact ⟨(status, response), hkept (by simp), hcovered⟩

end DocCompiler.Build
