import DocCompiler.Document.Rule
import DocCompiler.Proofs.Data.Result
import DocCompiler.Proofs.Document.Walk
import DocCompiler.Proofs.Build.Document
import DocCompiler.Proofs.Document.Resolution

/-!
What a model without breaches of rules is like, and accepted models: those that units are built into, that are
resolved, and that keep all rules, without an error on the way. All their references are bound, and no constant is
left in them.
-/

namespace DocCompiler

section Rules

variable {model : Model} {parts : Parts}

theorem Model.all_walk_of_parts {holds : Part → Prop} (h : model.parts = .ok parts)
    (hparts : ∀ entry ∈ parts, holds entry.2) : Walk.All holds model.walk := by
  intro step hstep
  obtain ⟨entry, hentry, hfound⟩ := Result.ok_of_mapM_eq_ok h hstep
  exact ⟨entry.1, entry.2, hfound, hparts entry hentry⟩

theorem Walk.All.of_mem_parts {holds : Part → Prop} (hall : Walk.All holds model.walk)
    (h : model.parts = .ok parts) {entry : String × Part} (hentry : entry ∈ parts) : holds entry.2 := by
  obtain ⟨step, hstep, hfound⟩ := Result.mem_of_mapM_eq_ok h hentry
  obtain ⟨path, part, hpart, hholds⟩ := hall step hstep
  obtain rfl : (path, part) = entry := Except.ok.inj (hpart.symm.trans hfound)
  exact hholds

theorem Parts.mem_of_mem_references {entry : String × Reference} (h : entry ∈ parts.references) :
    (entry.1, Part.reference entry.2) ∈ parts := by
  obtain ⟨⟨path, part⟩, hmem, hlink⟩ := List.mem_filterMap.mp h
  cases part with
  | reference link =>
      obtain rfl : (path, link) = entry := Option.some.inj hlink
      exact hmem
  | _ => cases hlink

/-- When nothing is found among items, nothing is found at any of them. -/
theorem Result.eq_nil_of_flatten_mapM {ε α β : Type} {f : α → Except ε (List β)} {items : List α}
    (h : (do return (← items.mapM f).flatten) = Except.ok []) {item : α} (hitem : item ∈ items) :
    f item = .ok [] := by
  obtain ⟨found, hfound, hflatten⟩ := Result.bind_eq_ok_iff.mp h
  rw [Result.pure_eq_ok_iff, List.flatten_eq_nil_iff] at hflatten
  obtain ⟨result, hresult, hitemFound⟩ := Result.ok_of_mapM_eq_ok hfound hitem
  rw [hitemFound, hflatten result hresult]

theorem Model.breaches_eq_nil {rules : List Rule} (h : model.breaches rules = .ok []) :
    ∃ parts, model.parts = .ok parts ∧ ∀ rule ∈ rules, rule.breaches model parts = .ok [] := by
  obtain ⟨parts, hparts, hfound⟩ := Result.bind_eq_ok_iff.mp h
  exact ⟨parts, hparts, fun rule hrule => Result.eq_nil_of_flatten_mapM hfound hrule⟩

namespace Rule

theorem responses_ne_nil (h : operationResponses.breaches model parts = .ok [])
    {entry : String × Endpoint} (hentry : entry ∈ endpointsOf parts) : entry.2.responses ≠ [] := by
  have hall := Result.mapM_eq_ok_iff.mp h
  rw [List.forall₂_nil_right_iff, List.filter_eq_nil_iff] at hall
  intro hnil
  exact hall entry hentry (List.isEmpty_iff.mpr hnil)

/-- Without a breach the identifiers are given, and none is among those seen or comes again. -/
theorem distinct_of_repeatedIds {seen : List (Datum × (String × Operation))}
    {operations : List (String × Operation)} (h : repeatedIds seen operations = .ok [])
    (hmarker : ∀ entry ∈ operations, ¬ entry.2.operationId.IsMarker) :
    (∀ entry ∈ operations, entry.2.operationId.isTruthy = true ∧
      Datum.lookup entry.2.operationId seen = none) ∧
      operations.Pairwise fun first second =>
        first.2.operationId.sameKey second.2.operationId = false := by
  induction operations generalizing seen with
  | nil => simp
  | cons entry rest ih =>
      rcases entry with ⟨path, operation⟩
      obtain ⟨hfirst, hrest⟩ := List.forall_mem_cons.mp hmarker
      rw [repeatedIds] at h
      split at h
      · next marker hid => exact absurd ⟨marker, hid⟩ hfirst
      · split_ifs at h with htruthy hhashable
        · obtain ⟨found, -, hfound⟩ := Result.bind_eq_ok_iff.mp h
          cases hfound
        · split at h
          · obtain ⟨shown, -, hlater⟩ := Result.bind_eq_ok_iff.mp h
            obtain ⟨found, -, hfound⟩ := Result.bind_eq_ok_iff.mp hlater
            cases hfound
          · next hseen =>
            obtain ⟨hall, hpairwise⟩ := ih h hrest
            refine ⟨List.forall_mem_cons.mpr ⟨⟨by simpa using htruthy, hseen⟩, fun other hother => ?_⟩,
              List.pairwise_cons.mpr ⟨fun other hother => ?_, hpairwise⟩⟩
            · obtain ⟨hother, hlookup⟩ := hall other hother
              rw [Datum.lookup_eq_none_iff, List.forall_mem_cons, ← Datum.lookup_eq_none_iff] at hlookup
              exact ⟨hother, hlookup.2⟩
            · have hlookup := (hall other hother).2
              rw [Datum.lookup_eq_none_iff, List.forall_mem_cons] at hlookup
              exact hlookup.1

theorem distinct_of_uniqueOperationId (h : uniqueOperationId.breaches model parts = .ok [])
    (hmarker : ∀ entry ∈ endpointsOf parts, ¬ entry.2.operation.operationId.IsMarker) :
    (∀ entry ∈ endpointsOf parts, entry.2.operation.operationId.isTruthy = true) ∧
      (endpointsOf parts).Pairwise fun first second =>
        first.2.operation.operationId.sameKey second.2.operation.operationId = false := by
  obtain ⟨hall, hpairwise⟩ := distinct_of_repeatedIds h (List.forall_mem_map.mpr hmarker)
  exact ⟨fun entry hentry => (List.forall_mem_map.mp hall entry hentry).1, List.pairwise_map.mp hpairwise⟩

/-- A parameter without breaches has a name and a known location, and says that it is required when it
is in the path. -/
theorem shape_of_parameterShape (h : parameterShape.breaches model parts = .ok []) {path : String}
    {value : Parameter} {inner : Option Part} (hmem : (path, .parameter value inner) ∈ parts)
    (hmarker : ¬ value.location.IsMarker) :
    value.name.isTruthy = true ∧ value.location.isAmong parameterLocations = true ∧
      (value.location.isText "path" = true → isFalse value.required = false) := by
  have hshape : shapeBreaches path value = [] :=
    List.flatMap_eq_nil_iff.mp (Except.ok.inj h) _ hmem
  obtain ⟨hname, hlocation⟩ := List.append_eq_nil_iff.mp hshape
  refine ⟨by simpa using hname, ?_⟩
  split at hlocation
  · next marker heq => exact absurd ⟨marker, heq⟩ hmarker
  · split_ifs at hlocation with hamong hpath
    refine ⟨by simpa using hamong, fun hin => ?_⟩
    simpa [hin] using hpath

/-- A path without breaches is a text whose placeholders are the names of the parameters in it. -/
theorem placeholders_of_pathParameters (h : pathParameters.breaches model parts = .ok [])
    {entry : String × Endpoint} (hentry : entry ∈ endpointsOf parts)
    (hmarker : ¬ entry.2.operation.path.IsMarker) :
    ∃ route, entry.2.operation.path = .text route ∧
      ∀ name, (∃ placeholder ∈ Route.placeholders route, name = .text placeholder) ↔
        name ∈ pathParameterNames model.linked entry.2 := by
  have hpath := Result.eq_nil_of_flatten_mapM h hentry
  simp only [pathBreaches] at hpath
  split at hpath
  · next marker heq => exact absurd ⟨marker, heq⟩ hmarker
  · next route heq =>
    obtain ⟨hmissing, hforeign⟩ := List.append_eq_nil_iff.mp (Except.ok.inj hpath)
    rw [List.map_eq_nil_iff, List.filter_eq_nil_iff] at hmissing hforeign
    refine ⟨route, heq, fun name => ⟨?_, fun hname => ?_⟩⟩
    · rintro ⟨placeholder, hplaceholder, rfl⟩
      have hdeclared := hmissing placeholder hplaceholder
      simp only [Bool.not_eq_true', Bool.not_eq_false, List.any_eq_true, Datum.isText_iff] at hdeclared
      obtain ⟨name, hname, rfl⟩ := hdeclared
      exact hname
    · have hplaced := hforeign name hname
      simp only [Bool.not_eq_true', Bool.not_eq_false, List.any_eq_true, Datum.isText_iff] at hplaced
      exact hplaced
  · cases hpath

/-- Required properties of a schema without breaches are declared. -/
theorem declared_of_requiredProperties (h : requiredProperties.breaches model parts = .ok [])
    {path : String} {facets : Facets} {properties : Registry} {items : Option Part}
    (hmem : (path, .schema facets properties items) ∈ parts) {names : List Datum}
    (hnames : facets.required.members = .ok names) {name : Datum} (hname : name ∈ names)
    (hmarker : ¬ name.IsMarker) : (Datum.lookup name properties).isSome = true := by
  have hschema := Result.eq_nil_of_flatten_mapM h hmem
  obtain ⟨members, hmembers, hrest⟩ := Result.bind_eq_ok_iff.mp hschema
  obtain ⟨found, hfound, hnone⟩ := Result.bind_eq_ok_iff.mp hrest
  obtain rfl : names = members := Except.ok.inj (hnames.symm.trans hmembers)
  rw [Result.pure_eq_ok_iff, List.filterMap_eq_nil_iff] at hnone
  obtain ⟨result, hresult, hundeclared⟩ := Result.ok_of_mapM_eq_ok hfound hname
  rw [show result = none from hnone result hresult] at hundeclared
  cases name with
  | unresolved marker => exact absurd ⟨marker, rfl⟩ hmarker
  | _ =>
      simp only [undeclared?] at hundeclared
      split_ifs at hundeclared with hhashable hlookup
      · exact hlookup
      · cases hundeclared

theorem isTruthy_of_missing? {info : Info} {field : String} {value : Datum}
    (h : (missing? info field value).toList = []) : value.isTruthy = true := by
  rw [Option.toList_eq_nil_iff, missing?] at h
  split_ifs at h with hgiven
  exact hgiven

/-- The general information of a model without breaches has a title and a version. -/
theorem given_of_infoMetadata (h : infoMetadata.breaches model parts = .ok []) :
    ∃ info contact license, model.info = .info info contact license ∧
      info.title.isTruthy = true ∧ info.version.isTruthy = true := by
  rw [infoMetadata] at h
  dsimp only at h
  split at h
  · next info contact license heq =>
    obtain ⟨htitle, hversion⟩ := List.append_eq_nil_iff.mp (Except.ok.inj h)
    exact ⟨info, contact, license, heq, isTruthy_of_missing? htitle, isTruthy_of_missing? hversion⟩
  · cases h

/-- No part of a model without unresolved constants has a marker. -/
theorem markers_of_unresolvedConstants (h : unresolvedConstants.breaches model parts = .ok [])
    {entry : String × Part} (hentry : entry ∈ parts) : markers entry.2 = [] := by
  have hnone := List.flatMap_eq_nil_iff.mp (Except.ok.inj h) entry hentry
  exact List.map_eq_nil_iff.mp hnone

/-- A value without markers in it is none. -/
theorem not_isMarker_of_datumMarkers {value : Datum} (h : datumMarkers value = []) :
    ¬ value.IsMarker := by
  rintro ⟨marker, rfl⟩
  simp [datumMarkers] at h

theorem markers_eq_nil_iff {part : Part} :
    markers part = [] ↔ ∀ field ∈ fieldsOf part, datumMarkers field.2 = [] := by
  simp only [markers, List.flatMap_eq_nil_iff, List.map_eq_nil_iff]

theorem datumMarkers_of_markers {part : Part} (h : markers part = []) {value : Datum}
    (hvalue : value ∈ (fieldsOf part).map (·.2)) : datumMarkers value = [] := by
  obtain ⟨field, hfield, rfl⟩ := List.mem_map.mp hvalue
  exact markers_eq_nil_iff.mp h field hfield

/-- A field of a part without markers holds none. -/
theorem not_isMarker_of_markers {part : Part} (h : markers part = []) {value : Datum}
    (hvalue : value ∈ (fieldsOf part).map (·.2)) : ¬ value.IsMarker :=
  not_isMarker_of_datumMarkers (datumMarkers_of_markers h hvalue)

theorem datumMarkers_of_mem_items {items : List Datum} (h : datumMarkers (.list items) = [])
    {item : Datum} (hitem : item ∈ items) : datumMarkers item = [] := by
  rw [datumMarkers] at h
  induction items with
  | nil => simp at hitem
  | cons first rest ih =>
      obtain ⟨hfirst, hrest⟩ := List.append_eq_nil_iff.mp h
      rcases List.mem_cons.mp hitem with rfl | hlater
      · exact hfirst
      · exact ih hrest hlater

end Rule

end Rules

open Annotation

/-- Building, resolving and checking a model from units reports no error. -/
def Accepted (units : List AnnotatedUnit) (overrides : Overrides) (model : Model) : Prop :=
  ∃ context resolved breaches, Build.build units = .ok context ∧
    (context.model.applyOverrides overrides).1.freeze.resolve = (model, .ok resolved) ∧
    model.breaches Rule.all = .ok breaches ∧
    ∀ diagnostic ∈ context.diagnostics ++ resolved ++ breaches.map Breach.diagnostic,
      diagnostic.severity ≠ .error

/-- The model that units are built into, if there is no error on the way. -/
def accept? (units : List AnnotatedUnit) (overrides : Overrides) : Option Model :=
  match Build.build units with
  | .error _ => none
  | .ok context =>
      match (context.model.applyOverrides overrides).1.freeze.resolve with
      | (_, .error _) => none
      | (model, .ok resolved) =>
          match model.breaches Rule.all with
          | .error _ => none
          | .ok breaches =>
              if ∀ diagnostic ∈ context.diagnostics ++ resolved ++ breaches.map Breach.diagnostic,
                  diagnostic.severity ≠ .error then some model else none

theorem accepted_iff {units : List AnnotatedUnit} {overrides : Overrides} {model : Model} :
    Accepted units overrides model ↔ accept? units overrides = some model := by
  constructor
  · rintro ⟨context, resolved, breaches, hbuild, hresolve, hbreaches, hclean⟩
    simp only [accept?, hbuild, hresolve, hbreaches]
    exact if_pos hclean
  · intro h
    rw [accept?] at h
    split at h
    · cases h
    · next context hbuild =>
      split at h
      · cases h
      · next found resolved hresolve =>
        split at h
        · cases h
        · next breaches hbreaches =>
          split_ifs at h with hclean
          cases h
          exact ⟨context, resolved, breaches, hbuild, hresolve, hbreaches, hclean⟩

theorem accepted_getD {units : List AnnotatedUnit} {overrides : Overrides} (default : Model)
    (h : (accept? units overrides).isSome = true) :
    Accepted units overrides ((accept? units overrides).getD default) := by
  obtain ⟨found, hfound⟩ := Option.isSome_iff_exists.mp h
  rw [accepted_iff, hfound, Option.getD_some]

/-- A model whose parts are in place, with every reference bound, following aliases coming to an end,
and no constant left. -/
structure Model.Closed (terms : Terms) (model : Model) : Prop where
  fits : model.Fits (terms.withLink (Reference.Bound model.components))
  linked : model.linked = model.components
  aliasesEnd : model.components.AliasesEnd
  unmarked : Walk.All (fun part => Rule.markers part = []) model.walk

/-- In a resolved model without a constant all references are bound. -/
theorem Model.Resolved.closed {terms : Terms} {model : Model} (h : model.Resolved terms)
    (hunmarked : Walk.All (fun part => Rule.markers part = []) model.walk) : model.Closed terms where
  fits := by
    refine h.fits.relink (fun place link hmarkers hlink => ?_) hunmarked
    refine Or.resolve_left hlink fun hmarked => ?_
    have hname : link.name ∈ (Rule.fieldsOf (.reference link)).map (·.2) := by
      simp [Rule.fieldsOf]
    exact Rule.not_isMarker_of_markers hmarkers hname (Reference.isMarked_iff.mp hmarked.1)
  linked := h.linked
  aliasesEnd := h.aliasesEnd
  unmarked := hunmarked

section Accepting

variable {units : List AnnotatedUnit} {overrides : Overrides} {model : Model}

theorem Accepted.breaches_eq_nil (h : Accepted units overrides model) :
    ∃ parts, model.parts = .ok parts ∧ ∀ rule ∈ Rule.all, rule.breaches model parts = .ok [] := by
  obtain ⟨context, resolved, breaches, -, -, hbreaches, hclean⟩ := h
  refine Model.breaches_eq_nil ?_
  cases breaches with
  | nil => exact hbreaches
  | cons breach rest => exact absurd rfl (hclean breach.diagnostic (by simp))

theorem Accepted.unmarked (h : Accepted units overrides model) :
    Walk.All (fun part => Rule.markers part = []) model.walk := by
  obtain ⟨parts, hparts, hrules⟩ := h.breaches_eq_nil
  refine Model.all_walk_of_parts hparts fun entry hentry => ?_
  exact Rule.markers_of_unresolvedConstants (hrules _ (by simp [Rule.all])) hentry

/-- What is known of an accepted model, and what it has in common with the model it was built from. -/
theorem Accepted.closed {terms : Terms} (h : Accepted units overrides model)
    (hleaves : ∀ unit ∈ units, unit.Leaves terms.leaf)
    (hfresh : ∀ place link, link.Fresh place ↔ terms.link place link) :
    model.Closed terms ∧ ∃ context : Build.Context, context.Sound terms [] ∧
      model.info = (context.model.applyOverrides overrides).1.info ∧
      model.servers = (context.model.applyOverrides overrides).1.servers ∧
      model.tags = (context.model.applyOverrides overrides).1.tags := by
  have hunmarked := h.unmarked
  obtain ⟨context, resolved, breaches, hbuild, hresolve, -, hclean⟩ := h
  have hsound := Build.sound_of_build (fun place link => (hfresh place link).mp) hleaves hbuild
  obtain ⟨hresolved, hinfo, hservers, htags⟩ :=
    (hsound.fits.applyOverrides overrides).freeze.resolved (fun place link => (hfresh place link).mpr)
      hresolve fun diagnostic hdiagnostic => hclean diagnostic (by simp [hdiagnostic])
  exact ⟨hresolved.closed hunmarked, context, hsound, hinfo, hservers, htags⟩

end Accepting

namespace Pets

/-- An annotation with texts as attributes. -/
def node (tag : String) (attributes : List (String × String)) (children : List Node) : Node where
  tag := .text tag
  attributes := attributes.map fun entry => (.text entry.1, .string entry.2)
  children
  line := 1
  column := 1

/-- A source that declares a server, a schema, a parameter and an operation that refers to it. -/
def units : List AnnotatedUnit :=
  [{ identity := "pets", fingerprint := "", blocks := [
      { symbol := .ofFile "pets", nodes := [
          node "Info" [("title", "Pets"), ("version", "1")] [],
          node "Server" [("url", "/v1")] [],
          node "Schema" [("schema", "Pet"), ("required", "name")] [
            node "Property" [("property", "name"), ("type", "string")] []],
          node "PathParameter" [("parameter", "Id"), ("name", "id")] []] },
      { symbol := { kind := .method, name := .text "show", qualifiedName := .text "Pets.show" }
        nodes := [
          node "Get" [("path", "/pets/\x7bid\x7d")] [
            node "PathParameter" [("ref", "Id")] [],
            node "Response" [("response", "200"), ("description", "Found")] []]] }] }]

/-- The model of the source. -/
def model : Model :=
  (accept? units {}).getD {}

theorem accepted : Accepted units {} model :=
  accepted_getD {} (by decide +kernel)

theorem leaves_node {tag : String} {attributes : List (String × String)} {children : List Node} :
    (node tag attributes children).Leaves LeafKind.Fits ↔ ∀ child ∈ children, child.Leaves LeafKind.Fits := by
  refine (Node.leaves_iff _).trans (and_iff_right fun entry hentry => ?_)
  obtain ⟨given, -, rfl⟩ := List.mem_map.mp hentry
  exact ⟨_, (Datum.ofCodes_toList given.2).symm⟩

theorem wellTyped : ∀ unit ∈ units, unit.WellTyped := by
  have htext (text : String) : LeafKind.Fits .string (.text text) :=
    ⟨_, (Datum.ofCodes_toList text).symm⟩
  simp only [units, List.forall_mem_singleton]
  rintro block (_ | ⟨_, _ | ⟨_, hnone⟩⟩)
  · refine ⟨htext _, htext _, fun found hfound => ?_⟩
    simp only [List.mem_cons, List.not_mem_nil, or_false] at hfound
    rcases hfound with rfl | rfl | rfl | rfl <;> simp [leaves_node]
  · refine ⟨htext _, htext _, fun found hfound => ?_⟩
    obtain rfl := List.mem_singleton.mp hfound
    simp [leaves_node]
  · cases hnone

end Pets

end DocCompiler
