import DocCompiler.Proofs.Build.Document
import DocCompiler.Proofs.Document.AliasCycle
import DocCompiler.Proofs.Document.Binding
import DocCompiler.Proofs.Document.Follow

/-!
What resolution reports. Each reference has its answer, in the order of the walk: nothing when it names a
component of the collection that fits, and is bound then, or when its name is the marker of a constant;
else what is wrong with it. Behind these come the cycles of aliases, each once.
-/

namespace DocCompiler

namespace Reference

/-- A reference names a component that is there, of the collection that fits where it stands. -/
structure Names (components : Components) (link : Reference) (place : Collection) (name : String) :
    Prop where
  collection : link.collection = .text place.name
  expected : link.expected = .text place.name
  named : link.name = .text name
  found : (components.get? place (.text name)).isSome = true

/-- What is wrong with a reference at a path. -/
inductive Broken (components : Components) (path : String) (link : Reference) : ResolutionError → Prop
  | unknownCollection (h : ∀ place : Collection, link.collection ≠ .text place.name) :
      Broken components path link
        (.unknownCollection link.pointer path link.collection.display)
  | unexpectedCollection {place : Collection} (h : link.collection = .text place.name)
      (hexpected : link.expected ≠ .text place.name) :
      Broken components path link
        (.unexpectedCollection link.pointer path place.name link.expected.display)
  | dangling {place : Collection} (h : link.collection = .text place.name)
      (hexpected : link.expected = .text place.name)
      (hmissing : components.get? place link.name = none) :
      Broken components path link (.dangling link.pointer path)

/-- What is to be reported of a reference at a path, if anything. -/
inductive Answer (components : Components) (path : String) (link : Reference) :
    Option Diagnostic → Prop
  | marker (h : link.name.IsMarker) : Answer components path link none
  | names {place : Collection} {name : String} (h : link.Names components place name) :
      Answer components path link none
  | broken {error : ResolutionError} (hname : ¬ link.name.IsMarker)
      (h : link.Broken components path error) :
      Answer components path link (some (error.diagnostic link.location))

/-- A reference with its path before and after resolution: it says what it said, and is bound then if it
names a component, and only then. -/
structure Becomes (components : Components) (before after : String × Reference) : Prop where
  path : after.1 = before.1
  same : { after.2 with binding := before.2.binding, recursive := before.2.recursive } = before.2
  bound_iff : after.2.isBound = true ↔ ∃ place name, before.2.Names components place name

/-- A reference that is bound where it stands, if at all. -/
def Settled (components : Components) (place : Collection) (link : Reference) : Prop :=
  link.binding = .unbound ∨ link.Bound components place

variable {components : Components} {place : Collection} {path : String} {link : Reference}

theorem Names.not_isMarker {name : String} (h : link.Names components place name) :
    ¬ link.name.IsMarker := by
  rw [h.named]
  rintro ⟨marker, hmarker⟩
  cases hmarker

/-- A reference that names a component is not broken. -/
theorem Names.not_broken {name : String} (h : link.Names components place name)
    {error : ResolutionError} : ¬ link.Broken components path error := by
  have hplace {other : Collection} (hother : link.collection = .text other.name) : other = place :=
    Collection.name_injective (Datum.text.inj (hother.symm.trans h.collection))
  intro hbroken
  cases hbroken with
  | unknownCollection hunknown => exact hunknown place h.collection
  | unexpectedCollection hother hexpected =>
      obtain rfl := hplace hother
      exact hexpected h.expected
  | dangling hother _ hmissing =>
      obtain rfl := hplace hother
      have hfound := h.found
      rw [← h.named, hmissing] at hfound
      cases hfound

theorem Names.isMarked_eq {name : String} (h : link.Names components place name) :
    link.isMarked = false := by
  rw [← Bool.not_eq_true, isMarked_iff]
  exact h.not_isMarker

/-- One thing at most is wrong with a reference. -/
theorem Broken.unique {error other : ResolutionError} (h : link.Broken components path error)
    (hother : link.Broken components path other) : error = other := by
  have hplace {first second : Collection} (hfirst : link.collection = .text first.name)
      (hsecond : link.collection = .text second.name) : first = second :=
    Collection.name_injective (Datum.text.inj (hfirst.symm.trans hsecond))
  cases h with
  | unknownCollection hunknown =>
      cases hother with
      | unknownCollection => rfl
      | unexpectedCollection hknown | dangling hknown => exact absurd hknown (hunknown _)
  | unexpectedCollection hknown hexpected =>
      cases hother with
      | unknownCollection hunknown => exact absurd hknown (hunknown _)
      | unexpectedCollection hother => rw [hplace hknown hother]
      | dangling hother hfits =>
          obtain rfl := hplace hknown hother
          exact absurd hfits hexpected
  | dangling hknown hfits =>
      cases hother with
      | unknownCollection hunknown => exact absurd hknown (hunknown _)
      | unexpectedCollection hother hexpected =>
          obtain rfl := hplace hknown hother
          exact absurd hfits hexpected
      | dangling => rfl

/-- There is one answer to a reference. -/
theorem Answer.unique {answer other : Option Diagnostic} (h : link.Answer components path answer)
    (hother : link.Answer components path other) : answer = other := by
  cases h with
  | marker hmarker =>
      cases hother with
      | marker | names => rfl
      | broken hname => exact absurd hmarker hname
  | names hnames =>
      cases hother with
      | marker | names => rfl
      | broken _ hbroken => exact absurd hbroken hnames.not_broken
  | broken hname hbroken =>
      cases hother with
      | marker hmarker => exact absurd hmarker hname
      | names hnames => exact absurd hbroken hnames.not_broken
      | broken _ hother => rw [hbroken.unique hother]

/-- Nothing is said of a reference that names a component. -/
theorem Names.error?_eq {name : String} (h : link.Names components place name) (path : String) :
    link.error? components path = .ok none := by
  rw [error?_eq_ok_none_iff]
  refine .inr ⟨place, h.collection, h.expected, ?_, ?_⟩
  · rw [h.named]
    rfl
  · rw [h.named]
    exact h.found

namespace Fresh

variable (h : link.Fresh place)

include h

/-- The reference as it is read has its answer. -/
theorem exists_error? (components : Components) (path : String) :
    ∃ error, link.error? components path = .ok error ∧
      link.Answer components path (error.map fun error => error.diagnostic link.location) := by
  by_cases hmarker : link.name.IsMarker
  · exact ⟨none, error?_eq_ok_none_iff.mpr (.inl (isMarked_iff.mpr hmarker)), .marker hmarker⟩
  have hmarked : link.isMarked = false := by
    rw [← Bool.not_eq_true, isMarked_iff]
    exact hmarker
  obtain ⟨name, hname, -⟩ := h.name.resolve_left hmarker
  unfold error?
  rw [hmarked, if_neg Bool.false_ne_true]
  cases hcollection : Collection.ofDatum? link.collection with
  | none =>
      refine ⟨_, rfl, .broken hmarker (.unknownCollection fun collection heq => ?_)⟩
      rw [heq, Collection.ofDatum?_name] at hcollection
      cases hcollection
  | some collection =>
      rw [Collection.ofDatum?_eq_some_iff] at hcollection
      dsimp only
      cases hexpected : link.expected.isText collection.name with
      | false =>
          refine ⟨_, rfl, .broken hmarker (.unexpectedCollection hcollection ?_)⟩
          exact Datum.isText_eq_false_iff.mp hexpected
      | true =>
          rw [Datum.isText_iff] at hexpected
          rw [hname]
          cases hfound : components.get? collection (.text name) with
          | none =>
              refine ⟨_, rfl, .broken hmarker (.dangling hcollection hexpected ?_)⟩
              rw [hname, hfound]
          | some part =>
              have hnames : link.Names components collection name :=
                ⟨hcollection, hexpected, hname, by rw [hfound]; rfl⟩
              exact ⟨none, rfl, .names hnames⟩

/-- The reference is bound if it names a component, and only then. -/
theorem isBound_bind_iff :
    (link.bind components).isBound = true ↔ ∃ place name, link.Names components place name := by
  constructor
  · intro hbound
    by_contra hnone
    refine absurd hbound ?_
    obtain ⟨error, herror, hanswer⟩ := h.exists_error? components ""
    have hunbound : link.isBound = false := by simp [isBound, h.binding]
    have hbind : link.bind components = link := by
      unfold bind
      split
      · rename_i hmarked hok
        obtain rfl := Except.ok.inj (herror.symm.trans hok)
        cases hanswer with
        | marker hmarker => cases hmarked.symm.trans (isMarked_iff.mpr hmarker)
        | names hnames => exact absurd ⟨_, _, hnames⟩ hnone
      · rfl
    rw [hbind, hunbound]
    exact Bool.false_ne_true
  · rintro ⟨found, name, hnames⟩
    simp [bind, hnames.isMarked_eq, hnames.error?_eq, isBound]

/-- The reference names a component of the collection that fits where it stands, if any. -/
theorem place_eq_of_names {found : Collection} {name : String}
    (hnames : link.Names components found name) : found = place :=
  Collection.name_injective (Datum.text.inj (hnames.expected.symm.trans h.expected))

/-- The reference is bound where it stands, if at all. -/
theorem settled_bind {others : Components}
    (hkeys : (others.entries place).map (·.1) = (components.entries place).map (·.1)) :
    (link.bind components).Settled others place := by
  by_cases hnames : ∃ found name, link.Names components found name
  · obtain ⟨found, name, hnames⟩ := hnames
    obtain rfl := h.place_eq_of_names hnames
    have hbound : (link.bind components).Bound components found := by
      refine ((resolved_bind h (hnames.error?_eq "")).resolve_left ?_)
      rintro ⟨-, hunbound⟩
      have hisBound := h.isBound_bind_iff.mpr ⟨found, name, hnames⟩
      simp [isBound, hunbound] at hisBound
    refine .inr ⟨hbound.collection, hbound.name, hbound.binding, ?_⟩
    rw [Components.get?, Datum.isSome_lookup_congr hkeys]
    exact hbound.found
  · have hisBound := h.isBound_bind_iff.not.mpr hnames
    exact .inl (by simpa [isBound] using hisBound)

end Fresh

theorem Settled.recursive (h : link.Settled components place) :
    ({ link with recursive := .bool true } : Reference).Settled components place :=
  h.imp_right fun h => ⟨h.collection, h.name, h.binding, h.found⟩

theorem Settled.key?_eq (h : link.Settled components place) {key : ComponentKey}
    (hkey : link.key? = some key) : key.1 = place := by
  unfold key? at hkey
  split at hkey
  · rename_i hbinding
    rcases h with hunbound | hbound
    · cases hunbound.symm.trans hbinding
    · rw [hbound.collection, Collection.ofDatum?_name] at hkey
      obtain rfl := Option.some.inj hkey
      rfl
  · cases hkey

end Reference

/-- A component of a collection is an alias: a reference that names another one of it, or itself. -/
def Components.Alias (components : Components) (place : Collection) (name following : String) : Prop :=
  ∃ link, components.get? place (.text name) = some (.reference link) ∧
    link.Names components place following

/-- What resolving a model reports: what is to be reported of its references, in order, and then the
cycles of aliases, collection by collection. The references are found again where they were. -/
structure Model.Reports (model resolved : Model) (parts later : Parts)
    (answers : List (Option Diagnostic)) (cycles : Collection → List (List String)) : Prop where
  parts_eq : model.parts = .ok parts
  later_eq : resolved.parts = .ok later
  resolve_eq : model.resolve = (resolved, .ok (answers.filterMap id ++
    [Collection.parameters, .requestBodies, .responses].flatMap fun place =>
      (cycles place).map (model.components.cycleDiagnostic place)))
  answered : List.Forall₂ (fun entry answer => entry.2.Answer model.components entry.1 answer)
    parts.references answers
  becomes : List.Forall₂ (Reference.Becomes model.components) parts.references later.references
  listsCycles : ∀ place, ListsCycles (model.components.Alias place) (cycles place)

/-- The steps of a walk without obstacles are its parts. -/
theorem Model.walk_eq_of_parts {model : Model} {parts : Parts} (h : model.parts = .ok parts) :
    model.walk = parts.map .ok := by
  have hsteps := Result.mapM_eq_ok_iff.mp h
  rw [← List.forall₂_eq_eq_eq, List.forall₂_map_right_iff]
  exact hsteps

/-- A model in form has its parts. -/
theorem Model.Fits.exists_parts {terms : Terms} {model : Model} (h : model.Fits terms) :
    ∃ parts, model.parts = .ok parts := by
  refine Result.mapM_ok_of_forall fun step hstep => ?_
  obtain ⟨path, part, rfl, -⟩ := h.all_inForm step hstep
  exact ⟨(path, part), rfl⟩

section Resolving

variable {terms : Terms} {model : Model} (h : model.Fits terms)
  (hfresh : ∀ place link, terms.link place link → link.Fresh place)

include h hfresh

/-- The references of the model are as they are read. -/
theorem Model.Fits.fresh_of_mem {parts : Parts} (hparts : model.parts = .ok parts) :
    ∀ entry ∈ parts.references, ∃ place, entry.2.Fresh place := by
  intro entry hentry
  obtain ⟨place, hlink⟩ :=
    h.all_inForm.of_mem_parts hparts (Parts.mem_of_mem_references hentry)
  exact ⟨place, hfresh place _ hlink⟩

/-- Each reference has its answer, in order. -/
theorem Model.Fits.exists_referenceErrors {parts : Parts} (hparts : model.parts = .ok parts) :
    ∃ answers, model.referenceErrors = .ok (answers.filterMap id) ∧
      List.Forall₂ (fun entry answer => entry.2.Answer model.components entry.1 answer)
        parts.references answers := by
  have hfindings : model.findings = parts.references.map fun entry =>
      (entry.2.error? model.components entry.1).map fun error =>
        error.map fun error => error.diagnostic entry.2.location := by
    rw [Model.findings, Model.walk_eq_of_parts hparts, List.filterMap_map, Parts.references,
      List.map_filterMap]
    refine List.filterMap_congr fun entry _ => ?_
    rcases entry with ⟨path, part⟩
    cases part <;> rfl
  have hanswers : ∀ references : List (String × Reference),
      (∀ entry ∈ references, ∃ place, entry.2.Fresh place) →
      ∃ answers, (references.map fun entry => (entry.2.error? model.components entry.1).map fun error =>
          error.map fun error => error.diagnostic entry.2.location).mapM id = .ok answers ∧
        List.Forall₂ (fun entry answer => entry.2.Answer model.components entry.1 answer)
          references answers := by
    intro references
    induction references with
    | nil => exact fun _ => ⟨[], rfl, .nil⟩
    | cons entry rest ih =>
        intro hall
        obtain ⟨⟨place, hentry⟩, hrest⟩ := List.forall_mem_cons.mp hall
        obtain ⟨error, herror, hanswer⟩ := hentry.exists_error? model.components entry.1
        obtain ⟨answers, hanswers, hrelated⟩ := ih hrest
        refine ⟨_ :: answers, ?_, .cons hanswer hrelated⟩
        rw [List.map_cons, List.mapM_cons, hanswers, herror]
        rfl
  obtain ⟨answers, hfound, hrelated⟩ := hanswers parts.references (h.fresh_of_mem hfresh hparts)
  refine ⟨answers, ?_, hrelated⟩
  rw [Model.referenceErrors, hfindings, hfound]
  rfl

/-- Binding leaves the references bound where they stand, if at all. -/
theorem Model.Fits.bindReferences_settled :
    model.bindReferences.Fits
      (terms.withLink fun place link => link.Settled model.bindReferences.components place) :=
  h.mapReferences fun place link hlink =>
    (hfresh place link hlink).settled_bind (h.keys_bindReferences place)

omit hfresh in
/-- The components after binding are those before, with their references bound. -/
theorem Model.Fits.get?_bindReferences (place : Collection) (name : Datum) :
    model.bindReferences.components.get? place name =
      (model.components.get? place name).map
        (Part.mapReferences (m := Id) fun link => link.bind model.components) := by
  have hcomponents : model.bindReferences.components =
      model.components.mapReferences (m := Id) fun link => link.bind model.components := by
    rw [Model.bindReferences, h.mapReferences_id]
  rw [hcomponents, Components.get?, Components.entries_mapReferences, Part.mapRegistry,
    Datum.lookup_map]
  rfl

omit hfresh in
theorem Model.Fits.cycleDiagnostic_bindReferences (place : Collection) :
    model.bindReferences.components.cycleDiagnostic place = model.components.cycleDiagnostic place := by
  have hplace (part : Part) :
      (Part.mapReferences (m := Id) (fun link => link.bind model.components) part).place = part.place := by
    cases part with
    | reference link => exact Reference.location_bind model.components link
    | _ => rfl
  funext names
  rw [Components.cycleDiagnostic, Components.cycleDiagnostic, h.get?_bindReferences]
  cases model.components.get? place (.text (names.headD "")) with
  | none => rfl
  | some part => simp only [Option.map_some, Option.bind_some, hplace]

/-- The aliases that are bound are those that name another component. -/
theorem Model.Fits.follows_bindReferences (place : Collection) :
    model.bindReferences.components.Follows place = model.components.Alias place := by
  have hentry {name : Datum} {link : Reference}
      (hlink : model.components.get? place name = some (.reference link)) : link.Fresh place := by
    obtain ⟨key, -, hmem⟩ := Datum.mem_of_lookup_eq_some hlink
    exact hfresh place link (Part.isEntry_reference_iff.mp (h.components.entries place _ hmem))
  have hkeys := h.keys_bindReferences
  funext name following
  refine propext ⟨?_, ?_⟩
  · rintro ⟨bound, hbound, hright, hfollowing⟩
    rw [h.get?_bindReferences, Option.map_eq_some_iff] at hbound
    obtain ⟨part, hpart, hmapped⟩ := hbound
    cases part with
    | reference link =>
        obtain rfl := Part.reference.inj hmapped
        refine ⟨link, hpart, ?_⟩
        have hlink := hentry hpart
        have hisBound : (link.bind model.components).isBound = true := by
          simp [Reference.isBound, hright.binding]
        obtain ⟨found, other, hnames⟩ := hlink.isBound_bind_iff.mp hisBound
        obtain rfl := hlink.place_eq_of_names hnames
        have hname := Reference.name_bind model.components link
        obtain rfl := Datum.text.inj (hnames.named.symm.trans (hname.symm.trans hfollowing))
        exact hnames
    | _ => cases hmapped
  · rintro ⟨link, hlink, hnames⟩
    have hsettled := (hentry hlink).settled_bind (hkeys place)
    refine ⟨link.bind model.components, ?_, hsettled.resolve_left ?_, ?_⟩
    · rw [h.get?_bindReferences, hlink]
      rfl
    · have hisBound := (hentry hlink).isBound_bind_iff.mpr ⟨_, _, hnames⟩
      simpa [Reference.isBound] using hisBound
    · exact (Reference.name_bind model.components link).trans hnames.named

/-- The cycles of aliases are reported, each once. -/
theorem Model.Fits.exists_aliasErrors :
    ∃ cycles : Collection → List (List String),
      model.bindReferences.components.aliasErrors =
        .ok ([Collection.parameters, .requestBodies, .responses].flatMap fun place =>
          (cycles place).map (model.components.cycleDiagnostic place)) ∧
      ∀ place, ListsCycles (model.components.Alias place) (cycles place) := by
  have hbound := (h.bindReferences_settled hfresh).components
  have hbindings (place : Collection) : model.bindReferences.components.Bindings place := by
    rintro entry hentry link hlink
    have hpart := hbound.entries place entry hentry
    rw [hlink] at hpart
    exact Part.isEntry_reference_iff.mp hpart
  obtain ⟨cycles, hcycles, hlists⟩ := Components.exists_aliasErrors hbindings hbound.distinct
  simp only [h.cycleDiagnostic_bindReferences] at hcycles
  refine ⟨cycles, hcycles, fun place => ?_⟩
  rw [← h.follows_bindReferences hfresh]
  exact hlists place

/-- A reference that is not marked as recursive. -/
private def unmarkedReference (link : Reference) : Reference :=
  { link with recursive := .bool false }

/-- The references of the model after resolution, in order. -/
theorem Model.Fits.becomes {parts : Parts} (hparts : model.parts = .ok parts) {resolved : Model}
    (hresolved : resolved =
      { model.bindReferences with
        components := model.bindReferences.components.markCycles
        linked := model.bindReferences.components.markCycles }) :
    ∃ later, resolved.parts = .ok later ∧
      List.Forall₂ (fun before after => Reference.Becomes model.components before after)
        parts.references later.references := by
  have hbound := h.bindReferences_settled hfresh
  have hmarked := Components.marked_markCycles hbound.components
    (fun link key hlink hkey => Reference.Settled.key?_eq hlink hkey)
    (fun link hlink => Reference.Settled.recursive hlink)
  have hfits : resolved.Fits (terms.withLink fun place link =>
      link.Settled model.bindReferences.components place) := by
    rw [hresolved]
    exact { hbound with components := hmarked.fits }
  obtain ⟨later, hlater⟩ := hfits.exists_parts
  refine ⟨later, hlater, ?_⟩
  have hunmarked : resolved.walk.references.map (Prod.map id unmarkedReference) =
      model.bindReferences.walk.references.map (Prod.map id unmarkedReference) := by
    have hsame := model.bindReferences.components.sameUnmarked_markCycles
    rw [hfits.references_walk, hbound.references_walk, hresolved, List.map_append, List.map_append,
      List.map_flatMap, List.map_flatMap]
    refine congrArg _ (List.flatMap_congr fun place _ => ?_)
    rw [← Components.referencesIn_mapRegistry, ← Components.referencesIn_mapRegistry]
    exact congrArg _ (hsame place)
  have hbind : model.mapReferences (m := Id) (fun link => link.bind model.components) =
      model.bindReferences := rfl
  rw [h.references_mapReferences hbind hbound, ← Walk.references_of_mapM hlater,
    ← Walk.references_of_mapM hparts, List.map_map] at hunmarked
  have hpairs : List.Forall₂ (fun before after =>
      (∃ place, before.2.Fresh place) ∧
        Prod.map id unmarkedReference after =
          (Prod.map id unmarkedReference ∘ Prod.map id fun link => link.bind model.components) before)
      parts.references later.references := by
    rw [List.forall₂_and_left]
    refine ⟨h.fresh_of_mem hfresh hparts, ?_⟩
    have hforall := List.forall₂_eq_eq_eq ▸ hunmarked.symm
    rw [List.forall₂_map_left_iff, List.forall₂_map_right_iff] at hforall
    exact hforall.imp fun _ _ => Eq.symm
  refine hpairs.imp fun before after hpair => ?_
  obtain ⟨⟨place, hbefore⟩, hsame⟩ := hpair
  obtain ⟨hpath, hlink⟩ := Prod.ext_iff.mp hsame
  replace hlink : unmarkedReference after.2 = unmarkedReference (before.2.bind model.components) := hlink
  refine ⟨hpath, ?_, ?_⟩
  · calc { after.2 with binding := before.2.binding, recursive := before.2.recursive }
        = { unmarkedReference after.2 with
            binding := before.2.binding, recursive := before.2.recursive } := rfl
      _ = { before.2.bind model.components with
            binding := before.2.binding, recursive := before.2.recursive } := by rw [hlink]; rfl
      _ = before.2 := Reference.bind_same model.components before.2
  · have hbinding := congrArg Reference.isBound hlink
    rw [← hbefore.isBound_bind_iff]
    exact Eq.congr_left hbinding

/-- Resolving the model reports what its references and aliases call for. -/
theorem Model.Fits.exists_reports :
    ∃ resolved parts later answers cycles, model.Reports resolved parts later answers cycles := by
  obtain ⟨parts, hparts⟩ := h.exists_parts
  obtain ⟨answers, herrors, hanswers⟩ := h.exists_referenceErrors hfresh hparts
  obtain ⟨cycles, hcycles, hlists⟩ := h.exists_aliasErrors hfresh
  obtain ⟨later, hlater, hbecomes⟩ := h.becomes hfresh hparts rfl
  exact ⟨_, parts, later, answers, cycles,
    { parts_eq := hparts
      later_eq := hlater
      resolve_eq := by simp only [Model.resolve, herrors, hcycles]
      answered := hanswers
      becomes := hbecomes
      listsCycles := hlists }⟩

end Resolving

/-- Resolving a model that units are built into comes to an end. It reports, in the order of the walk,
one diagnostic for each reference that is broken, and none for one that is a marker or is bound; then one
for each cycle of the aliases of parameters, of bodies and of responses. -/
theorem Build.resolve_reports {units : List Annotation.AnnotatedUnit} {context : Build.Context}
    (h : Build.build units = .ok context) :
    ∃ resolved parts later answers cycles,
      context.model.Reports resolved parts later answers cycles := by
  have hleaves : ∀ unit ∈ units, unit.Leaves Terms.any.leaf :=
    fun unit _ => unit.leaves_of_forall _ fun _ _ => trivial
  have hsound : context.Sound Terms.any [] := Build.sound_of_build (fun _ _ hfresh => hfresh) hleaves h
  exact hsound.fits.exists_reports fun _ _ hlink => hlink

namespace Aliases

/-- A source with an alias that leads into a cycle of two others, an alias of itself, and references to
a component that is missing, into another collection and into one that there is not. -/
def units : List Annotation.AnnotatedUnit :=
  [{ identity := "pets", fingerprint := "", blocks := [
      { symbol := .ofFile "pets", nodes := [
          Pets.node "PathParameter" [("parameter", "Tail"), ("ref", "Second")] [],
          Pets.node "PathParameter" [("parameter", "First"), ("ref", "Second")] [],
          Pets.node "PathParameter" [("parameter", "Second"), ("ref", "First")] [],
          Pets.node "PathParameter" [("parameter", "Self"), ("ref", "Self")] [],
          Pets.node "PathParameter" [("parameter", "Lost"), ("ref", "Missing")] [],
          Pets.node "PathParameter" [("parameter", "Astray"), ("ref", "#/components/schemas/Pet")] [],
          Pets.node "PathParameter" [("parameter", "Odd"), ("ref", "#/components/links/Pet")] []] }] }]

/-- What the source is built into. -/
def context : Build.Context :=
  (Build.build units).toOption.getD {}

theorem build_eq : Build.build units = .ok context := by
  have h : (Build.build units).isOk = true := by decide +kernel
  rw [context]
  cases hbuild : Build.build units with
  | error error => rw [hbuild] at h; cases h
  | ok found => rfl

end Aliases

/-- A model with three broken references and two cycles of aliases. -/
theorem Build.resolve_reports_aliases :
    Build.build Aliases.units = .ok Aliases.context ∧ ∃ resolved parts later answers cycles,
      Aliases.context.model.Reports resolved parts later answers cycles :=
  ⟨Aliases.build_eq, Build.resolve_reports Aliases.build_eq⟩

/-- The cycle of two is reported once, from where the alias that leads into it enters it. -/
example : (Aliases.context.model.resolve.2.toOption.getD []).map (·.message) =
    ["dangling reference #/components/parameters/Missing at components.parameters.Lost",
      "reference #/components/schemas/Pet at components.parameters.Astray points into schemas, " ++
        "expected parameters",
      "reference #/components/links/Pet at components.parameters.Odd names unknown collection 'links'",
      "parameters aliases form a cycle: Second -> First -> Second",
      "parameters aliases form a cycle: Self -> Self"] := by
  decide +kernel

end DocCompiler
