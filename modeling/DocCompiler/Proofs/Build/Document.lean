import DocCompiler.Build.Document
import DocCompiler.Proofs.Data.Sorted
import DocCompiler.Proofs.Build.Declaration

/-!
The order in which units come in does not matter for what is built from them, and neither does where the
properties of fields stand among the other annotations of their unit. Whatever units are built from, the model is
in form: a run keeps what every annotation keeps.
-/

namespace DocCompiler.Build

section Order

open Annotation

/-- The order in which units are gone through. -/
def identityLe (a b : AnnotatedUnit) : Bool :=
  decide (a.identity ≤ b.identity)

/-- The top-level annotations of a unit, each with the declaration it belongs to. -/
def placedIn (unit : AnnotatedUnit) : List Placed :=
  unit.blocks.flatMap fun block => block.nodes.map fun node => ⟨unit.identity, block.symbol, node⟩

/-- A unit whose annotations are those of another one. The properties of fields may stand elsewhere
among them, but all properties are in the order of the other unit, and so is everything else. -/
structure Rearranged (unit other : AnnotatedUnit) : Prop where
  identity : other.identity = unit.identity
  properties : (placedIn other).filter (·.isProperty) = (placedIn unit).filter (·.isProperty)
  others : (placedIn other).filter (!·.isProperty) = (placedIn unit).filter (!·.isProperty)

theorem placedNodes_eq (units : List AnnotatedUnit) :
    placedNodes units = (units.mergeSort identityLe).flatMap placedIn :=
  rfl

/-- Units with distinct identities have one order. -/
theorem mergeSort_eq_of_perm {units others : List AnnotatedUnit} (hperm : others.Perm units)
    (hdistinct : (units.map (·.identity)).Nodup) :
    others.mergeSort identityLe = units.mergeSort identityLe :=
  Keyed.mergeSort_eq_of_perm hperm hdistinct

/-- Units that correspond to each other correspond when they are in order, too. -/
theorem forall₂_mergeSort {units others : List AnnotatedUnit}
    (h : List.Forall₂ Rearranged units others) :
    List.Forall₂ Rearranged (units.mergeSort identityLe) (others.mergeSort identityLe) := by
  have hlength := h.length_eq
  let pairs := units.zip others
  let pairLe (a b : AnnotatedUnit × AnnotatedUnit) : Bool := identityLe a.1 b.1
  have hpairs : ∀ pair ∈ pairs, Rearranged pair.1 pair.2 := fun _ hpair => (List.forall₂_zip h) hpair
  have hunits : (pairs.mergeSort pairLe).map Prod.fst = units.mergeSort identityLe := by
    rw [List.map_mergeSort (s := identityLe) fun _ _ _ _ => rfl, List.map_fst_zip (Nat.le_of_eq hlength)]
  have hothers : (pairs.mergeSort pairLe).map Prod.snd = others.mergeSort identityLe := by
    rw [List.map_mergeSort (s := identityLe) fun a ha b hb => ?_,
      List.map_snd_zip (Nat.le_of_eq hlength.symm)]
    simp only [pairLe, identityLe, (hpairs a ha).identity, (hpairs b hb).identity]
  rw [← hunits, ← hothers, List.forall₂_map_left_iff, List.forall₂_map_right_iff, List.forall₂_same]
  exact fun pair hpair => hpairs pair (List.mem_mergeSort.mp hpair)

/-- What a test admits of the annotations of units is that of the units that correspond to them. -/
theorem filter_flatMap_placedIn {units others : List AnnotatedUnit} {test : Placed → Bool}
    (h : List.Forall₂ (fun unit other => (placedIn other).filter test = (placedIn unit).filter test)
      units others) :
    (others.flatMap placedIn).filter test = (units.flatMap placedIn).filter test := by
  induction h with
  | nil => rfl
  | cons hfirst _ ih =>
      simp only [List.flatMap_cons, List.filter_append, hfirst, ih]

/-- Units with distinct identities come to the same document, whatever order they come in and wherever
the properties of fields stand among the other annotations of a unit. -/
theorem build_eq_of_rearranged {units moved others : List AnnotatedUnit}
    (hdistinct : (units.map (·.identity)).Nodup) (hmoved : List.Forall₂ Rearranged units moved)
    (hperm : others.Perm moved) : build others = build units := by
  have hidentities : moved.map (·.identity) = units.map (·.identity) := by
    have hsame : List.Forall₂ (· = ·) (moved.map (·.identity)) (units.map (·.identity)) := by
      rw [List.forall₂_map_left_iff, List.forall₂_map_right_iff]
      exact hmoved.flip.imp fun _ _ h => h.identity
    exact List.forall₂_eq_eq_eq ▸ hsame
  have hsorted : others.mergeSort identityLe = moved.mergeSort identityLe :=
    mergeSort_eq_of_perm hperm (hidentities ▸ hdistinct)
  have hunits := forall₂_mergeSort hmoved
  have hproperties : (placedNodes others).filter (·.isProperty) =
      (placedNodes units).filter (·.isProperty) := by
    rw [placedNodes_eq, placedNodes_eq, hsorted]
    exact filter_flatMap_placedIn (hunits.imp fun _ _ h => h.properties)
  have hothers : (placedNodes others).filter (!·.isProperty) =
      (placedNodes units).filter (!·.isProperty) := by
    rw [placedNodes_eq, placedNodes_eq, hsorted]
    exact filter_flatMap_placedIn (hunits.imp fun _ _ h => h.others)
  simp only [build, hproperties, hothers]

/-- A unit that comes first, and a property that comes before the schema it belongs to. -/
theorem build_eq_of_rearranged_pet :
    let type : Symbol := { kind := .type, name := .text "Pet", qualifiedName := .text "Pet" }
    let field : Symbol :=
      { kind := .field, name := .text "name", qualifiedName := .text "Pet.name", parent := .text "Pet" }
    let schema : AnnotatedBlock := ⟨type, [⟨.text "Schema", [], [], 1, 1⟩]⟩
    let property : AnnotatedBlock := ⟨field, [⟨.text "Property", [], [], 2, 1⟩]⟩
    let pet (blocks : List AnnotatedBlock) : AnnotatedUnit :=
      { identity := "pet.php", fingerprint := "", blocks }
    let api : AnnotatedUnit :=
      { identity := "api.php", fingerprint := ""
        blocks := [⟨.ofFile "api.php", [⟨.text "Server", [(.text "url", .string "/")], [], 1, 1⟩]⟩] }
    let units := [api, pet [schema, property]]
    let moved := [api, pet [property, schema]]
    let others := [pet [property, schema], api]
    ((units.map (·.identity)).Nodup ∧ List.Forall₂ Rearranged units moved ∧ others.Perm moved) ∧
      build others = build units := by
  intro type field schema property pet api units moved others
  have hdistinct : (units.map (·.identity)).Nodup := by
    decide
  have hmoved : List.Forall₂ Rearranged units moved :=
    .cons ⟨rfl, rfl, rfl⟩ (.cons ⟨rfl, rfl, rfl⟩ .nil)
  have hperm : others.Perm moved := List.Perm.swap _ _ _
  exact ⟨⟨hdistinct, hmoved, hperm⟩, build_eq_of_rearranged hdistinct hmoved hperm⟩

end Order

open Annotation

variable {terms : Terms} {reported : List Diagnostic}

/-- A placed annotation whose leaves are admitted, as are the names of its declaration. -/
structure Placed.Leaves (admits : LeafKind → Datum → Prop) (placed : Placed) : Prop where
  name : admits .string placed.symbol.name
  qualifiedName : admits .string placed.symbol.qualifiedName
  node : placed.node.Leaves admits

theorem leaves_of_mem_placedNodes {admits : LeafKind → Datum → Prop} {units : List AnnotatedUnit}
    (h : ∀ unit ∈ units, unit.Leaves admits) {placed : Placed} (hplaced : placed ∈ placedNodes units) :
    placed.Leaves admits := by
  obtain ⟨unit, hunit, hplaced⟩ := List.mem_flatMap.mp hplaced
  obtain ⟨block, hblock, hplaced⟩ := List.mem_flatMap.mp hplaced
  obtain ⟨node, hnode, rfl⟩ := List.mem_map.mp hplaced
  have hleaves := h unit (List.mem_mergeSort.mp hunit) block hblock
  exact ⟨hleaves.name, hleaves.qualifiedName, hleaves.nodes node hnode⟩

/-- Building starts with a model in form. -/
theorem Context.sound_default (terms : Terms) : Context.Sound terms [] {} where
  fits :=
    { info := by
        refine ⟨⟨?_, ?_, ?_, ?_⟩, by simp, by simp⟩ <;> exact Terms.given_null _
      servers := by simp
      tags := by simp
      endpoints := by simp
      distinctMethods := by simp
      distinctPaths := by simp
      distinctTags := by simp
      components :=
        { distinct := fun collection => by cases collection <;> exact List.Pairwise.nil
          named := fun collection => by cases collection <;> simp [Components.entries]
          entries := fun collection => by cases collection <;> simp [Components.entries]
          schemes := by simp
          distinctSchemes := List.Pairwise.nil
          namedSchemes := by simp } }
  claimed := by simp [Model.serverUrls]
  distinct := by simp [Model.serverUrls]
  reports := List.nil_subset _

section Links

variable (hfresh : ∀ place link, Reference.Fresh place link → terms.link place link)

include hfresh

theorem keeps_handler {tag : String} {handler : String → Symbol → Node → Step Unit}
    (hhandler : handler? tag = some handler) {placed : Placed} (htag : placed.node.tag.display = tag)
    (h : placed.Leaves terms.leaf) :
    Keeps (Context.Sound terms reported) (handler placed.unit placed.symbol placed.node) := by
  unfold handler? at hhandler
  split at hhandler
  · cases hhandler
    exact keeps_info h.node
  · cases hhandler
    exact keeps_contact h.node
  · cases hhandler
    exact keeps_license h.node
  · cases hhandler
    exact keeps_server h.node
  · cases hhandler
    exact keeps_apiTag h.node
  · cases hhandler
    exact keeps_schemaComponent hfresh h.node h.name
  · cases hhandler
    exact keeps_requestBodyComponent hfresh h.node
  · cases hhandler
    exact keeps_responseComponent hfresh h.node
  · cases hhandler
    exact keeps_securitySchemeComponent h.node
  · split_ifs at hhandler with hmethod
    · cases hhandler
      exact keeps_operation hfresh h.node h.qualifiedName (by simpa [htag] using hmethod)
    · cases hhandler
      exact keeps_parameterComponent hfresh h.node

theorem keeps_declare {placed : Placed} (h : placed.Leaves terms.leaf) :
    Keeps (Context.Sound terms reported) (declare placed) := by
  refine Keeps.look_bind fun _ _ => ?_
  split
  · rename_i handler hfound
    obtain ⟨tag, htag, hhandler⟩ := Option.bind_eq_some_iff.mp hfound
    refine keeps_handler hfresh hhandler ?_ h
    cases hnode : placed.node.tag <;> simp_all [Datum.text?, Datum.display]
  · exact Keeps.throw _

/-- The model that is built from units is in form. -/
theorem sound_of_build {units : List AnnotatedUnit} (h : ∀ unit ∈ units, unit.Leaves terms.leaf)
    {context : Context} (hbuild : build units = .ok context) : context.Sound terms [] := by
  obtain ⟨between, hdeclared, hproperties⟩ := Result.bind_eq_ok_iff.mp hbuild
  have hplaced : ∀ placed ∈ placedNodes units, placed.Leaves terms.leaf :=
    fun _ hmem => leaves_of_mem_placedNodes h hmem
  have hbetween : between.Sound terms [] := by
    refine Result.of_foldlM_eq_ok (fun placed hmem before after hsound hfold => ?_)
      (Context.sound_default terms) hdeclared
    exact (keeps_declare hfresh (hplaced placed (List.mem_filter.mp hmem).1)).of_guarded
      (fun _ _ hsound => hsound.warn _) hsound hfold
  refine Result.of_foldlM_eq_ok (fun placed hmem before after hsound hfold => ?_) hbetween hproperties
  have hleaves := hplaced placed (List.mem_filter.mp hmem).1
  exact (keeps_fieldProperty hfresh hleaves.node hleaves.name).of_guarded
    (fun _ _ hsound => hsound.warn _) hsound hfold

end Links

end DocCompiler.Build
