import Mathlib.Data.List.Perm.Basic
import DocCompiler.Build.Declaration
import DocCompiler.Proofs.Data.Registry
import DocCompiler.Proofs.Document.Change

/-!
What a model holds, counted: operations, servers, tags and components, each under what it is claimed
by. What changes a model adds one of them, if nothing stands under the claim.
-/

namespace DocCompiler

open Build (Claim)

/-- What is counted in a model. -/
inductive EntryKind
  | operation
  | server
  | tag
  | component (collection : Collection)
  | securityScheme
  deriving DecidableEq

/-- What a model holds of a kind, with what it is claimed by. -/
def Model.holdings (model : Model) : EntryKind → List (Claim × Part)
  | .operation =>
      model.paths.flatMap fun path =>
        path.2.map fun found => (.operation path.1 found.1.display, found.2.part)
  | .server => model.servers.map fun server => (.server (server.url?.elim "" Datum.display), server)
  | .tag => model.tags.map fun entry => (.tag entry.1, entry.2)
  | .component collection =>
      (model.components.entries collection).map fun entry =>
        (.component collection.name entry.1, entry.2)
  | .securityScheme =>
      model.components.securitySchemes.map fun entry =>
        (.component "securitySchemes" entry.1, entry.2)

theorem Model.holdings_withInfo (model : Model) (info : Part) (kind : EntryKind) :
    Model.holdings { model with info } kind = model.holdings kind := by
  cases kind <;> rfl

theorem Model.holdings_default (kind : EntryKind) : ({} : Model).holdings kind = [] := by
  cases kind with
  | component collection => cases collection <;> rfl
  | _ => rfl

/-- A model holds nothing of a kind under a claim. -/
def Model.Vacant (model : Model) (kind : EntryKind) (key : Claim) : Prop :=
  ∀ entry ∈ model.holdings kind, entry.1.same key = false

/-- A model that holds one part more, of a kind and under a claim. -/
structure Model.Gains (model changed : Model) (kind : EntryKind) (key : Claim) (part : Part) : Prop where
  frozen : changed.frozen = model.frozen
  gained : (changed.holdings kind).Perm ((key, part) :: model.holdings kind)
  others : ∀ other, other ≠ kind → changed.holdings other = model.holdings other

/-- A schema that has one property more, under a new name. -/
def Part.GainsProperty (part later : Part) : Prop :=
  ∃ facets properties items name property, part = .schema facets properties items ∧
    Datum.lookup name properties = none ∧ later = Build.withProperty name property part

/-- A model in which one of the schemas has one property more. -/
def Model.GainsProperty (model changed : Model) : Prop :=
  ∃ front entry back later, model.components.schemas = front ++ entry :: back ∧
    entry.2.GainsProperty later ∧
    changed =
      { model with
        components := { model.components with schemas := front ++ (entry.1, later) :: back } }

/-- The properties that a schema declares itself. -/
def Part.ownProperties : Part → Registry
  | .schema _ properties _ => properties
  | _ => []

/-- The number of properties of the schemas among the components. -/
def Model.propertyCount (model : Model) : Nat :=
  (model.components.schemas.flatMap fun entry => entry.2.ownProperties).length

namespace OrderedMap

variable {α β : Type}

theorem put_of_notMem {map : OrderedMap α} {name : String} {value : α} (h : name ∉ map.names) :
    map.put name value = map ++ [(name, value)] := by
  induction map with
  | nil => rfl
  | cons entry rest ih =>
      obtain ⟨found, old⟩ := entry
      simp only [names, List.map_cons, List.mem_cons, not_or] at h
      have hfound : ¬ (found == name) = true := fun hsame => h.1 (beq_iff_eq.mp hsame).symm
      rw [put, if_neg hfound, ih h.2, List.cons_append]

/-- What stands under a name may be spread over a list. If putting a value adds one item under its
name, then it adds one item in all. -/
theorem flatMap_put {map : OrderedMap α} {name : String} {value : α} {item : β}
    {spread : String × α → List β}
    (h : (spread (name, value)).Perm (item :: (map.get? name).elim [] fun old => spread (name, old))) :
    ((map.put name value).flatMap spread).Perm (item :: map.flatMap spread) := by
  induction map with
  | nil => simpa [put, get?] using h
  | cons entry rest ih =>
      obtain ⟨found, old⟩ := entry
      by_cases hfound : found = name
      · subst hfound
        have hget : OrderedMap.get? ((found, old) :: rest) found = some old := by
          simp [get?]
        rw [hget] at h
        simpa [put] using h.append_right (rest.flatMap spread)
      · have hget : OrderedMap.get? ((found, old) :: rest) name = OrderedMap.get? rest name := by
          simp [get?, List.lookup_cons, beq_eq_false_iff_ne.mpr (Ne.symm hfound)]
        rw [hget] at h
        have hput : OrderedMap.put name value ((found, old) :: rest) =
            (found, old) :: OrderedMap.put name value rest := by
          simp [put, hfound]
        rw [hput, List.flatMap_cons, List.flatMap_cons]
        exact ((ih h).append_left _).trans List.perm_middle

end OrderedMap

theorem Datum.insertEntry_of_lookup_eq_some {α : Type} {key : Datum} {found : α}
    {entries : List (Datum × α)} (h : lookup key entries = some found) :
    ∃ front given back, entries = front ++ (given, found) :: back ∧
      ∀ value, insertEntry key value entries = front ++ (given, value) :: back := by
  induction entries with
  | nil => cases h
  | cons entry rest ih =>
      obtain ⟨given, old⟩ := entry
      by_cases hsame : given.sameKey key = true
      · obtain rfl : old = found := by simpa [lookup, hsame] using h
        exact ⟨[], given, rest, rfl, fun value => by simp [insertEntry, hsame]⟩
      · obtain ⟨front, other, back, rfl, hinsert⟩ := ih (by simpa [lookup, hsame] using h)
        exact ⟨(given, old) :: front, other, back, rfl, fun value => by
          simp [insertEntry, hsame, hinsert]⟩

namespace Model

variable {model : Model} (hfrozen : model.frozen = false)

include hfrozen

theorem gains_addServer {server : Server} :
    model.Gains (model.addServer (.server server)).1 .server (.server server.url.display)
      (.server server) := by
  have hchanged : (model.addServer (.server server)).1 =
      { model with servers := model.servers ++ [.server server] } := by
    simp [addServer, change, hfrozen]
  rw [hchanged]
  refine ⟨rfl, ?_, fun other hother => ?_⟩
  · simp [holdings, Part.url?]
  · cases other with
    | server => exact absurd rfl hother
    | _ => rfl

theorem gains_addTag {tag : ApiTag} (hvacant : model.Vacant .tag (.tag tag.name.display)) :
    model.Gains (model.addTag (.tag tag)).1 .tag (.tag tag.name.display) (.tag tag) := by
  have hchanged : (model.addTag (.tag tag)).1 =
      { model with tags := model.tags ++ [(tag.name.display, .tag tag)] } := by
    have hnew : tag.name.display ∉ model.tags.names := by
      intro hmem
      obtain ⟨entry, hentry, hname⟩ := List.mem_map.mp hmem
      have hsame := hvacant (.tag entry.1, entry.2) (List.mem_map_of_mem hentry)
      simp [Claim.same, hname] at hsame
    simp [addTag, change, hfrozen, Part.name?, OrderedMap.put_of_notMem hnew]
  rw [hchanged]
  refine ⟨rfl, ?_, fun other hother => ?_⟩
  · simp [holdings]
  · cases other with
    | tag => exact absurd rfl hother
    | _ => rfl

theorem gains_addOperation {operation : Operation} {method : String}
    (hmethod : operation.method = .text method)
    (hvacant : model.Vacant .operation (.operation operation.path.display method))
    {parameters : List Part} {body : Option Part} {responses : Registry} :
    model.Gains (model.addOperation (.operation operation parameters body responses)).1 .operation
      (.operation operation.path.display method) (.operation operation parameters body responses) := by
  let endpoint : Endpoint := { operation, parameters, body, responses }
  let methods := (model.paths.get? operation.path.display).getD []
  have hnew : Datum.lookup (.text method) methods = none := by
    rw [Datum.lookup_eq_none_iff]
    intro found hfound
    rw [← Bool.not_eq_true, Datum.sameKey_text]
    intro hkey
    cases hget : model.paths.get? operation.path.display with
    | none => simp [methods, hget] at hfound
    | some old =>
        have hold : found ∈ old := by simpa [methods, hget] using hfound
        have hheld : (.operation operation.path.display found.1.display, found.2.part) ∈
            model.holdings .operation :=
          List.mem_flatMap.mpr ⟨_, OrderedMap.mem_of_get? hget, List.mem_map_of_mem hold⟩
        simpa [Claim.same, hkey, Datum.display] using hvacant _ hheld
  have hchanged : (model.addOperation (.operation operation parameters body responses)).1 =
      { model with
        paths := model.paths.put operation.path.display (methods ++ [(.text method, endpoint)]) } := by
    rw [← Datum.insertEntry_of_lookup_eq_none hnew]
    simp [addOperation, Part.endpoint?, putEndpoint, change, hfrozen, hmethod, Datum.isHashable,
      methods, endpoint]
  rw [hchanged]
  have hdisplay : (Datum.text method).display = method := rfl
  refine ⟨rfl, OrderedMap.flatMap_put ?_, fun other hother => ?_⟩
  · cases hget : model.paths.get? operation.path.display with
    | none => simp [methods, hget, hdisplay, Endpoint.part, endpoint]
    | some old =>
        simp only [methods, hget, Option.getD_some, List.map_append, Option.elim_some]
        exact List.perm_append_singleton _ _
  · cases other with
    | operation => exact absurd rfl hother
    | _ => rfl

theorem gains_register {collection : Collection} {name : Datum} (hname : name.isHashable = true)
    (hvacant : model.Vacant (.component collection) (.component collection.name name))
    {component : Part} :
    model.Gains (model.register collection name component).1 (.component collection)
      (.component collection.name name) component := by
  have hnew : Datum.lookup name (model.components.entries collection) = none := by
    rw [Datum.lookup_eq_none_iff]
    intro entry hentry
    have hsame := hvacant (.component collection.name entry.1, entry.2) (List.mem_map_of_mem hentry)
    simpa [Claim.same] using hsame
  have hchanged : (model.register collection name component).1 =
      { model with components := model.components.put collection name component } := by
    simp [register, change, hfrozen, hname]
  rw [hchanged]
  refine ⟨rfl, ?_, fun other hother => ?_⟩
  · simp only [holdings, Components.entries_put, if_true, Datum.insertEntry_of_lookup_eq_none hnew,
      List.map_append]
    exact List.perm_append_singleton _ _
  · cases other with
    | component place =>
        have hplace : collection ≠ place := fun heq => hother (heq ▸ rfl)
        simp only [holdings, Components.entries_put, if_neg hplace]
    | securityScheme => simp only [holdings, Components.securitySchemes_put]
    | _ => rfl

theorem gains_registerScheme {name : Datum} (hname : name.isHashable = true)
    (hvacant : model.Vacant .securityScheme (.component "securitySchemes" name)) {scheme : Part} :
    model.Gains (model.registerScheme name scheme).1 .securityScheme
      (.component "securitySchemes" name) scheme := by
  have hnew : Datum.lookup name model.components.securitySchemes = none := by
    rw [Datum.lookup_eq_none_iff]
    intro entry hentry
    have hsame := hvacant (.component "securitySchemes" entry.1, entry.2) (List.mem_map_of_mem hentry)
    simpa [Claim.same] using hsame
  have hchanged : (model.registerScheme name scheme).1 =
      { model with
        components :=
          { model.components with
            securitySchemes := model.components.securitySchemes ++ [(name, scheme)] } } := by
    simp [registerScheme, change, hfrozen, hname, Datum.insertEntry_of_lookup_eq_none hnew]
  rw [hchanged]
  refine ⟨rfl, ?_, fun other hother => ?_⟩
  · simp [holdings]
  · cases other with
    | component place => cases place <;> rfl
    | securityScheme => exact absurd rfl hother
    | _ => rfl

/-- A property under a new name is added to a schema. -/
theorem gainsProperty_addProperty {owner name : Datum} {facets : Facets} {properties : Registry}
    {items : Option Part}
    (hget : model.components.get? .schemas owner = some (.schema facets properties items))
    (hnew : Datum.lookup name properties = none) (property : Part) :
    model.GainsProperty (Build.addProperty owner name property model).1 := by
  obtain ⟨front, given, back, hentries, hinsert⟩ := Datum.insertEntry_of_lookup_eq_some hget
  have hname : owner.isHashable = true := by
    obtain ⟨given, hgiven, -⟩ := Datum.mem_of_lookup_eq_some hget
    exact Datum.isHashable_of_sameKey hgiven
  refine ⟨front, _, back, _, hentries,
    ⟨facets, properties, items, name, property, rfl, hnew, rfl⟩, ?_⟩
  simp only [Build.addProperty, hget, register, change, hfrozen, hname, Bool.false_eq_true, if_false,
    if_true]
  rw [← hinsert]
  rfl

end Model

namespace Model.GainsProperty

variable {model changed : Model} (h : model.GainsProperty changed)

include h

theorem frozen : changed.frozen = model.frozen := by
  obtain ⟨_, _, _, _, -, -, rfl⟩ := h
  rfl

theorem propertyCount : changed.propertyCount = model.propertyCount + 1 := by
  obtain ⟨front, entry, back, later, hschemas,
    ⟨facets, properties, items, name, property, hpart, hnew, rfl⟩, rfl⟩ := h
  have hproperties : (Build.withProperty name property entry.2).ownProperties =
      entry.2.ownProperties ++ [(name, property)] := by
    rw [hpart, Build.withProperty, Datum.insertEntry_of_lookup_eq_none hnew]
    rfl
  simp only [Model.propertyCount, hschemas, List.flatMap_append, List.flatMap_cons, List.length_append,
    hproperties, List.length_singleton]
  omega

/-- Nothing that is held is replaced by something else. -/
theorem holdings (kind : EntryKind) :
    List.Forall₂ (fun old new => new.1 = old.1 ∧ (new.2 = old.2 ∨
        kind = .component .schemas ∧ old.2.GainsProperty new.2))
      (model.holdings kind) (changed.holdings kind) := by
  obtain ⟨front, entry, back, later, hschemas, hgains, rfl⟩ := h
  have hsame (entries : List (Claim × Part)) :
      List.Forall₂ (fun old new => new.1 = old.1 ∧ (new.2 = old.2 ∨
        kind = .component .schemas ∧ old.2.GainsProperty new.2)) entries entries :=
    List.forall₂_same.mpr fun _ _ => ⟨rfl, .inl rfl⟩
  cases kind with
  | component collection =>
      cases collection with
      | schemas =>
          rw [Model.holdings, Components.entries, hschemas]
          change List.Forall₂ _ _ ((front ++ (entry.1, later) :: back).map _)
          rw [List.map_append, List.map_append, List.map_cons, List.map_cons]
          refine List.rel_append (hsame _) (.cons ?_ (hsame _))
          exact ⟨rfl, .inr ⟨rfl, hgains⟩⟩
      | _ => exact hsame _
  | _ => exact hsame _

end Model.GainsProperty

end DocCompiler
