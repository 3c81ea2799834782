import DocCompiler.Document.Resolve
import DocCompiler.Proofs.Data.Registry
import DocCompiler.Proofs.Document.Replace
import Mathlib.Logic.Relation

/-!
The schemas of a model as a graph. A node is a place where a schema or a reference to one stands: it is
given by a component or another place for schemas, and by the steps that lead from there to schemas nested
in it. Edges lead to properties, to items and to what references are bound to.
-/

namespace DocCompiler

/-- A step from a schema to one nested in it. -/
inductive SchemaStep
  | property (index : Nat)
  | items
  deriving DecidableEq, Repr

/-- Where steps through schemas start: at a component, or at one of the other places for schemas. -/
inductive SchemaRoot
  | component (name : Datum)
  | place (index : Nat)

/-- A place in the schemas of a model. The last step comes first. -/
structure SchemaNode where
  root : SchemaRoot
  path : List SchemaStep := []

/-- The node of a component. -/
abbrev SchemaNode.component (name : Datum) : SchemaNode :=
  { root := .component name }

/-- The node one step further. -/
def SchemaNode.inner (node : SchemaNode) (step : SchemaStep) : SchemaNode :=
  { node with path := step :: node.path }

namespace Part

/-- The schema that a step leads to. -/
def inner? (part : Part) (step : SchemaStep) : Option Part :=
  match step, part with
  | .property index, .schema _ properties _ => properties[index]?.map (·.2)
  | .items, .schema _ _ items => items
  | _, _ => none

mutual

/-- The references that stand in a schema. -/
def links : Part → List Reference
  | .reference link => [link]
  | .schema _ properties items => propertyLinks properties ++ itemLinks items
  | _ => []

/-- The references that stand in properties. -/
def propertyLinks : Registry → List Reference
  | [] => []
  | (_, part) :: rest => links part ++ propertyLinks rest

/-- The references that stand in the schema of items. -/
def itemLinks : Option Part → List Reference
  | none => []
  | some part => links part

end

/-- The schema of a media type. -/
def mediaSchemas : Part → List Part
  | .mediaType _ inner => inner.toList
  | _ => []

/-- The schemas that a parameter, a body or a response holds. -/
def heldSchemas : Part → List Part
  | .parameter _ inner => inner.toList
  | .requestBody _ content | .response _ content => content.flatMap fun entry => entry.2.mediaSchemas
  | _ => []

/-- A part with no reference in it marked as recursive. -/
def unmarked (part : Part) : Part :=
  part.mapReferences (m := Id) fun link => { link with recursive := .bool false }

end Part

/-- The schemas that the parts of an operation hold. -/
def Endpoint.heldSchemas (endpoint : Endpoint) : List Part :=
  endpoint.parameters.flatMap Part.heldSchemas ++ endpoint.body.toList.flatMap Part.heldSchemas ++
    endpoint.responses.flatMap fun entry => entry.2.heldSchemas

/-- The schemas that stand elsewhere than among the components: in parameters, bodies and responses, of
operations and named ones. -/
def Model.heldSchemas (model : Model) : List Part :=
  model.endpoints.flatMap Endpoint.heldSchemas ++
    [Collection.parameters, .requestBodies, .responses].flatMap fun collection =>
      (model.components.entries collection).flatMap fun entry => entry.2.heldSchemas

namespace Model

/-- What stands where steps through schemas start. -/
def rootSchema? (model : Model) : SchemaRoot → Option Part
  | .component name => model.components.get? .schemas name
  | .place index => model.heldSchemas[index]?

/-- What stands at the end of a path. -/
def schemaAlong? (model : Model) (root : SchemaRoot) : List SchemaStep → Option Part
  | [] => model.rootSchema? root
  | step :: path => (model.schemaAlong? root path).bind (·.inner? step)

/-- What stands at a node. -/
def schemaAt? (model : Model) (node : SchemaNode) : Option Part :=
  model.schemaAlong? node.root node.path

/-- An edge of the graph: to a schema nested in the one at a node, or from a reference to the component
that it is bound to, if the reference is one of those that are followed. -/
inductive Follows (model : Model) (followed : Reference → Prop) : SchemaNode → SchemaNode → Prop
  | inner {node : SchemaNode} {step : SchemaStep} (h : (model.schemaAt? (node.inner step)).isSome) :
      Follows model followed node (node.inner step)
  | target {node : SchemaNode} {link : Reference} {name : Datum}
      (hlink : model.schemaAt? node = some (.reference link)) (hfollowed : followed link)
      (hkey : link.key? = some (.schemas, name))
      (htarget : (model.schemaAt? (.component name)).isSome) :
      Follows model followed node (.component name)

end Model

/-- What a schema of the components refers to: one component leads to another. -/
def Components.Refers (components : Components) (source target : ComponentKey) : Prop :=
  ∃ part, components.get? source.1 source.2 = some part ∧
    ∃ link ∈ part.links, link.key? = some target

namespace Part

section Links

variable {link : Reference} {facets : Facets} {properties : Registry} {items : Option Part}

theorem mem_propertyLinks :
    link ∈ propertyLinks properties ↔ ∃ entry ∈ properties, link ∈ entry.2.links := by
  induction properties with
  | nil => simp [propertyLinks]
  | cons entry rest ih => simp [propertyLinks, ih]

theorem mem_itemLinks : link ∈ itemLinks items ↔ ∃ part ∈ items, link ∈ part.links := by
  cases items <;> simp [itemLinks]

theorem mem_links_schema :
    link ∈ (Part.schema facets properties items).links ↔
      (∃ entry ∈ properties, link ∈ entry.2.links) ∨ ∃ part ∈ items, link ∈ part.links := by
  rw [links, List.mem_append, mem_propertyLinks, mem_itemLinks]

@[simp] theorem links_reference (link : Reference) : (Part.reference link).links = [link] := by
  rw [links]

end Links

/-- Parts as far as they are schemas: references, schemas with the schemas nested in them, and anything
else. -/
theorem schema_induction {motive : Part → Prop} (reference : ∀ link, motive (.reference link))
    (schema : ∀ facets properties items, (∀ entry ∈ properties, motive entry.2) →
      (∀ part ∈ items, motive part) → motive (.schema facets properties items))
    (other : ∀ part : Part, (∀ link, part ≠ .reference link) →
      (∀ facets properties items, part ≠ .schema facets properties items) → motive part)
    (part : Part) : motive part := by
  match part with
  | .reference link => exact reference link
  | .schema facets properties items =>
      refine schema facets properties items (fun entry hentry => ?_) fun inner hinner => ?_
      · exact schema_induction reference schema other entry.2
      · exact schema_induction reference schema other inner
  | .info .. | .contact _ | .license _ | .server _ | .tag _ | .operation .. | .parameter .. |
    .requestBody .. | .response .. | .mediaType .. | .securityScheme _ =>
      exact other _ (fun _ => nofun) fun _ _ _ => nofun
termination_by sizeOf part
decreasing_by
  · have hlt := List.sizeOf_lt_of_mem hentry
    rcases entry with ⟨name, found⟩
    simp only [Prod.mk.sizeOf_spec, Part.schema.sizeOf_spec] at hlt ⊢
    omega
  · obtain rfl := Option.mem_def.mp hinner
    simp only [Part.schema.sizeOf_spec, Option.some.sizeOf_spec]
    omega

section Other

variable {part : Part} (hreference : ∀ link, part ≠ .reference link)
  (hschema : ∀ facets properties items, part ≠ .schema facets properties items)

include hschema

theorem inner?_of_other (step : SchemaStep) : part.inner? step = none := by
  cases part with
  | schema facets properties items => exact absurd rfl (hschema facets properties items)
  | _ => cases step <;> rfl

include hreference

theorem links_of_other : part.links = [] := by
  cases part with
  | reference link => exact absurd rfl (hreference link)
  | schema facets properties items => exact absurd rfl (hschema facets properties items)
  | _ => rfl

end Other

theorem links_of_inner? {part inner : Part} {step : SchemaStep} (h : part.inner? step = some inner) :
    ∀ link ∈ inner.links, link ∈ part.links := by
  intro link hlink
  unfold inner? at h
  split at h
  · obtain ⟨entry, hentry, rfl⟩ := Option.map_eq_some_iff.mp h
    exact mem_links_schema.mpr (.inl ⟨entry, List.mem_of_getElem? hentry, hlink⟩)
  · exact mem_links_schema.mpr (.inr ⟨inner, h, hlink⟩)
  · cases h

theorem unmarked_schema (facets : Facets) (properties : Registry) (items : Option Part) :
    (Part.schema facets properties items).unmarked =
      .schema facets (properties.map fun entry => (entry.1, entry.2.unmarked))
        (items.map unmarked) := by
  have hproperties := mapProperties_id (fun link => { link with recursive := .bool false }) properties
  have hitems := mapSchema_id (fun link => { link with recursive := .bool false }) items
  calc (Part.schema facets properties items).unmarked
      = .schema facets
          (mapProperties (m := Id) (fun link => { link with recursive := .bool false }) properties)
          (mapSchema (m := Id) (fun link => { link with recursive := .bool false }) items) := rfl
    _ = _ := by
      rw [hproperties, hitems]
      rfl

theorem inner?_unmarked (part : Part) (step : SchemaStep) :
    part.unmarked.inner? step = (part.inner? step).map unmarked := by
  cases part with
  | schema facets properties items =>
      rw [unmarked_schema]
      cases step with
      | property index => simp [inner?, Function.comp_def]
      | items => rfl
  | _ => cases step <;> rfl

end Part

namespace Model

variable {model : Model} {followed : Reference → Prop} {node : SchemaNode}

theorem schemaAt?_inner (model : Model) (node : SchemaNode) (step : SchemaStep) :
    model.schemaAt? (node.inner step) = (model.schemaAt? node).bind (·.inner? step) :=
  rfl

/-- What a node refers to, its root refers to. -/
theorem links_root_of_schemaAt? {part : Part} (h : model.schemaAt? node = some part) :
    ∃ whole, model.rootSchema? node.root = some whole ∧ ∀ link ∈ part.links, link ∈ whole.links := by
  rcases node with ⟨root, path⟩
  induction path generalizing part with
  | nil => exact ⟨part, h, fun _ hlink => hlink⟩
  | cons step path ih =>
      obtain ⟨outer, houter, hinner⟩ := Option.bind_eq_some_iff.mp h
      obtain ⟨whole, hwhole, hlinks⟩ := ih houter
      exact ⟨whole, hwhole, fun link hlink => hlinks link (Part.links_of_inner? hinner link hlink)⟩

theorem reaches_of_root (h : (model.schemaAt? node).isSome) :
    Relation.ReflTransGen (model.Follows followed) { node with path := [] } node := by
  rcases node with ⟨root, path⟩
  induction path with
  | nil => exact .refl
  | cons step path ih =>
      obtain ⟨inner, hinner⟩ := Option.isSome_iff_exists.mp h
      obtain ⟨outer, houter, -⟩ := Option.bind_eq_some_iff.mp hinner
      have hlast : model.Follows followed ⟨root, path⟩ ⟨root, step :: path⟩ := .inner h
      exact (ih (Option.isSome_of_eq_some houter)).tail hlast

/-- A node that refers to something reaches the reference. -/
theorem reaches_link {part : Part} (h : model.schemaAt? node = some part) {link : Reference}
    (hlink : link ∈ part.links) :
    ∃ last, model.schemaAt? last = some (.reference link) ∧
      Relation.ReflTransGen (model.Follows followed) node last := by
  induction part using Part.schema_induction generalizing node with
  | reference found =>
      obtain rfl : link = found := by simpa using hlink
      exact ⟨node, h, .refl⟩
  | schema facets properties items hproperties hitems =>
      have hstep (step : SchemaStep) (inner : Part)
          (hinner : (Part.schema facets properties items).inner? step = some inner) :
          model.schemaAt? (node.inner step) = some inner := by
        rw [schemaAt?_inner, h]
        exact hinner
      rcases Part.mem_links_schema.mp hlink with ⟨entry, hentry, hlink⟩ | ⟨inner, hinner, hlink⟩
      · obtain ⟨index, hindex⟩ := List.getElem?_of_mem hentry
        have hfound := hstep (.property index) entry.2 (by simp [Part.inner?, hindex])
        obtain ⟨last, hlast, hreaches⟩ := hproperties entry hentry hfound hlink
        exact ⟨last, hlast, .head (.inner (Option.isSome_of_eq_some hfound)) hreaches⟩
      · have hfound := hstep .items inner hinner
        obtain ⟨last, hlast, hreaches⟩ := hitems inner hinner hfound hlink
        exact ⟨last, hlast, .head (.inner (Option.isSome_of_eq_some hfound)) hreaches⟩
  | other part hreference hschema =>
      rw [Part.links_of_other hreference hschema] at hlink
      cases hlink

/-- Nothing leads on from where no schema stands. -/
theorem isSome_of_follows {next : SchemaNode} (h : model.Follows followed node next) :
    (model.schemaAt? node).isSome := by
  cases h with
  | inner h =>
      obtain ⟨inner, hinner⟩ := Option.isSome_iff_exists.mp h
      obtain ⟨outer, houter, -⟩ := Option.bind_eq_some_iff.mp hinner
      exact Option.isSome_of_eq_some houter
  | target hlink => exact Option.isSome_of_eq_some hlink

/-- If nothing that a node refers to leads on for ever, then nothing at the node does. -/
theorem acc_of_links {part : Part} (h : model.schemaAt? node = some part)
    (hlinks : ∀ link ∈ part.links, followed link → ∀ name, link.key? = some (.schemas, name) →
      (model.schemaAt? (.component name)).isSome →
      Acc (flip (model.Follows followed)) (.component name)) :
    Acc (flip (model.Follows followed)) node := by
  induction part using Part.schema_induction generalizing node with
  | reference link =>
      refine .intro _ fun next hnext => ?_
      cases hnext with
      | inner hinner =>
          rw [schemaAt?_inner, h] at hinner
          rename_i step
          cases step <;> cases hinner
      | target hfound hfollowed hkey htarget =>
          obtain rfl := Part.reference.inj (Option.some.inj (h.symm.trans hfound))
          exact hlinks link (by simp) hfollowed _ hkey htarget
  | schema facets properties items hproperties hitems =>
      refine .intro _ fun next hnext => ?_
      cases hnext with
      | inner hinner =>
          rename_i step
          obtain ⟨inner, hinner⟩ := Option.isSome_iff_exists.mp hinner
          have hpart : (Part.schema facets properties items).inner? step = some inner := by
            rw [schemaAt?_inner, h] at hinner
            exact hinner
          have hwithin link (hlink : link ∈ inner.links) :=
            hlinks link (Part.links_of_inner? hpart link hlink)
          cases step with
          | property index =>
              obtain ⟨entry, hentry, rfl⟩ := Option.map_eq_some_iff.mp hpart
              exact hproperties entry (List.mem_of_getElem? hentry) hinner hwithin
          | items => exact hitems inner hpart hinner hwithin
      | target hfound => cases h.symm.trans hfound
  | other part hreference hschema =>
      refine .intro _ fun next hnext => ?_
      cases hnext with
      | inner hinner =>
          rename_i step
          rw [schemaAt?_inner, h, Option.bind_some, Part.inner?_of_other hschema] at hinner
          cases hinner
      | target hfound => exact absurd (Option.some.inj (h.symm.trans hfound)) (hreference _)

end Model

end DocCompiler
