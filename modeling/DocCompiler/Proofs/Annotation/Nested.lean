import Mathlib.Logic.Relation
import DocCompiler.Proofs.Annotation.Spelling

/-!
Annotations that stand in others, as children or in attributes, and those of them that are passed over
when a document is built.
-/

namespace DocCompiler.Annotation

/-- An annotation stands in a value, and not in another annotation there. -/
inductive Value.Holds : Value → Node → Prop
  | tag (node : Node) : Value.Holds (.tag node) node
  | item {items : List Value} {item : Value} {node : Node} (hitem : item ∈ items)
      (h : Value.Holds item node) : Value.Holds (.array items) node
  | entry {entries : List (Datum × Value)} {entry : Datum × Value} {node : Node}
      (hentry : entry ∈ entries) (h : Value.Holds entry.2 node) : Value.Holds (.mapping entries) node

/-- An annotation stands in another, and not in a third one there. -/
inductive Node.Holds (node inner : Node) : Prop
  | child (h : inner ∈ node.children)
  | attr {entry : Datum × Value} (hentry : entry ∈ node.attributes) (h : entry.2.Holds inner)

/-- The annotation that a value is. -/
def Value.node? : Value → Option Node
  | .tag node => some node
  | _ => none

/-- The members of an array, or a value that is none alone. -/
def Value.members : Value → List Value
  | .array items => items
  | value => [value]

namespace Node

/-- Whether an annotation refers to a component instead of describing one. -/
def isReference (node : Node) : Bool :=
  match node.get? "ref" with
  | some (.leaf .string data) => !data.isNull
  | some (.leaf .constant _) => true
  | _ => false

/-- The annotations that a slot takes: children with its tags, then what its attribute holds. -/
def nestedIn (node : Node) (slot : Slot) : List Node :=
  node.children.filter (·.tag.isAmong slot.2) ++
    ((node.get? slot.1).elim [] Value.members).filterMap Value.node?

end Node

/-- Tags whose children are not looked at. -/
def uncheckedTags : List String :=
  ["Contact", "License", "Server", "Tag"]

/-- Attributes that a tag accepts though they tell nothing of an annotation that is nested: the name of a
component, and where a parameter is passed when its tag tells. -/
def idleAttributes (tag : String) : List String :=
  match tag with
  | "Schema" | "Property" | "Items" | "JsonContent" | "XmlContent" => ["schema"]
  | "RequestBody" => ["request"]
  | "Parameter" => ["parameter"]
  | _ => if parameterTags.contains tag then ["parameter", "in"] else []

/-- The ways in which an annotation is passed over though it stands in another. -/
inductive Node.Overlooks (node inner : Node) : Prop
  /-- It is a child that is not looked at. -/
  | child (htag : node.tag.isAmong uncheckedTags = true) (h : inner ∈ node.children)
  /-- It stands in an attribute of a reference. -/
  | reference (href : node.isReference = true) {entry : Datum × Value}
      (hentry : entry ∈ node.attributes) (h : entry.2.Holds inner)
  /-- It is a schema of a media type, and not the first one. -/
  | further (htag : node.tag = .text "MediaType")
      (h : inner ∈ (node.nestedIn ("schema", ["Schema"])).tail)
  /-- It stands in an attribute that tells nothing. -/
  | idle {tag name : String} {value : Value} (htag : node.tag = .text tag)
      (hname : name ∈ idleAttributes tag) (hentry : (.text name, value) ∈ node.attributes)
      (h : value.Holds inner)
  /-- It stands in an attribute behind another one with its name. -/
  | repeated {name : String} {value : Value} (hentry : (.text name, value) ∈ node.attributes)
      (hfirst : node.get? name ≠ some value) (h : value.Holds inner)

/-- An annotation stands in another, and is not passed over there. -/
def Node.Heeds (node inner : Node) : Prop :=
  node.Holds inner ∧ ¬ node.Overlooks inner

/-- Tags of annotations that describe a part of a document. -/
def partTags : List String :=
  "Schema" :: "Property" :: "Items" :: "RequestBody" :: "Response" ::
    (contentTags.map (·.1) ++ parameterTags)

/-- Whether an annotation describes a part of a document. -/
def Node.isPart (node : Node) : Bool :=
  node.tag.isAmong partTags

theorem Node.not_isPart {node : Node} {tag : String} (hnode : node.tag = .text tag) (htag : tag ∉ partTags) :
    ¬ node.isPart = true := by
  rw [isPart, hnode, Datum.isAmong_iff]
  rintro ⟨name, hname, hother⟩
  obtain rfl := Datum.text.inj hother
  exact htag hname

/-- A value in which an annotation stands has no plain value. -/
theorem Value.toDatum?_eq_none {value : Value} {node : Node} (h : value.Holds node)
    (location : Option Location) : value.toDatum? location = none := by
  induction h with
  | tag node => rfl
  | @item items item node hitem _ ih =>
      have hnone : Value.toDatumItems? location items = none := by
        induction items with
        | nil => cases hitem
        | cons first rest ihrest =>
            rcases List.mem_cons.mp hitem with rfl | hlater
            · simp [Value.toDatumItems?, ih]
            · simp [Value.toDatumItems?, ihrest hlater]
      simp [Value.toDatum?, hnone]
  | @entry entries entry node hentry _ ih =>
      have hnone : Value.toDatumEntries? location entries = none := by
        induction entries with
        | nil => cases hentry
        | cons first rest ihrest =>
            rcases List.mem_cons.mp hentry with rfl | hlater
            · simp [Value.toDatumEntries?, ih]
            · simp [Value.toDatumEntries?, ihrest hlater]
      simp [Value.toDatum?, hnone]

theorem Value.not_holds_leaf {kind : LeafKind} {data : Datum} {node : Node} :
    ¬ (Value.leaf kind data).Holds node := by
  rintro ⟨⟩

end DocCompiler.Annotation
