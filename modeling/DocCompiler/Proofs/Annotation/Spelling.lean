import DocCompiler.Annotation.Grammar
import DocCompiler.Annotation.Tree
import DocCompiler.Proofs.Data.Registry
import Mathlib.Data.List.Nodup
import Mathlib.Data.Nat.Basic
import Mathlib.Data.Option.Basic
import Mathlib.Order.Basic

/-!
Two ways to spell nested annotations: as the children of an annotation, or in its attributes.
-/

namespace DocCompiler.Annotation

/-- An attribute in which annotations are nested, with the tags that it takes. -/
abbrev Slot := String × List String

/-- The attributes in which a tag takes nested annotations. -/
def tagSlots (tag : String) : List Slot :=
  match tag with
  | "Info" => [("contact", ["Contact"]), ("license", ["License"])]
  | "Schema" | "Property" | "Items" | "JsonContent" | "XmlContent" =>
      [("properties", ["Property"]), ("items", ["Items"])]
  | "MediaType" => [("schema", ["Schema"])]
  | "RequestBody" | "Response" => [("content", "MediaType" :: contentTags.map (·.1))]
  | _ =>
      if methodTags.contains tag then
        [("parameters", parameterTags), ("requestBody", ["RequestBody"]), ("responses", ["Response"])]
      else if parameterTags.contains tag then [("schema", ["Schema"])]
      else []

/-- The attributes in which the tag of an annotation takes nested ones. -/
def slotsOf (tag : Datum) : List Slot :=
  tag.text?.elim [] tagSlots

/-- Nested annotations in the attributes that take them, in order. -/
def slotEntries (slots : List Slot) (children : List Node) : List (Datum × Value) :=
  slots.filterMap fun slot =>
    match children.filter fun child => child.tag.isAmong slot.2 with
    | [] => none
    | found => some (.text slot.1, .array (found.map .tag))

mutual

/-- A value with every annotation in it spelled without children. -/
def Value.respell : Value → Value
  | .leaf kind data => .leaf kind data
  | .array items => .array (Value.respellItems items)
  | .mapping entries => .mapping (Value.respellEntries entries)
  | .tag node => .tag (Node.respell node)

/-- Values with every annotation in them spelled without children. -/
def Value.respellItems : List Value → List Value
  | [] => []
  | item :: rest => Value.respell item :: Value.respellItems rest

/-- Entries with every annotation in them spelled without children. -/
def Value.respellEntries : List (Datum × Value) → List (Datum × Value)
  | [] => []
  | (key, item) :: rest => (key, Value.respell item) :: Value.respellEntries rest

/-- An annotation whose children, at every depth, stand in the attributes that take them. -/
def Node.respell : Node → Node
  | ⟨tag, attributes, children, line, column⟩ =>
      { tag
        attributes :=
          Value.respellEntries attributes ++ slotEntries (slotsOf tag) (Node.respellNodes children)
        children := []
        line
        column }

/-- Annotations whose children stand in attributes. -/
def Node.respellNodes : List Node → List Node
  | [] => []
  | node :: rest => Node.respell node :: Node.respellNodes rest

end

example : (⟨.text "Schema", [], [⟨.text "Items", [], [], 2, 3⟩], 1, 1⟩ : Node).respell =
    ⟨.text "Schema", [(.text "items", .array [.tag ⟨.text "Items", [], [], 2, 3⟩])], [], 1, 1⟩ := by
  rfl

/-- Whether the value of an attribute counts as absent. -/
def isAbsent : Option Value → Bool
  | none | some (.leaf .null _) => true
  | _ => false

/-- Whether some attribute takes a child, and is not there yet. -/
def hasRoom (tag : Datum) (attributes : List (Datum × Value)) (child : Node) : Bool :=
  let taking := (slotsOf tag).filter fun slot => child.tag.isAmong slot.2
  !taking.isEmpty && taking.all fun slot => (Datum.lookup (.text slot.1) attributes).isNone

mutual

/-- Whether the children of every annotation in a value may as well stand in attributes. -/
def Value.isRespellable : Value → Bool
  | .leaf _ _ => true
  | .array items => Value.areRespellable items
  | .mapping entries => Value.haveRespellable entries
  | .tag node => Node.isRespellable node

/-- Whether that is so in all values. -/
def Value.areRespellable : List Value → Bool
  | [] => true
  | item :: rest => Value.isRespellable item && Value.areRespellable rest

/-- Whether that is so in all entries. -/
def Value.haveRespellable : List (Datum × Value) → Bool
  | [] => true
  | (_, item) :: rest => Value.isRespellable item && Value.haveRespellable rest

/-- Whether the children of an annotation, and of those nested in it, may as well stand in attributes:
none has children besides being a reference, and each child has room in an attribute. -/
def Node.isRespellable : Node → Bool
  | ⟨tag, attributes, children, _, _⟩ =>
      (children.isEmpty || isAbsent (Datum.lookup (.text "ref") attributes)) &&
        children.all (hasRoom tag attributes) && Value.haveRespellable attributes &&
        Node.areRespellable children

/-- Whether that is so for all annotations. -/
def Node.areRespellable : List Node → Bool
  | [] => true
  | node :: rest => Node.isRespellable node && Node.areRespellable rest

end

/-- A unit whose annotations are spelled without children. -/
def AnnotatedUnit.respell (unit : AnnotatedUnit) : AnnotatedUnit :=
  { unit with
    blocks := unit.blocks.map fun block => { block with nodes := block.nodes.map Node.respell } }

/-- Whether all annotations of a unit may be spelled without children. -/
def AnnotatedUnit.isRespellable (unit : AnnotatedUnit) : Bool :=
  unit.blocks.all fun block => block.nodes.all Node.isRespellable

theorem nodup_tagSlots (tag : String) : ((tagSlots tag).map (·.1)).Nodup := by
  unfold tagSlots
  split
  all_goals first | decide | skip
  split_ifs <;> decide

theorem nodup_slotsOf (tag : Datum) : ((slotsOf tag).map (·.1)).Nodup := by
  rw [slotsOf]
  cases tag.text? with
  | none => exact List.nodup_nil
  | some text => exact nodup_tagSlots text

section Slots

variable {slots : List Slot} {children : List Node} {name : String}

theorem lookup_append {α : Type} (key : Datum) (first second : List (Datum × α)) :
    Datum.lookup key (first ++ second) = (Datum.lookup key first).or (Datum.lookup key second) := by
  induction first with
  | nil => rfl
  | cons entry rest ih =>
      rcases entry with ⟨name, value⟩
      by_cases h : name.sameKey key = true
      · simp [Datum.lookup, h]
      · simp [Datum.lookup, h, ih]

theorem slotEntries_cons (slot : Slot) (slots : List Slot) (children : List Node) :
    slotEntries (slot :: slots) children =
      (match children.filter fun child => child.tag.isAmong slot.2 with
        | [] => slotEntries slots children
        | found => (.text slot.1, .array (found.map .tag)) :: slotEntries slots children) := by
  rw [slotEntries, List.filterMap_cons]
  cases children.filter fun child => child.tag.isAmong slot.2 <;> rfl

theorem lookup_slotEntries_of_ne (h : ∀ slot ∈ slots, slot.1 ≠ name) :
    Datum.lookup (.text name) (slotEntries slots children) = none := by
  rw [Datum.lookup_eq_none_iff]
  intro entry hentry
  obtain ⟨slot, hslot, hfound⟩ := List.mem_filterMap.mp hentry
  split at hfound
  · cases hfound
  · obtain rfl := Option.some.inj hfound
    rw [← Bool.not_eq_true, Datum.sameKey_text]
    intro heq
    exact h slot hslot (Datum.text.inj heq)

/-- What is found in an attribute are the children with the tags that it takes. -/
theorem lookup_slotEntries (hslots : (slots.map (·.1)).Nodup) {slot : Slot} (hslot : slot ∈ slots) :
    Datum.lookup (.text slot.1) (slotEntries slots children) =
      match children.filter fun child => child.tag.isAmong slot.2 with
      | [] => none
      | found => some (.array (found.map .tag)) := by
  induction slots with
  | nil => cases hslot
  | cons first slots ih =>
      obtain ⟨hnotin, hrest⟩ := List.nodup_cons.mp hslots
      have hfirst (other : Slot) (hother : other ∈ slots) : other.1 ≠ first.1 := by
        intro heq
        exact hnotin (List.mem_map.mpr ⟨other, hother, heq⟩)
      rw [slotEntries_cons]
      rcases List.mem_cons.mp hslot with rfl | hslot
      · have hnone : Datum.lookup (.text slot.1) (slotEntries slots children) = none :=
          lookup_slotEntries_of_ne hfirst
        have hsame : (Datum.text slot.1).sameKey (.text slot.1) = true := Datum.sameKey_text.mpr rfl
        cases children.filter fun child => child.tag.isAmong slot.2 with
        | nil => exact hnone
        | cons child others => simp [Datum.lookup, hsame]
      · have hne : (Datum.text first.1).sameKey (.text slot.1) = false := by
          rw [← Bool.not_eq_true, Datum.sameKey_text]
          intro heq
          exact hfirst slot hslot (Datum.text.inj heq).symm
        cases children.filter fun child => child.tag.isAmong first.2 with
        | nil => exact ih hrest hslot
        | cons child others => simpa [Datum.lookup, hne] using ih hrest hslot

end Slots

theorem Value.respellItems_eq_map (items : List Value) :
    Value.respellItems items = items.map Value.respell := by
  induction items with
  | nil => rfl
  | cons item rest ih => rw [Value.respellItems, List.map_cons, ih]

theorem Value.respellEntries_eq_map (entries : List (Datum × Value)) :
    Value.respellEntries entries = entries.map fun entry => (entry.1, entry.2.respell) := by
  induction entries with
  | nil => rfl
  | cons entry rest ih => rw [Value.respellEntries, List.map_cons, ih]

theorem Node.respellNodes_eq_map (nodes : List Node) :
    Node.respellNodes nodes = nodes.map Node.respell := by
  induction nodes with
  | nil => rfl
  | cons node rest ih => rw [Node.respellNodes, List.map_cons, ih]

theorem Value.areRespellable_iff {items : List Value} :
    Value.areRespellable items = true ↔ ∀ item ∈ items, item.isRespellable = true := by
  induction items with
  | nil => simp [Value.areRespellable]
  | cons item rest ih => simp [Value.areRespellable, ih]

theorem Value.haveRespellable_iff {entries : List (Datum × Value)} :
    Value.haveRespellable entries = true ↔ ∀ entry ∈ entries, entry.2.isRespellable = true := by
  induction entries with
  | nil => simp [Value.haveRespellable]
  | cons entry rest ih => simp [Value.haveRespellable, ih]

theorem Node.areRespellable_iff {nodes : List Node} :
    Node.areRespellable nodes = true ↔ ∀ node ∈ nodes, node.isRespellable = true := by
  induction nodes with
  | nil => simp [Node.areRespellable]
  | cons node rest ih => simp [Node.areRespellable, ih]

/-- An annotation whose children may as well stand in attributes. -/
structure Node.Respellable (node : Node) : Prop where
  ref : node.children = [] ∨ isAbsent (node.get? "ref") = true
  taken : ∀ child ∈ node.children, ∃ slot ∈ slotsOf node.tag, child.tag.isAmong slot.2 = true
  room : ∀ child ∈ node.children, ∀ slot ∈ slotsOf node.tag, child.tag.isAmong slot.2 = true →
    node.get? slot.1 = none
  attributes : ∀ entry ∈ node.attributes, entry.2.isRespellable = true
  children : ∀ child ∈ node.children, child.isRespellable = true

theorem hasRoom_iff {tag : Datum} {attributes : List (Datum × Value)} {child : Node} :
    hasRoom tag attributes child = true ↔
      (∃ slot ∈ slotsOf tag, child.tag.isAmong slot.2 = true) ∧
        ∀ slot ∈ slotsOf tag, child.tag.isAmong slot.2 = true →
          Datum.lookup (.text slot.1) attributes = none := by
  simp only [hasRoom, Bool.and_eq_true, Bool.not_eq_true', List.isEmpty_eq_false_iff_exists_mem,
    List.mem_filter, List.all_eq_true, Option.isNone_iff_eq_none, and_imp]

theorem Node.isRespellable_iff {node : Node} : node.isRespellable = true ↔ node.Respellable := by
  rcases node with ⟨tag, attributes, children, line, column⟩
  simp only [Node.isRespellable, Bool.and_eq_true, Bool.or_eq_true, List.isEmpty_iff, List.all_eq_true,
    hasRoom_iff, Value.haveRespellable_iff, Node.areRespellable_iff]
  constructor
  · rintro ⟨⟨⟨href, hroom⟩, hattributes⟩, hchildren⟩
    exact ⟨href, fun child hchild => (hroom child hchild).1, fun child hchild => (hroom child hchild).2,
      hattributes, hchildren⟩
  · rintro ⟨href, htaken, hroom, hattributes, hchildren⟩
    exact ⟨⟨⟨href, fun child hchild => ⟨htaken child hchild, hroom child hchild⟩⟩, hattributes⟩,
      hchildren⟩

@[simp] theorem Value.kind_respell (value : Value) : value.respell.kind = value.kind := by
  cases value <;> rfl

namespace Node

variable {node : Node} {name : String}

@[simp] theorem tag_respell (node : Node) : node.respell.tag = node.tag := by
  cases node
  rfl

@[simp] theorem line_respell (node : Node) : node.respell.line = node.line := by
  cases node
  rfl

@[simp] theorem column_respell (node : Node) : node.respell.column = node.column := by
  cases node
  rfl

@[simp] theorem children_respell (node : Node) : node.respell.children = [] := by
  cases node
  rfl

theorem attributes_respell (node : Node) :
    node.respell.attributes =
      (node.attributes.map fun entry => (entry.1, entry.2.respell)) ++
        slotEntries (slotsOf node.tag) (node.children.map respell) := by
  cases node
  rw [respell, Value.respellEntries_eq_map, respellNodes_eq_map]

theorem get?_respell (node : Node) (name : String) :
    node.respell.get? name = ((node.get? name).map Value.respell).or
      (Datum.lookup (.text name) (slotEntries (slotsOf node.tag) (node.children.map respell))) := by
  rw [get?, attributes_respell, lookup_append, Datum.lookup_map]
  rfl

/-- Attributes that take no annotations are not affected. -/
theorem get?_respell_of_ne (h : ∀ slot ∈ slotsOf node.tag, slot.1 ≠ name) :
    node.respell.get? name = (node.get? name).map Value.respell := by
  rw [get?_respell, lookup_slotEntries_of_ne h, Option.or_none]

theorem filter_map_respell (nodes : List Node) (tags : List String) :
    ((nodes.map respell).filter fun child => child.tag.isAmong tags) =
      (nodes.filter fun child => child.tag.isAmong tags).map respell := by
  rw [List.filter_map]
  simp only [Function.comp_def, tag_respell]

/-- An attribute that takes annotations is as before, or it was not there and holds the children that
it takes. -/
theorem get?_respell_slot (h : node.Respellable) {slot : Slot} (hslot : slot ∈ slotsOf node.tag) :
    (node.children.filter (fun child => child.tag.isAmong slot.2) = [] ∧
        node.respell.get? slot.1 = (node.get? slot.1).map Value.respell) ∨
      (node.get? slot.1 = none ∧ node.respell.get? slot.1 = some (.array
        (((node.children.filter fun child => child.tag.isAmong slot.2).map respell).map .tag))) := by
  have hlookup := @lookup_slotEntries _ (node.children.map respell) (nodup_slotsOf node.tag) _ hslot
  rw [filter_map_respell] at hlookup
  rw [get?_respell, hlookup]
  cases hfound : node.children.filter fun child => child.tag.isAmong slot.2 with
  | nil => exact .inl ⟨rfl, Option.or_none⟩
  | cons child others =>
      have hchild : child ∈ node.children.filter fun child => child.tag.isAmong slot.2 := by
        simp [hfound]
      obtain ⟨hmem, hamong⟩ := List.mem_filter.mp hchild
      have hnone := h.room child hmem slot hslot hamong
      exact .inr ⟨hnone, by rw [hnone]; rfl⟩

/-- Every child stands in an attribute afterwards, and nothing else does. -/
theorem mem_slotEntries_iff {slots : List Slot} {nodes : List Node} {entry : Datum × Value} :
    entry ∈ slotEntries slots nodes ↔ ∃ slot ∈ slots,
      (nodes.filter fun node => node.tag.isAmong slot.2) ≠ [] ∧
        entry = (.text slot.1, .array ((nodes.filter fun node => node.tag.isAmong slot.2).map .tag)) := by
  rw [slotEntries, List.mem_filterMap]
  refine exists_congr fun slot => and_congr_right fun _ => ?_
  cases nodes.filter fun node => node.tag.isAmong slot.2 with
  | nil => simp
  | cons node others => simp [eq_comm]

section Heights

variable {bound : Nat}

theorem heightOfNodes_le_iff {nodes : List Node} :
    heightOfNodes nodes ≤ bound ↔ ∀ node ∈ nodes, node.height ≤ bound := by
  induction nodes with
  | nil => simp [heightOfNodes]
  | cons node rest ih => rw [heightOfNodes, Nat.max_le, ih, List.forall_mem_cons]

theorem heightOfItems_le_iff {items : List Value} :
    heightOfItems items ≤ bound ↔ ∀ item ∈ items, heightOfValue item ≤ bound := by
  induction items with
  | nil => simp [heightOfItems]
  | cons item rest ih => rw [heightOfItems, Nat.max_le, ih, List.forall_mem_cons]

theorem heightOfEntries_le_iff {entries : List (Datum × Value)} :
    heightOfEntries entries ≤ bound ↔ ∀ entry ∈ entries, heightOfValue entry.2 ≤ bound := by
  induction entries with
  | nil => simp [heightOfEntries]
  | cons entry rest ih => rw [heightOfEntries, Nat.max_le, ih, List.forall_mem_cons]

/-- Annotations that all find room in attributes are as high there. -/
theorem heightOfEntries_slotEntries {slots : List Slot} {nodes : List Node}
    (h : ∀ node ∈ nodes, ∃ slot ∈ slots, node.tag.isAmong slot.2 = true) :
    heightOfEntries (slotEntries slots nodes) = heightOfNodes nodes := by
  refine eq_of_forall_ge_iff fun bound => ?_
  rw [heightOfEntries_le_iff, heightOfNodes_le_iff]
  constructor
  · intro hentries node hnode
    obtain ⟨slot, hslot, hamong⟩ := h node hnode
    have hmem : node ∈ nodes.filter fun node => node.tag.isAmong slot.2 :=
      List.mem_filter.mpr ⟨hnode, hamong⟩
    have hheight := hentries _ (mem_slotEntries_iff.mpr ⟨slot, hslot, List.ne_nil_of_mem hmem, rfl⟩)
    exact heightOfItems_le_iff.mp hheight (.tag node) (List.mem_map_of_mem hmem)
  · intro hnodes entry hentry
    obtain ⟨slot, -, -, rfl⟩ := mem_slotEntries_iff.mp hentry
    apply heightOfItems_le_iff.mpr
    intro item hitem
    obtain ⟨node, hnode, rfl⟩ := List.mem_map.mp hitem
    exact hnodes node (List.mem_filter.mp hnode).1

theorem heightOfEntries_append (first second : List (Datum × Value)) :
    heightOfEntries (first ++ second) = max (heightOfEntries first) (heightOfEntries second) := by
  refine eq_of_forall_ge_iff fun bound => ?_
  rw [heightOfEntries_le_iff, List.forall_mem_append, Nat.max_le, heightOfEntries_le_iff,
    heightOfEntries_le_iff]

mutual

/-- Spelling annotations without children keeps their heights. -/
theorem heightOfValue_respell : (value : Value) → value.isRespellable = true →
    heightOfValue value.respell = heightOfValue value
  | .leaf .., _ => rfl
  | .array items, h => heightOfItems_respell items h
  | .mapping entries, h => heightOfEntries_respell entries h
  | .tag node, h => height_respell node h

theorem heightOfItems_respell : (items : List Value) → Value.areRespellable items = true →
    heightOfItems (Value.respellItems items) = heightOfItems items
  | [], _ => rfl
  | item :: rest, h => by
      obtain ⟨hitem, hrest⟩ := Bool.and_eq_true_iff.mp h
      rw [Value.respellItems, heightOfItems, heightOfItems, heightOfValue_respell item hitem,
        heightOfItems_respell rest hrest]

theorem heightOfEntries_respell : (entries : List (Datum × Value)) →
    Value.haveRespellable entries = true →
      heightOfEntries (Value.respellEntries entries) = heightOfEntries entries
  | [], _ => rfl
  | (key, item) :: rest, h => by
      obtain ⟨hitem, hrest⟩ := Bool.and_eq_true_iff.mp h
      rw [Value.respellEntries, heightOfEntries, heightOfEntries, heightOfValue_respell item hitem,
        heightOfEntries_respell rest hrest]

theorem height_respell : (node : Node) → node.isRespellable = true → node.respell.height = node.height
  | ⟨tag, attributes, children, line, column⟩, h => by
      have htaken := (isRespellable_iff.mp h).taken
      obtain ⟨hattributes, hchildren⟩ := Bool.and_eq_true_iff.mp h
      have hattributes := (Bool.and_eq_true_iff.mp hattributes).2
      have hslots : heightOfEntries (slotEntries (slotsOf tag) (respellNodes children)) =
          heightOfNodes (respellNodes children) := by
        apply heightOfEntries_slotEntries
        rw [respellNodes_eq_map, List.forall_mem_map]
        simpa only [tag_respell] using htaken
      rw [respell, height, height, heightOfEntries_append, hslots, heightOfNodes_respell children hchildren,
        heightOfEntries_respell attributes hattributes]
      simp [heightOfNodes]

theorem heightOfNodes_respell : (nodes : List Node) → areRespellable nodes = true →
    heightOfNodes (respellNodes nodes) = heightOfNodes nodes
  | [], _ => rfl
  | node :: rest, h => by
      obtain ⟨hnode, hrest⟩ := Bool.and_eq_true_iff.mp h
      rw [respellNodes, heightOfNodes, heightOfNodes, height_respell node hnode,
        heightOfNodes_respell rest hrest]

end

end Heights

end Node

mutual

/-- Annotations have no plain value however they are spelled, and other values are not affected. -/
theorem Value.toDatum?_respell (location : Option Location) : (value : Value) →
    value.respell.toDatum? location = value.toDatum? location
  | .leaf .. => rfl
  | .array items => by
      rw [Value.respell, Value.toDatum?, Value.toDatum?, Value.toDatumItems?_respell location items]
  | .mapping entries => by
      rw [Value.respell, Value.toDatum?, Value.toDatum?, Value.toDatumEntries?_respell location entries]
  | .tag node => by
      rw [Value.respell, Value.toDatum?, Value.toDatum?]

theorem Value.toDatumItems?_respell (location : Option Location) : (items : List Value) →
    Value.toDatumItems? location (Value.respellItems items) = Value.toDatumItems? location items
  | [] => rfl
  | item :: rest => by
      rw [Value.respellItems, Value.toDatumItems?, Value.toDatumItems?,
        Value.toDatum?_respell location item, Value.toDatumItems?_respell location rest]

theorem Value.toDatumEntries?_respell (location : Option Location) :
    (entries : List (Datum × Value)) →
      Value.toDatumEntries? location (Value.respellEntries entries) =
        Value.toDatumEntries? location entries
  | [] => rfl
  | (key, item) :: rest => by
      rw [Value.respellEntries, Value.toDatumEntries?, Value.toDatumEntries?,
        Value.toDatum?_respell location item, Value.toDatumEntries?_respell location rest]

end

end DocCompiler.Annotation
