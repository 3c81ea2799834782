import DocCompiler.Build.Document
import DocCompiler.Proofs.Annotation.Spelling
import DocCompiler.Proofs.Build.View

/-!
Looks at annotations that are spelled without children. They find what they find in the annotations as
they were.
-/

namespace DocCompiler.Build

open Annotation

theorem accepts_tagSlots (tag : String) :
    ∀ slot ∈ tagSlots tag, slot.1 ∈ (attributesOf? tag).getD [] := by
  have hmethods : ∀ name ∈ methodTags, ∀ slot ∈ tagSlots name, slot.1 ∈ (attributesOf? name).getD [] := by
    decide
  have hparameters :
      ∀ name ∈ parameterTags, ∀ slot ∈ tagSlots name, slot.1 ∈ (attributesOf? name).getD [] := by
    decide
  by_cases hmethod : tag ∈ methodTags
  · exact hmethods tag hmethod
  by_cases hparameter : tag ∈ parameterTags
  · exact hparameters tag hparameter
  unfold tagSlots
  split
  all_goals simp [attributesOf?, schemaAttributes, hmethod, hparameter]

namespace View

/-- The view of an annotation that is spelled without children. -/
def respell (view : View) : View :=
  { view with node := view.node.respell }

variable {view : View} {name : String}

theorem of_respell (unit : String) (node : Node) :
    View.of unit node.respell = (View.of unit node).respell := by
  simp [View.of, respell, placeOf]

@[simp] theorem tag_respell (view : View) : view.respell.tag = view.tag := by
  simp [tag, respell]

@[simp] theorem place_respell (view : View) : view.respell.place = view.place :=
  rfl

theorem wrongKind_respell {α : Type} (view : View) (name expected : String) (value : Value) :
    (view.respell.wrongKind name expected value.respell : Except Stop α) =
      view.wrongKind name expected value := by
  simp [wrongKind, fail]

theorem get?_eq_none_of_isAbsent (h : isAbsent (view.node.get? name) = true) : view.get? name = none := by
  unfold isAbsent at h
  split at h
  · rename_i hget
    rw [get?, hget]
  · rename_i hget
    rw [get?, hget]
  · cases h

section Kept

variable (hget : view.node.respell.get? name = (view.node.get? name).map Value.respell)

include hget

theorem get?_of_kept : view.respell.get? name = (view.get? name).map Value.respell := by
  rw [get?, get?, respell, hget]
  cases view.node.get? name with
  | none => rfl
  | some value =>
      cases value with
      | leaf kind data => cases kind <;> rfl
      | _ => rfl

theorem several_of_kept : view.respell.several name = (view.several name).map Value.respell := by
  rw [several, several, get?_of_kept hget]
  cases view.get? name with
  | none => rfl
  | some value =>
      cases value with
      | array items => exact Value.respellItems_eq_map items
      | _ => rfl

end Kept

section Plain

variable (hname : ∀ slot ∈ slotsOf view.node.tag, slot.1 ≠ name)

include hname

theorem get?_respell : view.respell.get? name = (view.get? name).map Value.respell :=
  get?_of_kept (Node.get?_respell_of_ne hname)

theorem leaf_respell (kind : LeafKind) (expected : String) :
    view.respell.leaf kind expected name = view.leaf kind expected name := by
  rw [leaf, leaf, get?_respell hname]
  cases view.get? name with
  | none => rfl
  | some value =>
      cases value with
      | leaf found data =>
          cases found with
          | constant => simp [Value.respell, marker]
          | _ => exact if_congr Iff.rfl rfl (wrongKind_respell view name expected (.leaf _ data))
      | _ => exact wrongKind_respell view name expected _

theorem text_respell : view.respell.text name = view.text name :=
  leaf_respell hname .string "a string"

theorem flag_respell : view.respell.flag name = view.flag name :=
  leaf_respell hname .boolean "a boolean"

theorem number_respell : view.respell.number name = view.number name :=
  leaf_respell hname .number "a number"

theorem textOrNumber_respell : view.respell.textOrNumber name = view.textOrNumber name := by
  rw [textOrNumber, textOrNumber, get?_respell hname, text_respell hname]
  cases view.get? name with
  | none => rfl
  | some value =>
      cases value with
      | leaf found data => cases found <;> rfl
      | _ => rfl

theorem literal_respell : view.respell.literal name = view.literal name := by
  rw [literal, literal, get?_respell hname]
  cases view.get? name with
  | none => rfl
  | some value =>
      simp only [Option.map_some, place_respell, Value.toDatum?_respell, wrongKind_respell]

theorem texts_respell : view.respell.texts name = view.texts name := by
  have hitem : view.respell.textItem name ∘ Value.respell = view.textItem name := by
    funext item
    have hwrong := wrongKind_respell (α := Datum) view name "an array of strings" item
    cases item with
    | leaf kind data =>
        cases kind with
        | string => rfl
        | constant => simp [Value.respell, textItem, marker]
        | _ => exact hwrong
    | _ => exact hwrong
  rw [texts, texts, several_of_kept (Node.get?_respell_of_ne hname), List.mapM_map, hitem]

end Plain

theorem checkChildren_respell (view : View) (tags : List String) :
    view.respell.checkChildren tags = .ok () := by
  rw [checkChildren, respell, Node.children_respell]
  rfl

theorem checkChildren_eq {tags : List String}
    (h : ∀ child ∈ view.node.children, child.tag.isAmong tags = true) :
    view.checkChildren tags = .ok () := by
  rw [checkChildren, List.forM_eq_forM]
  generalize view.node.children = children at h
  induction children with
  | nil => rfl
  | cons child rest ih =>
      obtain ⟨hchild, hrest⟩ := List.forall_mem_cons.mp h
      have hfound : isOneOf tags child.tag = .ok true :=
        isOneOf_eq_ok_iff.mpr ⟨Datum.isHashable_of_isAmong hchild, hchild.symm⟩
      rw [List.forM_cons, hfound]
      exact ih hrest

/-- The attributes that take nested annotations are accepted. -/
theorem warnings_respell (view : View) : view.respell.warnings = view.warnings := by
  have hwarning : view.respell.warning? = view.warning? := by
    funext name
    rw [warning?, warning?, tag_respell, place_respell]
  have hslots : (slotEntries (slotsOf view.node.tag) (view.node.children.map Node.respell)).mapM
      (fun entry => view.warning? entry.1) = .ok
        ((slotEntries (slotsOf view.node.tag) (view.node.children.map Node.respell)).map fun _ => none) := by
    rw [Result.mapM_eq_ok_iff, List.forall₂_map_right_iff, List.forall₂_same]
    intro entry hentry
    obtain ⟨slot, hslot, -, rfl⟩ := Node.mem_slotEntries_iff.mp hentry
    have haccepts : slot.1 ∈ (attributesOf? view.tag).getD [] := by
      rw [slotsOf] at hslot
      rw [tag]
      cases htag : view.node.tag with
      | text name =>
          rw [htag] at hslot
          exact accepts_tagSlots name slot hslot
      | _ =>
          rw [htag] at hslot
          cases hslot
    have hfound : isOneOf ((attributesOf? view.tag).getD []) (.text slot.1) = .ok true :=
      isOneOf_eq_ok_iff.mpr ⟨rfl, by simp [Datum.isAmong, Datum.text?, haccepts]⟩
    rw [warning?, hfound]
    rfl
  have hattributes : view.respell.node.attributes.mapM (fun entry => view.warning? entry.1) = do
      let found ← view.node.attributes.mapM fun entry => view.warning? entry.1
      return found ++ (slotEntries (slotsOf view.node.tag) (view.node.children.map Node.respell)).map
        fun _ => none := by
    rw [respell, Node.attributes_respell, List.mapM_append, List.mapM_map, hslots]
    rfl
  rw [warnings, warnings, hwarning, hattributes]
  cases view.node.attributes.mapM fun entry => view.warning? entry.1 with
  | error stop => rfl
  | ok found =>
      change Except.ok ((found ++ _).filterMap id) = Except.ok (found.filterMap id)
      simp [List.filterMap_append]

/-- A nested annotation with one of some tags among the values of an attribute. -/
def nestedItem (view : View) (tags : List String) (name : String) : Value → Except Stop Node
  | .tag node => do
      if ← isOneOf tags node.tag then return node
      else view.wrongKind name (tagList tags) (.tag node)
  | item => view.wrongKind name (tagList tags) item

theorem nested_eq (view : View) (tags : List String) (name : String) :
    view.nested tags (some name) = do
      let children ← view.node.children.filterM fun child => isOneOf tags child.tag
      let given ← (view.several name).mapM (view.nestedItem tags name)
      return children ++ given := by
  refine bind_congr fun children => congrArg (· >>= _) ?_
  refine congrArg (List.mapM · (view.several name)) (funext fun item => ?_)
  cases item <;> rfl

theorem nestedItem_respell (view : View) (tags : List String) (name : String) (item : Value) :
    view.respell.nestedItem tags name item.respell =
      (view.nestedItem tags name item).map Node.respell := by
  have hwrong : (view.respell.wrongKind name (tagList tags) item.respell : Except Stop Node) =
      (view.wrongKind name (tagList tags) item).map Node.respell :=
    wrongKind_respell view name (tagList tags) item
  cases item with
  | tag node =>
      rw [Value.respell] at hwrong ⊢
      rw [nestedItem, nestedItem, Node.tag_respell]
      cases isOneOf tags node.tag with
      | error stop => rfl
      | ok found =>
          cases found with
          | true => rfl
          | false => exact hwrong
  | _ => exact hwrong

theorem nestedItem_tag {tags : List String} {node : Node} (h : node.tag.isAmong tags = true) :
    view.nestedItem tags name (.tag node) = .ok node := by
  have hfound : isOneOf tags node.tag = .ok true :=
    isOneOf_eq_ok_iff.mpr ⟨Datum.isHashable_of_isAmong h, h.symm⟩
  rw [nestedItem, hfound]
  rfl

/-- The nested annotations are the same ones, spelled without children. -/
theorem nested_respell (h : view.node.Respellable) {slot : Slot} (hslot : slot ∈ slotsOf view.node.tag) :
    view.respell.nested slot.2 (some slot.1) =
      (view.nested slot.2 (some slot.1)).map (List.map Node.respell) := by
  have hchildren : view.node.children.filterM (fun child => isOneOf slot.2 child.tag) =
      .ok (view.node.children.filter fun child => child.tag.isAmong slot.2) := by
    refine (Result.filterM_eq_ok_iff fun child found hfound => (isOneOf_eq_ok_iff.mp hfound).2).mpr ⟨?_, rfl⟩
    intro child hchild
    obtain ⟨other, -, hamong⟩ := h.taken child hchild
    exact isOneOf_eq_ok_iff.mpr ⟨Datum.isHashable_of_isAmong hamong, rfl⟩
  have hnone : view.respell.node.children = [] := Node.children_respell view.node
  rw [nested_eq, nested_eq, hchildren, hnone]
  rcases Node.get?_respell_slot h hslot with ⟨hempty, hkept⟩ | ⟨habsent, hmoved⟩
  · have hitems : (view.several slot.1).mapM (view.respell.nestedItem slot.2 slot.1 ∘ Value.respell) =
        ((view.several slot.1).mapM (view.nestedItem slot.2 slot.1)).map (List.map Node.respell) :=
      Result.mapM_eq_map fun item _ => nestedItem_respell view slot.2 slot.1 item
    rw [hempty, several_of_kept hkept, List.mapM_map, hitems]
    cases (view.several slot.1).mapM (view.nestedItem slot.2 slot.1) <;> rfl
  · have hseveral : view.several slot.1 = [] := by
      rw [several, get?, habsent]
    have hmovedItems : view.respell.several slot.1 =
        ((view.node.children.filter fun child => child.tag.isAmong slot.2).map Node.respell).map .tag := by
      rw [several, get?, respell, hmoved]
    have hgiven : (((view.node.children.filter fun child => child.tag.isAmong slot.2).map
        Node.respell).map Value.tag).mapM (view.respell.nestedItem slot.2 slot.1) =
          .ok ((view.node.children.filter fun child => child.tag.isAmong slot.2).map Node.respell) := by
      rw [Result.mapM_eq_ok_iff, List.forall₂_map_left_iff, List.forall₂_same, List.forall_mem_map]
      intro child hchild
      apply nestedItem_tag
      rw [Node.tag_respell]
      exact (List.mem_filter.mp hchild).2
    rw [hseveral, hmovedItems, hgiven]
    change Except.ok _ = Except.ok _
    simp

theorem isRespellable_of_mem_several (h : view.node.Respellable) {item : Value}
    (hitem : item ∈ view.several name) : item.isRespellable = true := by
  have hvalue (value : Value) (hget : view.get? name = some value) : value.isRespellable = true := by
    obtain ⟨key, -, hmem⟩ := Datum.mem_of_lookup_eq_some (get?_eq_some_iff.mp hget).1
    exact h.attributes _ hmem
  unfold several at hitem
  split at hitem
  · cases hitem
  · rename_i items hget
    exact Value.areRespellable_iff.mp (hvalue _ hget) item hitem
  · rename_i value _ hget
    obtain rfl := List.mem_singleton.mp hitem
    exact hvalue _ hget

/-- Nested annotations may be spelled without children, too. -/
theorem respellable_of_nested (h : view.node.Respellable) {tags : List String} {nodes : List Node}
    (hnodes : view.nested tags (some name) = .ok nodes) :
    ∀ node ∈ nodes, node.Respellable ∧ node.tag.isAmong tags = true := by
  intro node hnode
  obtain ⟨hamong, hmem⟩ := mem_of_nested hnodes hnode
  refine ⟨Node.isRespellable_iff.mp ?_, hamong⟩
  rcases hmem with hchild | hitem
  · exact h.children node hchild
  · exact isRespellable_of_mem_several h hitem

end View

end DocCompiler.Build
