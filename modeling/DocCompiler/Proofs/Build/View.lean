import DocCompiler.Build.View
import DocCompiler.Proofs.Annotation.Leaves
import DocCompiler.Proofs.Data.Registry
import DocCompiler.Proofs.Data.Result
import DocCompiler.Proofs.Document.Form

/-!
What a look at an annotation gives: values of the kind that is asked for, or markers of constants, and
nested annotations of fewer levels.
-/

namespace DocCompiler.Annotation.Node

theorem height_lt_of_mem_children {node child : Node} (h : child ∈ node.children) :
    child.height < node.height := by
  rcases node with ⟨tag, attributes, children, line, column⟩
  have hle : child.height ≤ heightOfNodes children := by
    induction children with
    | nil => simp at h
    | cons first rest ih =>
        rcases List.mem_cons.mp h with rfl | hrest
        · simp only [heightOfNodes]
          exact Nat.le_max_left _ _
        · have := ih hrest
          simp only [heightOfNodes]
          omega
  simp only [height]
  omega

theorem heightOfValue_lt_of_get? {node : Node} {name : String} {value : Value}
    (h : node.get? name = some value) : heightOfValue value < node.height := by
  rcases node with ⟨tag, attributes, children, line, column⟩
  obtain ⟨key, -, hmem⟩ := Datum.mem_of_lookup_eq_some h
  have hle : heightOfValue value ≤ heightOfEntries attributes := by
    clear h
    induction attributes with
    | nil => simp at hmem
    | cons first rest ih =>
        rcases List.mem_cons.mp hmem with rfl | hrest
        · simp only [heightOfEntries]
          exact Nat.le_max_left _ _
        · have := ih hrest
          simp only [heightOfEntries]
          omega
  simp only [height]
  omega

theorem heightOfValue_le_of_mem {items : List Value} {item : Value} (h : item ∈ items) :
    heightOfValue item ≤ heightOfItems items := by
  induction items with
  | nil => simp at h
  | cons first rest ih =>
      rcases List.mem_cons.mp h with rfl | hrest
      · simp only [heightOfItems]
        exact Nat.le_max_left _ _
      · have := ih hrest
        simp only [heightOfItems]
        omega

end DocCompiler.Annotation.Node

namespace DocCompiler.Build

open Annotation

theorem isOneOf_eq_ok_iff {tags : List String} {tag : Datum} {found : Bool} :
    isOneOf tags tag = .ok found ↔ tag.isHashable = true ∧ found = tag.isAmong tags := by
  simp only [isOneOf, requireHashable]
  by_cases h : tag.isHashable = true
  · simp [h, eq_comm]
  · simp [h]

namespace View

variable {view : View} {name : String} {value : Value} {data : Datum}

theorem get?_eq_some_iff :
    view.get? name = some value ↔
      view.node.get? name = some value ∧ ∀ data, value ≠ .leaf .null data := by
  simp only [get?]
  split
  · rename_i data h
    simp only [h, reduceCtorEq, Option.some.injEq, false_iff, not_and, not_forall, not_not]
    rintro rfl
    exact ⟨data, rfl⟩
  · rename_i hnull
    constructor
    · rintro h
      refine ⟨h, ?_⟩
      rintro data rfl
      exact hnull data h
    · exact And.left

theorem height_of_mem_several {item : Value} (h : item ∈ view.several name) :
    Node.heightOfValue item < view.node.height := by
  unfold several at h
  split at h
  · simp at h
  · rename_i items hget
    have hlt := Node.heightOfValue_lt_of_get? (get?_eq_some_iff.mp hget).1
    have hle := Node.heightOfValue_le_of_mem h
    simp only [Node.heightOfValue] at hlt
    omega
  · rename_i value _ hget
    obtain rfl : item = value := by simpa using h
    exact Node.heightOfValue_lt_of_get? (get?_eq_some_iff.mp hget).1

section Leaves

variable {admits : LeafKind → Datum → Prop} (hleaves : view.node.Leaves admits)

include hleaves

theorem leaves_of_get? (h : view.get? name = some value) : value.Leaves admits := by
  obtain ⟨key, -, hmem⟩ := Datum.mem_of_lookup_eq_some (get?_eq_some_iff.mp h).1
  exact (Node.leaves_iff _).mp hleaves |>.1 _ hmem

theorem leaves_of_mem_several {item : Value} (h : item ∈ view.several name) :
    item.Leaves admits := by
  unfold several at h
  split at h
  · simp at h
  · rename_i items hget
    have hall := leaves_of_get? hleaves hget
    exact (Value.allLeaves_iff _).mp hall item h
  · rename_i value _ hget
    obtain rfl : item = value := by simpa using h
    exact leaves_of_get? hleaves hget

end Leaves

section Given

variable {terms : Terms} (hleaves : view.node.Leaves terms.leaf)

include hleaves

theorem given_of_leaf {kind : LeafKind} {expected : String}
    (h : view.leaf kind expected name = .ok data) : terms.Given kind data := by
  unfold leaf at h
  split at h
  · cases h
    exact .inl rfl
  · cases h
    exact .inr (.inl ⟨_, rfl⟩)
  · rename_i found given _ hget
    split at h
    · rename_i hkind
      obtain rfl : given = data := by simpa using h
      exact .inr (.inr (hkind ▸ leaves_of_get? hleaves hget))
    · simp [wrongKind, fail] at h
  · simp [wrongKind, fail] at h

theorem given_of_text (h : view.text name = .ok data) : terms.Given .string data :=
  given_of_leaf hleaves h

theorem given_of_flag (h : view.flag name = .ok data) : terms.Given .boolean data :=
  given_of_leaf hleaves h

theorem given_of_number (h : view.number name = .ok data) : terms.Given .number data :=
  given_of_leaf hleaves h

theorem given_of_textOrNumber (h : view.textOrNumber name = .ok data) :
    terms.Given .string data := by
  unfold textOrNumber at h
  split at h
  · split at h
    · cases h
      exact .inr (Terms.stated_text _)
    · cases h
  · exact given_of_text hleaves h

theorem listed_of_texts (h : view.texts name = .ok data) : terms.Listed data := by
  unfold texts at h
  simp only [Result.bind_eq_ok_iff, Result.pure_eq_ok_iff] at h
  obtain ⟨items, hitems, rfl⟩ := h
  refine ⟨items, rfl, fun item hitem => ?_⟩
  obtain ⟨value, hvalue, hitem⟩ := Result.mem_of_mapM_eq_ok hitems hitem
  have hadmitted := leaves_of_mem_several hleaves hvalue
  unfold textItem at hitem
  split at hitem
  · cases hitem
    exact .inr hadmitted
  · cases hitem
    exact .inl ⟨_, rfl⟩
  · simp [wrongKind, fail] at hitem

end Given

/-- Nested annotations are the children with some tags, then the values of an attribute, which are all
annotations with these tags. -/
theorem nested_eq_ok_iff {tags : List String} {nodes : List Node} :
    view.nested tags (some name) = .ok nodes ↔
      (∀ child ∈ view.node.children, child.tag.isHashable = true) ∧
        ∃ given, List.Forall₂ (fun item node => item = .tag node ∧ node.tag.isAmong tags = true)
            (view.several name) given ∧
          nodes = view.node.children.filter (fun child => child.tag.isAmong tags) ++ given := by
  have hchildren : ∀ (child : Node) found, isOneOf tags child.tag = .ok found →
      found = child.tag.isAmong tags := fun _ _ h => (isOneOf_eq_ok_iff.mp h).2
  simp only [nested, Result.bind_eq_ok_iff, Result.filterM_eq_ok_iff hchildren,
    Result.mapM_eq_ok_iff, Result.pure_eq_ok_iff, isOneOf_eq_ok_iff, and_true]
  constructor
  · rintro ⟨_, ⟨hhashable, rfl⟩, given, hgiven, rfl⟩
    refine ⟨hhashable, given, hgiven.imp fun item node h => ?_, rfl⟩
    split at h
    · rename_i found
      simp only [Result.bind_eq_ok_iff, isOneOf_eq_ok_iff] at h
      obtain ⟨among, ⟨-, hamong⟩, h⟩ := h
      split at h
      · rename_i htrue
        obtain rfl : found = node := by simpa using h
        exact ⟨rfl, hamong ▸ htrue⟩
      · simp [wrongKind, fail] at h
    · simp [wrongKind, fail] at h
  · rintro ⟨hhashable, given, hgiven, rfl⟩
    refine ⟨_, ⟨hhashable, rfl⟩, given, hgiven.imp fun item node h => ?_, rfl⟩
    obtain ⟨rfl, hamong⟩ := h
    simp [isOneOf_eq_ok_iff.mpr ⟨Datum.isHashable_of_isAmong hamong, hamong.symm⟩]

theorem mem_of_nested {tags : List String} {nodes : List Node} {node : Node}
    (h : view.nested tags (some name) = .ok nodes) (hnode : node ∈ nodes) :
    node.tag.isAmong tags = true ∧
      (node ∈ view.node.children ∨ Value.tag node ∈ view.several name) := by
  obtain ⟨-, given, hgiven, rfl⟩ := nested_eq_ok_iff.mp h
  rcases List.mem_append.mp hnode with hchild | hvalue
  · obtain ⟨hmem, hamong⟩ := List.mem_filter.mp hchild
    exact ⟨hamong, .inl hmem⟩
  · obtain ⟨item, hitem, rfl, hamong⟩ := Result.exists_left_of_forall₂ hgiven hvalue
    exact ⟨hamong, .inr hitem⟩

theorem height_of_nested {tags : List String} {nodes : List Node} {node : Node}
    (h : view.nested tags (some name) = .ok nodes) (hnode : node ∈ nodes) :
    node.height < view.node.height := by
  rcases (mem_of_nested h hnode).2 with hchild | hvalue
  · exact Node.height_lt_of_mem_children hchild
  · simpa [Node.heightOfValue] using height_of_mem_several hvalue

theorem leaves_of_nested {admits : LeafKind → Datum → Prop} (hleaves : view.node.Leaves admits)
    {tags : List String} {nodes : List Node} {node : Node}
    (h : view.nested tags (some name) = .ok nodes) (hnode : node ∈ nodes) :
    node.Leaves admits := by
  rcases (mem_of_nested h hnode).2 with hchild | hvalue
  · exact ((Node.leaves_iff _).mp hleaves).2 node hchild
  · exact leaves_of_mem_several hleaves hvalue

end View

end DocCompiler.Build
