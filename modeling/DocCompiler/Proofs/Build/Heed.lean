import DocCompiler.Proofs.Annotation.Nested
import DocCompiler.Proofs.Build.Spelling

/-!
Where an annotation looks for others: what is read from an attribute without a fault has no annotation in
it, unless the attribute takes some, and a child without a fault has a tag that is taken.
-/

namespace DocCompiler.Build

open Annotation

namespace View

variable {view : View} {name tag : String} {data : Datum} {inner : Node}

/-- No annotation stands in an attribute. -/
def Untagged (view : View) (name : String) : Prop :=
  ∀ value inner, view.node.get? name = some value → ¬ value.Holds inner

/-- No annotation that is heeded stands in an attribute unseen: the attribute tells nothing of it, takes
annotations, or has none. -/
inductive Watched (view : View) (tag name : String) : Prop
  | idle (h : name ∈ idleAttributes tag)
  | slot {slot : Slot} (hslot : slot ∈ tagSlots tag) (hname : slot.1 = name)
  | untagged (h : view.Untagged name)

theorem untagged_of_get? (h : ∀ value, view.get? name = some value → ∀ inner, ¬ value.Holds inner) :
    view.Untagged name := by
  intro value inner hget hholds
  refine h value (get?_eq_some_iff.mpr ⟨hget, ?_⟩) inner hholds
  rintro data rfl
  exact Value.not_holds_leaf hholds

theorem untagged_of_leaf {kind : LeafKind} {expected : String}
    (h : view.leaf kind expected name = .ok data) : view.Untagged name := by
  refine untagged_of_get? fun value hget inner => ?_
  rw [leaf, hget] at h
  cases value with
  | leaf found data => exact Value.not_holds_leaf
  | _ => simp [wrongKind, fail] at h

theorem untagged_of_text (h : view.text name = .ok data) : view.Untagged name :=
  untagged_of_leaf h

theorem untagged_of_flag (h : view.flag name = .ok data) : view.Untagged name :=
  untagged_of_leaf h

theorem untagged_of_number (h : view.number name = .ok data) : view.Untagged name :=
  untagged_of_leaf h

theorem untagged_of_textOrNumber (h : view.textOrNumber name = .ok data) : view.Untagged name := by
  unfold textOrNumber at h
  split at h
  · next number hget =>
    refine untagged_of_get? fun value hvalue inner => ?_
    obtain rfl : value = .leaf .number number := Option.some.inj (hvalue.symm.trans hget)
    exact Value.not_holds_leaf
  · exact untagged_of_text h

theorem untagged_of_literal (h : view.literal name = .ok data) : view.Untagged name := by
  refine untagged_of_get? fun value hget inner hholds => ?_
  simp [literal, hget, Value.toDatum?_eq_none hholds, wrongKind, fail] at h

theorem untagged_of_texts (h : view.texts name = .ok data) : view.Untagged name := by
  refine untagged_of_get? fun value hget inner hholds => ?_
  simp only [texts, Result.bind_eq_ok_iff, Result.mapM_eq_ok_iff] at h
  obtain ⟨items, hitems, -⟩ := h
  -- An item that is read as a text is a leaf.
  have hleaf : ∀ item ∈ view.several name, ¬ item.Holds inner := by
    intro item hitem
    obtain ⟨found, -, hfound⟩ := Result.exists_right_of_forall₂ hitems hitem
    cases item with
    | leaf kind data => exact Value.not_holds_leaf
    | _ => simp [textItem, wrongKind, fail] at hfound
  cases hholds with
  | tag => exact hleaf (.tag inner) (by simp [several, hget]) (.tag inner)
  | item hitem hinner => exact hleaf _ (by simpa [several, hget] using hitem) hinner
  | @entry entries entry _ hentry hinner =>
      exact hleaf (.mapping entries) (by simp [several, hget]) (.entry hentry hinner)

theorem tag_of_nested {nodes : List Node} (h : view.nested [tag] (some name) = .ok nodes)
    (hinner : inner ∈ nodes) : inner.tag = .text tag := by
  obtain ⟨found, hfound, htag⟩ := Datum.isAmong_iff.mp (mem_of_nested h hinner).1
  rw [htag, List.mem_singleton.mp hfound]

/-- What is found in a slot without a fault is all that stands there. -/
theorem eq_nestedIn {slot : Slot} {nodes : List Node}
    (h : view.nested slot.2 (some slot.1) = .ok nodes) : nodes = view.node.nestedIn slot := by
  obtain ⟨-, given, hgiven, rfl⟩ := nested_eq_ok_iff.mp h
  have hnodes : (view.several slot.1).filterMap Value.node? = given := by
    clear h
    generalize view.several slot.1 = items at hgiven
    induction hgiven with
    | nil => rfl
    | cons hitem _ ih =>
        obtain ⟨rfl, -⟩ := hitem
        simp [Value.node?, ih]
  have hmembers : (view.several slot.1).filterMap Value.node? =
      ((view.node.get? slot.1).elim [] Value.members).filterMap Value.node? := by
    rw [several, get?]
    cases view.node.get? slot.1 with
    | none => rfl
    | some value =>
        cases value with
        | leaf kind data => cases kind <;> rfl
        | _ => rfl
  rw [Node.nestedIn, ← hmembers, hnodes]

/-- What stands in the attribute of a slot is found there. -/
theorem mem_nested_of_holds {slot : Slot} {nodes : List Node}
    (h : view.nested slot.2 (some slot.1) = .ok nodes) {value : Value}
    (hget : view.node.get? slot.1 = some value) (hholds : value.Holds inner) : inner ∈ nodes := by
  obtain ⟨-, given, hgiven, rfl⟩ := nested_eq_ok_iff.mp h
  refine List.mem_append_right _ ?_
  have hvalue : view.get? slot.1 = some value := by
    refine get?_eq_some_iff.mpr ⟨hget, ?_⟩
    rintro data rfl
    exact Value.not_holds_leaf hholds
  -- Every item of the attribute is an annotation, so none stands deeper in it.
  have hitem : ∀ item ∈ view.several slot.1, item.Holds inner → inner ∈ given := by
    intro item hitem hinner
    obtain ⟨found, hfound, rfl, -⟩ := Result.exists_right_of_forall₂ hgiven hitem
    cases hinner
    exact hfound
  cases hholds with
  | tag => exact hitem (.tag inner) (by simp [several, hvalue]) (.tag inner)
  | item hmem hinner => exact hitem _ (by simpa [several, hvalue] using hmem) hinner
  | @entry entries entry _ hentry hinner =>
      exact hitem (.mapping entries) (by simp [several, hvalue]) (.entry hentry hinner)

/-- An annotation about which nothing is reported has attributes that its tag accepts. -/
theorem accepted_of_warnings (h : view.warnings = .ok []) {entry : Datum × Value}
    (hentry : entry ∈ view.node.attributes) :
    ∃ name ∈ (attributesOf? view.tag).getD [], entry.1 = .text name := by
  obtain ⟨found, hfound, hnone⟩ := Result.bind_eq_ok_iff.mp h
  rw [Result.pure_eq_ok_iff, List.filterMap_eq_nil_iff] at hnone
  obtain ⟨warning, hwarning, hreported⟩ := Result.ok_of_mapM_eq_ok hfound hentry
  obtain rfl : warning = none := hnone warning hwarning
  obtain ⟨accepted, haccepted, hwarned⟩ := Result.bind_eq_ok_iff.mp hreported
  cases accepted with
  | false => cases hwarned
  | true =>
      exact Datum.isAmong_iff.mp (isOneOf_eq_ok_iff.mp haccepted).2.symm

theorem isAmong_of_checkChildren {tags : List String} (h : view.checkChildren tags = .ok ()) :
    ∀ child ∈ view.node.children, child.tag.isAmong tags = true := by
  rw [checkChildren, List.forM_eq_forM] at h
  generalize view.node.children = children at h
  induction children with
  | nil => simp
  | cons child rest ih =>
      rw [List.forM_cons] at h
      simp only [Result.bind_eq_ok_iff, isOneOf_eq_ok_iff] at h
      obtain ⟨_, ⟨among, ⟨-, rfl⟩, hchild⟩, hrest⟩ := h
      refine List.forall_mem_cons.mpr ⟨?_, ih hrest⟩
      by_contra hother
      rw [Bool.not_eq_true] at hother
      simp [hother] at hchild

theorem checkChildren_of_subset {tags more : List String} (h : view.checkChildren tags = .ok ())
    (hmore : tags ⊆ more) : view.checkChildren more = .ok () :=
  checkChildren_eq fun child hchild =>
    Datum.isAmong_of_subset (isAmong_of_checkChildren h child hchild) hmore

variable (view) in
/-- Nothing is heeded but what stands in slots, if each attribute is watched and each child has a tag that
a slot takes; children that are not looked at are not heeded. -/
theorem exists_slot_of_heeds (htag : view.node.tag = .text tag) (hwarnings : view.warnings = .ok [])
    (hattributes : ∀ name ∈ (attributesOf? tag).getD [], view.Watched tag name)
    (hchildren : tag ∈ uncheckedTags ∨
      view.checkChildren ((tagSlots tag).flatMap (·.2)) = .ok ())
    (h : view.node.Heeds inner) :
    ∃ slot ∈ tagSlots tag, ∀ nodes, view.nested slot.2 (some slot.1) = .ok nodes → inner ∈ nodes := by
  obtain ⟨hholds, hheeded⟩ := h
  cases hholds with
  | child hchild =>
      rcases hchildren with hunchecked | hchecked
      · exact absurd (.child (Datum.isAmong_iff.mpr ⟨tag, hunchecked, htag⟩) hchild) hheeded
      · obtain ⟨name, hname, hinner⟩ :=
          Datum.isAmong_iff.mp (isAmong_of_checkChildren hchecked inner hchild)
        obtain ⟨slot, hslot, hmem⟩ := List.mem_flatMap.mp hname
        have htaken : inner.tag.isAmong slot.2 = true := Datum.isAmong_iff.mpr ⟨name, hmem, hinner⟩
        refine ⟨slot, hslot, fun nodes hnodes => ?_⟩
        obtain ⟨-, given, -, rfl⟩ := nested_eq_ok_iff.mp hnodes
        exact List.mem_append_left _ (List.mem_filter.mpr ⟨hchild, htaken⟩)
  | @attr entry hentry hinner =>
      obtain ⟨key, value⟩ := entry
      obtain ⟨name, hname, rfl⟩ := accepted_of_warnings hwarnings hentry
      have hget : view.node.get? name = some value := by
        by_contra hfirst
        exact hheeded (.repeated hentry hfirst hinner)
      rw [View.tag, htag] at hname
      cases hattributes name hname with
      | idle hidle => exact absurd (.idle htag hidle hentry hinner) hheeded
      | @slot slot hslot hslotName =>
          subst hslotName
          exact ⟨slot, hslot, fun nodes hnodes => mem_nested_of_holds hnodes hget hinner⟩
      | untagged huntagged => exact absurd hinner (huntagged value inner hget)

theorem not_heeds_of_reference (href : view.node.isReference = true)
    (hchildren : view.checkChildren [] = .ok ()) : ¬ view.node.Heeds inner := by
  rintro ⟨hholds, hheeded⟩
  cases hholds with
  | child hchild =>
      obtain ⟨name, hname, -⟩ := Datum.isAmong_iff.mp (isAmong_of_checkChildren hchildren inner hchild)
      cases hname
  | attr hentry hinner => exact hheeded (.reference href hentry hinner)

theorem isReference_of_text (h : view.text "ref" = .ok data) (hnull : data.isNull = false) :
    view.node.isReference = true := by
  rw [text, leaf, get?] at h
  rw [Node.isReference]
  cases hget : view.node.get? "ref" with
  | none =>
      simp only [hget] at h
      obtain rfl := Except.ok.inj h
      cases hnull
  | some value =>
      rw [hget] at h
      cases value with
      | leaf kind given =>
          cases kind with
          | string =>
              obtain rfl : given = data := by simpa using h
              simp [hnull]
          | constant => rfl
          | null =>
              obtain rfl := Except.ok.inj h
              cases hnull
          | _ => simp [wrongKind, fail] at h
      | _ => simp [wrongKind, fail] at h

end View

end DocCompiler.Build
