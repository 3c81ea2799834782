import DocCompiler.Annotation.Parse
import DocCompiler.Proofs.Annotation.Run
import DocCompiler.Proofs.Annotation.Word
import DocCompiler.Proofs.Data.Result

/-!
The marks of tags. Every tag that is read, nested ones included, has its mark and its name in the text
at the place that it is given.
-/

namespace DocCompiler.Annotation

open Text

section Tags

variable (p : Node → Prop)

mutual

/-- A condition holds of all tags in a value. -/
def Value.Tags : Value → Prop
  | .leaf _ _ => True
  | .array items => Value.AllTags items
  | .mapping entries => Value.EntryTags entries
  | .tag node => Node.Tags node

/-- A condition holds of all tags in values. -/
def Value.AllTags : List Value → Prop
  | [] => True
  | item :: rest => Value.Tags item ∧ Value.AllTags rest

/-- A condition holds of all tags in the values of entries. -/
def Value.EntryTags : List (Datum × Value) → Prop
  | [] => True
  | (_, item) :: rest => Value.Tags item ∧ Value.EntryTags rest

/-- A condition holds of a tag and of all tags nested in it. -/
def Node.Tags : Node → Prop
  | ⟨tag, attributes, children, line, column⟩ =>
      p ⟨tag, attributes, children, line, column⟩ ∧ Value.EntryTags attributes ∧ Node.AllTags children

/-- A condition holds of all tags in annotations. -/
def Node.AllTags : List Node → Prop
  | [] => True
  | node :: rest => Node.Tags node ∧ Node.AllTags rest

end

variable {p}

theorem Value.allTags_append {items others : List Value} :
    Value.AllTags p (items ++ others) ↔ Value.AllTags p items ∧ Value.AllTags p others := by
  induction items with
  | nil => simp [Value.AllTags]
  | cons item rest ih => simp [Value.AllTags, ih, and_assoc]

theorem Value.entryTags_append {entries others : List (Datum × Value)} :
    Value.EntryTags p (entries ++ others) ↔ Value.EntryTags p entries ∧ Value.EntryTags p others := by
  induction entries with
  | nil => simp [Value.EntryTags]
  | cons entry rest ih => simp [Value.EntryTags, ih, and_assoc]

theorem Node.allTags_append {nodes others : List Node} :
    Node.AllTags p (nodes ++ others) ↔ Node.AllTags p nodes ∧ Node.AllTags p others := by
  induction nodes with
  | nil => simp [Node.AllTags]
  | cons node rest ih => simp [Node.AllTags, ih, and_assoc]

theorem Node.Tags.self {node : Node} (h : node.Tags p) : p node := by
  obtain ⟨tag, attributes, children, line, column⟩ := node
  exact h.1

mutual

/-- No tag stands in the value of a constant. -/
theorem Value.tags_of_ofDatum : (datum : Datum) → {value : Value} →
    Value.ofDatum datum = .ok value → value.Tags p
  | .null, _, h | .bool _, _, h | .number _, _, h | .text _, _, h | .codes _, _, h => by
      obtain rfl := Except.ok.inj h
      trivial
  | .map entries, _, h => by
      rw [Value.ofDatum] at h
      obtain ⟨found, hfound, rfl⟩ := Result.map_eq_ok_iff.mp h
      exact Value.entryTags_of_ofDatum entries hfound
  | .list items, _, h => by
      rw [Value.ofDatum] at h
      obtain ⟨found, hfound, rfl⟩ := Result.map_eq_ok_iff.mp h
      exact Value.allTags_of_ofDatum items hfound
  | .pair first second, _, h => by
      rw [Value.ofDatum] at h
      obtain ⟨one, hone, h⟩ := Result.bind_eq_ok_iff.mp h
      obtain ⟨two, htwo, h⟩ := Result.bind_eq_ok_iff.mp h
      obtain rfl := Except.ok.inj h
      exact ⟨Value.tags_of_ofDatum first hone, Value.tags_of_ofDatum second htwo, trivial⟩

theorem Value.allTags_of_ofDatum : (items : List Datum) → {values : List Value} →
    Value.ofDatumItems items = .ok values → Value.AllTags p values
  | [], _, h => by
      obtain rfl := Except.ok.inj h
      trivial
  | item :: rest, _, h => by
      rw [Value.ofDatumItems] at h
      obtain ⟨value, hvalue, h⟩ := Result.bind_eq_ok_iff.mp h
      obtain ⟨values, hvalues, h⟩ := Result.bind_eq_ok_iff.mp h
      obtain rfl := Except.ok.inj h
      exact ⟨Value.tags_of_ofDatum item hvalue, Value.allTags_of_ofDatum rest hvalues⟩

theorem Value.entryTags_of_ofDatum : (entries : List (Datum × Datum)) →
    {values : List (Datum × Value)} → Value.ofDatumEntries entries = .ok values →
      Value.EntryTags p values
  | [], _, h => by
      obtain rfl := Except.ok.inj h
      trivial
  | (key, item) :: rest, _, h => by
      rw [Value.ofDatumEntries] at h
      split_ifs at h
      · exact absurd h nofun
      obtain ⟨value, hvalue, h⟩ := Result.bind_eq_ok_iff.mp h
      obtain ⟨values, hvalues, h⟩ := Result.bind_eq_ok_iff.mp h
      obtain rfl := Except.ok.inj h
      exact ⟨Value.tags_of_ofDatum item hvalue, Value.entryTags_of_ofDatum rest hvalues⟩

end

section Imp

variable {q : Node → Prop}

mutual

theorem Value.Tags.imp (himp : ∀ node, p node → q node) : (value : Value) → value.Tags p → value.Tags q
  | .leaf _ _, _ => trivial
  | .array items, h => Value.AllTags.imp himp items h
  | .mapping entries, h => Value.EntryTags.imp himp entries h
  | .tag node, h => Node.Tags.imp himp node h

theorem Value.AllTags.imp (himp : ∀ node, p node → q node) : (items : List Value) →
    Value.AllTags p items → Value.AllTags q items
  | [], _ => trivial
  | item :: rest, h => ⟨Value.Tags.imp himp item h.1, Value.AllTags.imp himp rest h.2⟩

theorem Value.EntryTags.imp (himp : ∀ node, p node → q node) : (entries : List (Datum × Value)) →
    Value.EntryTags p entries → Value.EntryTags q entries
  | [], _ => trivial
  | (_, item) :: rest, h => ⟨Value.Tags.imp himp item h.1, Value.EntryTags.imp himp rest h.2⟩

theorem Node.Tags.imp (himp : ∀ node, p node → q node) : (node : Node) → node.Tags p → node.Tags q
  | ⟨_, attributes, children, _, _⟩, h =>
      ⟨himp _ h.1, Value.EntryTags.imp himp attributes h.2.1, Node.AllTags.imp himp children h.2.2⟩

theorem Node.AllTags.imp (himp : ∀ node, p node → q node) : (nodes : List Node) →
    Node.AllTags p nodes → Node.AllTags q nodes
  | [], _ => trivial
  | node :: rest, h => ⟨Node.Tags.imp himp node h.1, Node.AllTags.imp himp rest h.2⟩

end

end Imp

end Tags

/-- The mark and the name of a tag stand at an offset of a text, and the place of that offset is the one
that the tag is given. -/
structure Node.MarkedAt (text : List Char) (place : Nat → Location) (offset : Nat) (node : Node) :
    Prop where
  name : ∃ base name rest, text.drop offset = '@' :: (name ++ rest) ∧
    node.tag = .text (String.ofList base) ∧ IsTagName base name
  line : node.line = (place offset).line.getD 0
  column : node.column = (place offset).column.getD 0

/-- The mark and the name of a tag stand in a text, at the offset that the place of the tag belongs to. -/
def Node.Marked (text : List Char) (place : Nat → Location) (node : Node) : Prop :=
  ∃ offset, node.MarkedAt text place offset

/-- The mark and the name of a tag stand at an offset of a text, and those of the tags nested in it stand
in the text too. -/
def Node.PlacedAt (text : List Char) (place : Nat → Location) (offset : Nat) (node : Node) : Prop :=
  node.MarkedAt text place offset ∧ node.Tags (Node.Marked text place)

/-- The name at the start of a text, when there is one. -/
theorem simpleName_spec (text : List Char) :
    simpleName text = [] ∨
      ∃ name rest, text = name ++ rest ∧ simpleName (name ++ rest) = name ∧ IsName name := by
  cases text with
  | nil => exact .inl rfl
  | cons c rest =>
      rw [simpleName]
      split
      · rename_i hc
        refine .inr ⟨c :: rest.takeWhile isWord, rest.dropWhile isWord, ?_, ?_, ?_⟩
        · rw [List.cons_append, List.takeWhile_append_dropWhile]
        · rw [List.cons_append, List.takeWhile_append_dropWhile, simpleName, if_pos hc]
        · exact .intro hc (List.all_eq_true.mp List.all_takeWhile)
      · exact .inl rfl

theorem furtherNames_of_ne_backslash {fuel : Nat} {text : List Char} (h : text.head? ≠ some '\\') :
    furtherNames namespaceMark fuel text = [] := by
  have hmark : namespaceMark text = [] := by
    unfold namespaceMark
    split
    · simp at h
    · rfl
  cases fuel with
  | zero => rfl
  | succ fuel => rw [furtherNames, hmark]

theorem furtherNames_backslash {fuel : Nat} {name rest : List Char} (hname : IsName name)
    (hread : simpleName (name ++ rest) = name) :
    furtherNames namespaceMark (fuel + 1) ('\\' :: (name ++ rest)) =
      '\\' :: (name ++ furtherNames namespaceMark fuel rest) := by
  have hmark : namespaceMark ('\\' :: (name ++ rest)) = ['\\'] := rfl
  have hdrop : ('\\' :: (name ++ rest)).drop ('\\' :: name).length = rest :=
    List.drop_left
  obtain ⟨c, tail, rfl⟩ := List.exists_cons_of_ne_nil hname.ne_nil
  rw [furtherNames]
  simp only [hmark, List.length_singleton, List.drop_succ_cons, List.drop_zero, hread]
  rw [List.singleton_append, hdrop]
  rfl

/-- Names in a namespace stand behind backslashes. -/
theorem furtherNames_spec (fuel : Nat) (text : List Char) :
    furtherNames namespaceMark fuel text = [] ∨
      ∃ base name rest, text = '\\' :: (name ++ rest) ∧ IsTagName base name ∧
        furtherNames namespaceMark fuel text = '\\' :: name := by
  induction fuel generalizing text with
  | zero => exact .inl rfl
  | succ fuel ih =>
      by_cases hmark : text.head? = some '\\'
      · obtain ⟨text, rfl⟩ : ∃ rest, text = '\\' :: rest := by
          cases text with
          | nil => simp at hmark
          | cons c rest => exact ⟨rest, by rw [Option.some.inj hmark]⟩
        obtain hempty | ⟨name, rest, rfl, hread, hname⟩ := simpleName_spec text
        · refine .inl ?_
          have hmark : namespaceMark ('\\' :: text) = ['\\'] := rfl
          rw [furtherNames]
          simp only [hmark, List.length_singleton, List.drop_succ_cons, List.drop_zero, hempty]
        · rw [furtherNames_backslash hname hread]
          obtain hlast | ⟨base, later, more, rfl, hlater, hfound⟩ := ih rest
          · rw [hlast, List.append_nil]
            exact .inr ⟨name, name, rest, rfl, .base hname, rfl⟩
          · rw [hfound]
            exact .inr ⟨base, name ++ '\\' :: later, more, by simp, .within hname hlater, rfl⟩
      · exact .inl (furtherNames_of_ne_backslash hmark)

/-- The tag name at the start of a text. -/
theorem tagName_spec {text : List Char} (h : tagName text ≠ []) :
    ∃ base rest, text = tagName text ++ rest ∧ IsTagName base (tagName text) := by
  obtain hempty | ⟨name, rest, rfl, hread, hname⟩ := simpleName_spec text
  · rw [tagName, hempty] at h
    exact absurd rfl h
  · have hempty : name.isEmpty = false := by simpa using hname.ne_nil
    rw [tagName, hread]
    simp only [hempty, Bool.false_eq_true, if_false, List.drop_left]
    obtain hlast | ⟨base, later, more, rfl, hlater, hfound⟩ := furtherNames_spec (name ++ rest).length rest
    · rw [hlast, List.append_nil]
      exact ⟨name, rest, rfl, .base hname⟩
    · rw [hfound]
      exact ⟨base, more, by simp, .within hname hlater⟩

end DocCompiler.Annotation
