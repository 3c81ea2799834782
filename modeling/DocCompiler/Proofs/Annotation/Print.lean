import DocCompiler.Annotation.Parse
import DocCompiler.Proofs.Annotation.Run
import DocCompiler.Proofs.Annotation.Word

/-!
Annotation trees as text. `Printable` describes the trees that can be written, `Prints` the texts that
a tree can be written as: blanks, final commas, namespaces and the spelling of strings are free.
-/

namespace DocCompiler

open Number Text

namespace Annotation

/-- Whether a word is a keyword, in any case. -/
def isKeyword (word : List Char) : Bool :=
  ["true", "false", "null"].contains (String.ofList (word.map Char.toLower))

/-- A name as a key. -/
inductive SpellsName : Datum → List Char → Prop
  | bare {name : List Char} (hname : IsName name) : SpellsName (.text (String.ofList name)) name

/-- A key of a mapping, bare or in quotes. -/
inductive SpellsKey : Datum → List Char → Prop
  | bare {name : List Char} (hname : IsName name) : SpellsKey (.text (String.ofList name)) name
  | quoted {body text : List Char} (htext : Quotes body text) :
      SpellsKey (.text (String.ofList body)) ('"' :: (text ++ ['"']))

/-- A key and a value with a mark between them. -/
inductive Keyed (spells : Datum → List Char → Prop) (marks : List Char) (key : Datum)
    (value : List Char) : List Char → Prop
  | intro {name before after : List Char} {mark : Char} (hname : spells key name)
      (hbefore : ∀ c ∈ before, isBlank c = true) (hmark : mark ∈ marks)
      (hafter : ∀ c ∈ after, isBlank c = true) :
      Keyed spells marks key value (name ++ (before ++ mark :: (after ++ value)))

/-- The leaves that can be written. A constant is one that the table does not know. -/
def LeafKind.Printable (constants : Constants) : LeafKind → Datum → Prop
  | .string, .text _ => True
  | .number, .number (.int value) => value.natAbs < tenTo maxDigits
  | .boolean, .bool _ => True
  | .null, .null => True
  | .constant, .text name =>
      IsIdentifier name.toList ∧ isKeyword name.toList = false ∧ constants.get? name = none
  | _, _ => False

/-- The texts that a leaf can be written as. -/
inductive LeafKind.Prints : LeafKind → Datum → List Char → Prop
  | string {body text : List Char} (htext : Quotes body text) :
      Prints .string (.text (String.ofList body)) ('"' :: (text ++ ['"']))
  | number {value : Int} {text : List Char} (htext : IsNumeral value text) :
      Prints .number (.number (.int value)) text
  | boolean {value : Bool} {text : List Char}
      (htext : String.ofList (text.map Char.toLower) = if value then "true" else "false") :
      Prints .boolean (.bool value) text
  | null {text : List Char} (htext : String.ofList (text.map Char.toLower) = "null") :
      Prints .null .null text
  | constant {name : String} : Prints .constant (.text name) name.toList

section Printable

variable (constants : Constants)

mutual

/-- The values that can be written. -/
def Value.Printable : Value → Prop
  | .leaf kind data => kind.Printable constants data
  | .array items => Value.AllPrintable items
  | .mapping entries =>
      entries ≠ [] ∧ (∀ entry ∈ entries, ∃ key, entry.1 = .text key) ∧ Value.EntriesPrintable entries
  | .tag node => Node.Printable node

/-- Values that can all be written. -/
def Value.AllPrintable : List Value → Prop
  | [] => True
  | item :: rest => Value.Printable item ∧ Value.AllPrintable rest

/-- Entries whose values can be written. -/
def Value.EntriesPrintable : List (Datum × Value) → Prop
  | [] => True
  | (_, item) :: rest => Value.Printable item ∧ Value.EntriesPrintable rest

/-- The annotations that can be written: known tags whose attributes have distinct names. -/
def Node.Printable : Node → Prop
  | ⟨tag, attributes, children, _, _⟩ =>
      (∃ name, tag = .text name ∧ isKnownTag name = true) ∧
        (∀ entry ∈ attributes, ∃ name, entry.1 = .text (String.ofList name) ∧ IsName name) ∧
          (attributes.map (·.1)).Nodup ∧ Value.EntriesPrintable attributes ∧ Node.AllPrintable children

/-- Annotations that can all be written. -/
def Node.AllPrintable : List Node → Prop
  | [] => True
  | node :: rest => Node.Printable node ∧ Node.AllPrintable rest

end

end Printable

mutual

/-- The texts that a value can be written as. -/
def Value.Prints : Value → List Char → Prop
  | .leaf kind data, text => kind.Prints data text
  | .array items, text => ∃ pieces, Value.PrintEach items pieces ∧ Enclosed '\x7b' '\x7d' pieces text
  | .mapping entries, text =>
      ∃ pieces, Value.PrintEntries SpellsKey [':', '='] entries pieces ∧
        Enclosed '\x7b' '\x7d' pieces text
  | .tag node, text => Node.Prints node text

/-- The texts that values can be written as, one by one. -/
def Value.PrintEach : List Value → List (List Char) → Prop
  | [], pieces => pieces = []
  | item :: rest, pieces =>
      ∃ piece later, pieces = piece :: later ∧ Value.Prints item piece ∧ Value.PrintEach rest later

/-- The texts that entries can be written as, one by one. -/
def Value.PrintEntries (spells : Datum → List Char → Prop) (marks : List Char) :
    List (Datum × Value) → List (List Char) → Prop
  | [], pieces => pieces = []
  | (key, item) :: rest, pieces =>
      ∃ value piece later, pieces = piece :: later ∧ Value.Prints item value ∧
        Keyed spells marks key value piece ∧ Value.PrintEntries spells marks rest later

/-- The texts that an annotation can be written as: the tag behind its mark, and its arguments behind
spaces and tabs; a tag without arguments may stand alone. -/
def Node.Prints : Node → List Char → Prop
  | ⟨tag, attributes, children, _, _⟩, text =>
      ∃ base name, tag = .text (String.ofList base) ∧ IsTagName base name ∧
        (attributes = [] ∧ children = [] ∧ text = '@' :: name ∨
          ∃ inlineBlanks parts nested arguments, (∀ c ∈ inlineBlanks, isInlineBlank c = true) ∧
            Value.PrintEntries SpellsName ['='] attributes parts ∧ Node.PrintEach children nested ∧
              Enclosed '(' ')' (parts ++ nested) arguments ∧
                text = '@' :: (name ++ (inlineBlanks ++ arguments)))

/-- The texts that annotations can be written as, one by one. -/
def Node.PrintEach : List Node → List (List Char) → Prop
  | [], pieces => pieces = []
  | node :: rest, pieces =>
      ∃ piece later, pieces = piece :: later ∧ Node.Prints node piece ∧ Node.PrintEach rest later

end

mutual

/-- How deep tags and braces nest in a value. -/
def Value.nesting : Value → Nat
  | .leaf _ _ => 0
  | .array items => 1 + Value.nestingOfItems items
  | .mapping entries => 1 + Value.nestingOfEntries entries
  | .tag node => Node.nesting node

/-- How deep tags and braces nest in values. -/
def Value.nestingOfItems : List Value → Nat
  | [] => 0
  | item :: rest => max (Value.nesting item) (Value.nestingOfItems rest)

/-- How deep tags and braces nest in the values of entries. -/
def Value.nestingOfEntries : List (Datum × Value) → Nat
  | [] => 0
  | (_, item) :: rest => max (Value.nesting item) (Value.nestingOfEntries rest)

/-- How deep tags and braces nest in an annotation, its own tag included. -/
def Node.nesting : Node → Nat
  | ⟨_, attributes, children, _, _⟩ =>
      1 + max (Value.nestingOfEntries attributes) (Node.nestingOfNodes children)

/-- How deep tags and braces nest in annotations. -/
def Node.nestingOfNodes : List Node → Nat
  | [] => 0
  | node :: rest => max (Node.nesting node) (Node.nestingOfNodes rest)

end

mutual

/-- A value without the places of the tags in it. -/
def Value.unplaced : Value → Value
  | .leaf kind data => .leaf kind data
  | .array items => .array (Value.unplacedItems items)
  | .mapping entries => .mapping (Value.unplacedEntries entries)
  | .tag node => .tag (Node.unplaced node)

/-- Values without the places of the tags in them. -/
def Value.unplacedItems : List Value → List Value
  | [] => []
  | item :: rest => Value.unplaced item :: Value.unplacedItems rest

/-- Entries without the places of the tags in them. -/
def Value.unplacedEntries : List (Datum × Value) → List (Datum × Value)
  | [] => []
  | (key, item) :: rest => (key, Value.unplaced item) :: Value.unplacedEntries rest

/-- An annotation without its place and those of the tags in it. -/
def Node.unplaced : Node → Node
  | ⟨tag, attributes, children, _, _⟩ =>
      ⟨tag, Value.unplacedEntries attributes, Node.unplacedNodes children, 0, 0⟩

/-- Annotations without their places. -/
def Node.unplacedNodes : List Node → List Node
  | [] => []
  | node :: rest => Node.unplaced node :: Node.unplacedNodes rest

end

section Lists

variable {constants : Constants} {depth : Nat}

theorem Value.allPrintable_iff {items : List Value} :
    Value.AllPrintable constants items ↔ ∀ item ∈ items, item.Printable constants := by
  induction items with
  | nil => simp [Value.AllPrintable]
  | cons item rest ih => simp [Value.AllPrintable, ih]

theorem Value.entriesPrintable_iff {entries : List (Datum × Value)} :
    Value.EntriesPrintable constants entries ↔ ∀ entry ∈ entries, entry.2.Printable constants := by
  induction entries with
  | nil => simp [Value.EntriesPrintable]
  | cons entry rest ih => simp [Value.EntriesPrintable, ih]

theorem Node.allPrintable_iff {nodes : List Node} :
    Node.AllPrintable constants nodes ↔ ∀ node ∈ nodes, node.Printable constants := by
  induction nodes with
  | nil => simp [Node.AllPrintable]
  | cons node rest ih => simp [Node.AllPrintable, ih]

theorem Value.nestingOfItems_le_iff {items : List Value} :
    Value.nestingOfItems items ≤ depth ↔ ∀ item ∈ items, item.nesting ≤ depth := by
  induction items with
  | nil => simp [Value.nestingOfItems]
  | cons item rest ih => rw [Value.nestingOfItems, Nat.max_le, ih, List.forall_mem_cons]

theorem Value.nestingOfEntries_le_iff {entries : List (Datum × Value)} :
    Value.nestingOfEntries entries ≤ depth ↔ ∀ entry ∈ entries, entry.2.nesting ≤ depth := by
  induction entries with
  | nil => simp [Value.nestingOfEntries]
  | cons entry rest ih => rw [Value.nestingOfEntries, Nat.max_le, ih, List.forall_mem_cons]

theorem Node.nestingOfNodes_le_iff {nodes : List Node} :
    Node.nestingOfNodes nodes ≤ depth ↔ ∀ node ∈ nodes, node.nesting ≤ depth := by
  induction nodes with
  | nil => simp [Node.nestingOfNodes]
  | cons node rest ih => rw [Node.nestingOfNodes, Nat.max_le, ih, List.forall_mem_cons]

@[simp] theorem Value.unplacedItems_eq_map (items : List Value) :
    Value.unplacedItems items = items.map Value.unplaced := by
  induction items with
  | nil => rfl
  | cons item rest ih => rw [Value.unplacedItems, ih, List.map_cons]

@[simp] theorem Value.unplacedEntries_eq_map (entries : List (Datum × Value)) :
    Value.unplacedEntries entries = entries.map fun entry => (entry.1, entry.2.unplaced) := by
  induction entries with
  | nil => rfl
  | cons entry rest ih => rw [Value.unplacedEntries, ih, List.map_cons]

@[simp] theorem Node.unplacedNodes_eq_map (nodes : List Node) :
    Node.unplacedNodes nodes = nodes.map Node.unplaced := by
  induction nodes with
  | nil => rfl
  | cons node rest ih => rw [Node.unplacedNodes, ih, List.map_cons]

/-- Texts of values, paired with the values. -/
theorem Value.PrintEach.exists_pairs {items : List Value} {pieces : List (List Char)}
    (h : Value.PrintEach items pieces) : ∃ pairs : List (Value × List Char),
      pairs.map (·.1) = items ∧ pairs.map (·.2) = pieces ∧ ∀ pair ∈ pairs, pair.1.Prints pair.2 := by
  induction items generalizing pieces with
  | nil => exact ⟨[], rfl, h.symm, by simp⟩
  | cons item rest ih =>
      obtain ⟨piece, later, rfl, hpiece, hlater⟩ := h
      obtain ⟨pairs, rfl, rfl, hpairs⟩ := ih hlater
      exact ⟨(item, piece) :: pairs, rfl, rfl, List.forall_mem_cons.mpr ⟨hpiece, hpairs⟩⟩

/-- Texts of entries, paired with the entries. -/
theorem Value.PrintEntries.exists_pairs {spells : Datum → List Char → Prop} {marks : List Char}
    {entries : List (Datum × Value)} {pieces : List (List Char)}
    (h : Value.PrintEntries spells marks entries pieces) :
    ∃ pairs : List ((Datum × Value) × List Char), pairs.map (·.1) = entries ∧
      pairs.map (·.2) = pieces ∧ ∀ pair ∈ pairs, ∃ value, pair.1.2.Prints value ∧
        Keyed spells marks pair.1.1 value pair.2 := by
  induction entries generalizing pieces with
  | nil => exact ⟨[], rfl, h.symm, by simp⟩
  | cons entry rest ih =>
      obtain ⟨value, piece, later, rfl, hvalue, hpiece, hlater⟩ := h
      obtain ⟨pairs, rfl, rfl, hpairs⟩ := ih hlater
      exact ⟨(entry, piece) :: pairs, rfl, rfl,
        List.forall_mem_cons.mpr ⟨⟨value, hvalue, hpiece⟩, hpairs⟩⟩

/-- Texts of annotations, paired with the annotations. -/
theorem Node.PrintEach.exists_pairs {nodes : List Node} {pieces : List (List Char)}
    (h : Node.PrintEach nodes pieces) : ∃ pairs : List (Node × List Char),
      pairs.map (·.1) = nodes ∧ pairs.map (·.2) = pieces ∧ ∀ pair ∈ pairs, pair.1.Prints pair.2 := by
  induction nodes generalizing pieces with
  | nil => exact ⟨[], rfl, h.symm, by simp⟩
  | cons node rest ih =>
      obtain ⟨piece, later, rfl, hpiece, hlater⟩ := h
      obtain ⟨pairs, rfl, rfl, hpairs⟩ := ih hlater
      exact ⟨(node, piece) :: pairs, rfl, rfl, List.forall_mem_cons.mpr ⟨hpiece, hpairs⟩⟩

end Lists

end Annotation

end DocCompiler
