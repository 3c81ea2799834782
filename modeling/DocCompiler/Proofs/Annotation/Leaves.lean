import DocCompiler.Annotation.Tree

/-!
Conditions on the leaves of annotation trees. What is read from a source has leaves whose data fit
their kinds.
-/

namespace DocCompiler.Annotation

/-- The data that leaves of a kind have when they are read from a source. A text may have code points
that are no characters. -/
def LeafKind.Fits : LeafKind → Datum → Prop
  | .string, data => ∃ points, data = .ofCodes points
  | .number, data => ∃ number, data = .number number
  | .boolean, data => ∃ value, data = .bool value
  | .null, data => data = .null
  | .constant, data => ∃ name, data = .text name

section Leaves

variable (admits : LeafKind → Datum → Prop)

mutual

/-- All leaves of a value are admitted. -/
def Value.Leaves : Value → Prop
  | .leaf kind data => admits kind data
  | .array items => Value.AllLeaves items
  | .mapping entries => Value.EntryLeaves entries
  | .tag node => Node.Leaves node

/-- All leaves of values are admitted. -/
def Value.AllLeaves : List Value → Prop
  | [] => True
  | item :: rest => Value.Leaves item ∧ Value.AllLeaves rest

/-- All leaves of the values of entries are admitted. -/
def Value.EntryLeaves : List (Datum × Value) → Prop
  | [] => True
  | (_, item) :: rest => Value.Leaves item ∧ Value.EntryLeaves rest

/-- All leaves of an annotation are admitted. -/
def Node.Leaves : Node → Prop
  | ⟨_, attributes, children, _, _⟩ => Value.EntryLeaves attributes ∧ Node.AllLeaves children

/-- All leaves of annotations are admitted. -/
def Node.AllLeaves : List Node → Prop
  | [] => True
  | node :: rest => Node.Leaves node ∧ Node.AllLeaves rest

end

theorem Value.allLeaves_iff {items : List Value} :
    Value.AllLeaves admits items ↔ ∀ item ∈ items, item.Leaves admits := by
  induction items with
  | nil => simp [Value.AllLeaves]
  | cons item rest ih => simp [Value.AllLeaves, ih]

theorem Value.entryLeaves_iff {entries : List (Datum × Value)} :
    Value.EntryLeaves admits entries ↔ ∀ entry ∈ entries, entry.2.Leaves admits := by
  induction entries with
  | nil => simp [Value.EntryLeaves]
  | cons entry rest ih => simp [Value.EntryLeaves, ih]

theorem Node.allLeaves_iff {nodes : List Node} :
    Node.AllLeaves admits nodes ↔ ∀ node ∈ nodes, node.Leaves admits := by
  induction nodes with
  | nil => simp [Node.AllLeaves]
  | cons node rest ih => simp [Node.AllLeaves, ih]

theorem Node.leaves_iff {node : Node} :
    node.Leaves admits ↔ (∀ entry ∈ node.attributes, entry.2.Leaves admits) ∧
      ∀ child ∈ node.children, child.Leaves admits := by
  rcases node with ⟨tag, attributes, children, line, column⟩
  simp [Node.Leaves, Value.entryLeaves_iff, Node.allLeaves_iff]

mutual

theorem Value.leaves_of_forall (h : ∀ kind data, admits kind data) :
    (value : Value) → value.Leaves admits
  | .leaf kind data => h kind data
  | .array items => Value.allLeaves_of_forall h items
  | .mapping entries => Value.entryLeaves_of_forall h entries
  | .tag node => Node.leaves_of_forall h node

theorem Value.allLeaves_of_forall (h : ∀ kind data, admits kind data) :
    (items : List Value) → Value.AllLeaves admits items
  | [] => trivial
  | item :: rest => ⟨Value.leaves_of_forall h item, Value.allLeaves_of_forall h rest⟩

theorem Value.entryLeaves_of_forall (h : ∀ kind data, admits kind data) :
    (entries : List (Datum × Value)) → Value.EntryLeaves admits entries
  | [] => trivial
  | (_, item) :: rest => ⟨Value.leaves_of_forall h item, Value.entryLeaves_of_forall h rest⟩

theorem Node.leaves_of_forall (h : ∀ kind data, admits kind data) : (node : Node) → node.Leaves admits
  | ⟨_, attributes, children, _, _⟩ =>
      ⟨Value.entryLeaves_of_forall h attributes, Node.allLeaves_of_forall h children⟩

theorem Node.allLeaves_of_forall (h : ∀ kind data, admits kind data) :
    (nodes : List Node) → Node.AllLeaves admits nodes
  | [] => trivial
  | node :: rest => ⟨Node.leaves_of_forall h node, Node.allLeaves_of_forall h rest⟩

end

/-- The names of a declaration and all leaves of a block are admitted. -/
structure AnnotatedBlock.Leaves (block : AnnotatedBlock) : Prop where
  name : admits .string block.symbol.name
  qualifiedName : admits .string block.symbol.qualifiedName
  nodes : ∀ node ∈ block.nodes, node.Leaves admits

/-- All leaves of a unit are admitted. -/
def AnnotatedUnit.Leaves (unit : AnnotatedUnit) : Prop :=
  ∀ block ∈ unit.blocks, block.Leaves admits

theorem AnnotatedUnit.leaves_of_forall (h : ∀ kind data, admits kind data) (unit : AnnotatedUnit) :
    unit.Leaves admits :=
  fun _ _ => ⟨h _ _, h _ _, fun node _ => Node.leaves_of_forall admits h node⟩

end Leaves

/-- A unit as it is read from a source: its leaves have data of their kinds, its declarations have
texts as names. -/
def AnnotatedUnit.WellTyped (unit : AnnotatedUnit) : Prop :=
  unit.Leaves LeafKind.Fits

end DocCompiler.Annotation
