import DocCompiler.Proofs.Annotation.Substitution
import DocCompiler.Proofs.Data.Sorted

/-!
Annotations up to the order of entries. What is read with two tables of constants that differ in the
order of entries only differs in the order of entries only.
-/

namespace DocCompiler.Annotation

mutual

/-- A value with the entries of all mappings in it in the order of their keys. -/
def Value.sorted : Value → Value
  | .leaf kind data => .leaf kind data
  | .array items => .array (Value.sortedItems items)
  | .mapping entries => .mapping ((Value.sortedEntries entries).mergeSort Datum.entryLe)
  | .tag node => .tag (Node.sorted node)

/-- Items with the entries of all mappings in order. -/
def Value.sortedItems : List Value → List Value
  | [] => []
  | item :: rest => Value.sorted item :: Value.sortedItems rest

/-- Entries whose values have the entries of all mappings in order. -/
def Value.sortedEntries : List (Datum × Value) → List (Datum × Value)
  | [] => []
  | (key, item) :: rest => (key, Value.sorted item) :: Value.sortedEntries rest

/-- An annotation with the entries of all mappings in it in the order of their keys. -/
def Node.sorted : Node → Node
  | ⟨tag, attributes, children, line, column⟩ =>
      ⟨tag, Value.sortedEntries attributes, Node.sortedNodes children, line, column⟩

/-- Annotations with the entries of all mappings in order. -/
def Node.sortedNodes : List Node → List Node
  | [] => []
  | node :: rest => Node.sorted node :: Node.sortedNodes rest

end

theorem Value.sortedItems_eq_map (items : List Value) :
    Value.sortedItems items = items.map Value.sorted := by
  induction items with
  | nil => rfl
  | cons item rest ih => rw [Value.sortedItems, ih, List.map_cons]

theorem Value.sortedEntries_eq_map (entries : List (Datum × Value)) :
    Value.sortedEntries entries = entries.map fun entry => (entry.1, entry.2.sorted) := by
  induction entries with
  | nil => rfl
  | cons entry rest ih => rw [Value.sortedEntries, ih, List.map_cons]

/-- The value of a constant. -/
def lifted (datum : Datum) : Value :=
  (Value.ofDatum datum).toOption.getD .null

theorem lifted_of_ofDatum {datum : Datum} {value : Value} (h : Value.ofDatum datum = .ok value) :
    lifted datum = value := by
  rw [lifted, h]
  rfl

mutual

/-- A plain value can be lifted. -/
theorem ofDatum_of_plain : (datum : Datum) → datum.Plain → Value.ofDatum datum = .ok (lifted datum)
  | .null, _ | .bool _, _ | .number _, _ | .text _, _ => rfl
  | .list items, h => by
      have hitems := ofDatumItems_of_plain items h
      have hlist : Value.ofDatum (.list items) = .ok (.array (items.map lifted)) := by
        rw [Value.ofDatum, hitems]
        rfl
      rw [lifted_of_ofDatum hlist, hlist]
  | .map entries, h => by
      have hentries := ofDatumEntries_of_plain entries h
      have hmap : Value.ofDatum (.map entries) =
          .ok (.mapping (entries.map fun entry => (entry.1, lifted entry.2))) := by
        rw [Value.ofDatum, hentries]
        rfl
      rw [lifted_of_ofDatum hmap, hmap]

theorem ofDatumItems_of_plain : (items : List Datum) → Datum.AllPlain items →
    Value.ofDatumItems items = .ok (items.map lifted)
  | [], _ => rfl
  | item :: rest, h => by
      rw [Value.ofDatumItems, ofDatum_of_plain item h.1, ofDatumItems_of_plain rest h.2]
      rfl

theorem ofDatumEntries_of_plain : (entries : List (Datum × Datum)) → Datum.EntriesPlain entries →
    Value.ofDatumEntries entries = .ok (entries.map fun entry => (entry.1, lifted entry.2))
  | [], _ => rfl
  | (key, item) :: rest, h => by
      obtain ⟨name, rfl⟩ := h.1
      rw [Value.ofDatumEntries, ofDatum_of_plain item h.2.1, ofDatumEntries_of_plain rest h.2.2]
      rfl

end

theorem lifted_list {items : List Datum} (h : Datum.AllPlain items) :
    lifted (.list items) = .array (items.map lifted) := by
  refine lifted_of_ofDatum ?_
  rw [Value.ofDatum, ofDatumItems_of_plain items h]
  rfl

theorem lifted_map {entries : List (Datum × Datum)} (h : Datum.EntriesPlain entries) :
    lifted (.map entries) = .mapping (entries.map fun entry => (entry.1, lifted entry.2)) := by
  refine lifted_of_ofDatum ?_
  rw [Value.ofDatum, ofDatumEntries_of_plain entries h]
  rfl

mutual

/-- Entries are sorted before or after a value is lifted. -/
theorem lifted_sorted : (datum : Datum) → datum.Plain → lifted datum.sorted = (lifted datum).sorted
  | .null, _ | .bool _, _ | .number _, _ | .text _, _ => rfl
  | .list items, h => by
      rw [Datum.sorted, lifted_list (Datum.allPlain_sorted items h), lifted_list h, Value.sorted,
        lifted_sortedItems items h]
  | .map entries, h => by
      have hsorted : Datum.EntriesPlain ((Datum.sortedEntries entries).mergeSort Datum.entryLe) :=
        Datum.Plain.sorted (.map entries) h
      rw [Datum.sorted, lifted_map hsorted, lifted_map h, Value.sorted, ← Datum.mergeSort_map_entries,
        lifted_sortedEntries entries h]

theorem lifted_sortedItems : (items : List Datum) → Datum.AllPlain items →
    (Datum.sortedItems items).map lifted = Value.sortedItems (items.map lifted)
  | [], _ => rfl
  | item :: rest, h => by
      rw [Datum.sortedItems, List.map_cons, lifted_sorted item h.1, lifted_sortedItems rest h.2]
      rfl

theorem lifted_sortedEntries : (entries : List (Datum × Datum)) → Datum.EntriesPlain entries →
    ((Datum.sortedEntries entries).map fun entry => (entry.1, lifted entry.2)) =
      Value.sortedEntries (entries.map fun entry => (entry.1, lifted entry.2))
  | [], _ => rfl
  | (key, item) :: rest, h => by
      rw [Datum.sortedEntries, List.map_cons, lifted_sorted item h.2.1, lifted_sortedEntries rest h.2.2]
      rfl

end

section Tables

variable {constants others : Constants}

/-- What a table has for a constant, up to the order of entries. -/
def AgreeOn (constants others : Constants) : Prop :=
  ∀ name, (constantValue constants name).sorted = (constantValue others name).sorted

mutual

/-- Values of tables that agree up to the order of entries make annotations that agree so. -/
theorem Value.sorted_substitute (h : AgreeOn constants others) :
    (value : Value) → (value.substitute constants).sorted = (value.substitute others).sorted
  | .leaf kind data => by
      unfold Value.substitute
      split
      · exact h _
      · rfl
  | .array items => by
      rw [Value.substitute, Value.substitute, Value.sorted, Value.sorted, Value.sortedItems_substitute h items]
  | .mapping entries => by
      rw [Value.substitute, Value.substitute, Value.sorted, Value.sorted,
        Value.sortedEntries_substitute h entries]
  | .tag node => by
      rw [Value.substitute, Value.substitute, Value.sorted, Value.sorted, Node.sorted_substitute h node]

theorem Value.sortedItems_substitute (h : AgreeOn constants others) :
    (items : List Value) → Value.sortedItems (Value.substituteItems constants items) =
      Value.sortedItems (Value.substituteItems others items)
  | [] => rfl
  | item :: rest => by
      simp only [Value.substituteItems, Value.sortedItems]
      rw [Value.sorted_substitute h item, Value.sortedItems_substitute h rest]

theorem Value.sortedEntries_substitute (h : AgreeOn constants others) :
    (entries : List (Datum × Value)) → Value.sortedEntries (Value.substituteEntries constants entries) =
      Value.sortedEntries (Value.substituteEntries others entries)
  | [] => rfl
  | (key, item) :: rest => by
      simp only [Value.substituteEntries, Value.sortedEntries]
      rw [Value.sorted_substitute h item, Value.sortedEntries_substitute h rest]

theorem Node.sorted_substitute (h : AgreeOn constants others) :
    (node : Node) → (node.substitute constants).sorted = (node.substitute others).sorted
  | ⟨tag, attributes, children, line, column⟩ => by
      rw [Node.substitute, Node.substitute, Node.sorted, Node.sorted,
        Value.sortedEntries_substitute h attributes, Node.sortedNodes_substitute h children]

theorem Node.sortedNodes_substitute (h : AgreeOn constants others) :
    (nodes : List Node) → Node.sortedNodes (Node.substituteNodes constants nodes) =
      Node.sortedNodes (Node.substituteNodes others nodes)
  | [] => rfl
  | node :: rest => by
      simp only [Node.substituteNodes, Node.sortedNodes]
      rw [Node.sorted_substitute h node, Node.sortedNodes_substitute h rest]

end

theorem liftable_of_plain (h : ∀ entry ∈ constants, entry.2.Plain) : ∀ entry ∈ constants, Liftable entry.2 :=
  fun entry hentry => ⟨_, ofDatum_of_plain entry.2 (h entry hentry)⟩

/-- What is read, up to the order of entries. -/
def sortedParse (found : List Node × List ParseError) : List Node × List ParseError :=
  (found.1.map Node.sorted, found.2)

/-- Reading with tables that agree up to the order of entries gives what agrees so. -/
theorem sortedParse_eq (hconstants : ∀ entry ∈ constants, entry.2.Plain)
    (hothers : ∀ entry ∈ others, entry.2.Plain) (h : AgreeOn constants others) (block : Block) :
    (parse constants block).map sortedParse = (parse others block).map sortedParse := by
  rw [parse_of_liftable (liftable_of_plain hconstants), parse_of_liftable (liftable_of_plain hothers)]
  cases parse [] block with
  | error number => rfl
  | ok found =>
      simp only [Except.map, sortedParse, List.map_map]
      congr 3
      exact funext fun node => Node.sorted_substitute h node

mutual

/-- Tables with the same values put the same values in. -/
theorem Value.substitute_congr (h : ∀ name, constantValue constants name = constantValue others name) :
    (value : Value) → value.substitute constants = value.substitute others
  | .leaf kind data => by
      unfold Value.substitute
      split
      · exact h _
      · rfl
  | .array items => by rw [Value.substitute, Value.substitute, Value.substituteItems_congr h items]
  | .mapping entries => by rw [Value.substitute, Value.substitute, Value.substituteEntries_congr h entries]
  | .tag node => by rw [Value.substitute, Value.substitute, Node.substitute_congr h node]

theorem Value.substituteItems_congr (h : ∀ name, constantValue constants name = constantValue others name) :
    (items : List Value) → Value.substituteItems constants items = Value.substituteItems others items
  | [] => rfl
  | item :: rest => by
      rw [Value.substituteItems, Value.substituteItems, Value.substitute_congr h item,
        Value.substituteItems_congr h rest]

theorem Value.substituteEntries_congr (h : ∀ name, constantValue constants name = constantValue others name) :
    (entries : List (Datum × Value)) →
      Value.substituteEntries constants entries = Value.substituteEntries others entries
  | [] => rfl
  | (key, item) :: rest => by
      rw [Value.substituteEntries, Value.substituteEntries, Value.substitute_congr h item,
        Value.substituteEntries_congr h rest]

theorem Node.substitute_congr (h : ∀ name, constantValue constants name = constantValue others name) :
    (node : Node) → node.substitute constants = node.substitute others
  | ⟨tag, attributes, children, line, column⟩ => by
      rw [Node.substitute, Node.substitute, Value.substituteEntries_congr h attributes,
        Node.substituteNodes_congr h children]

theorem Node.substituteNodes_congr (h : ∀ name, constantValue constants name = constantValue others name) :
    (nodes : List Node) → Node.substituteNodes constants nodes = Node.substituteNodes others nodes
  | [] => rfl
  | node :: rest => by
      rw [Node.substituteNodes, Node.substituteNodes, Node.substitute_congr h node,
        Node.substituteNodes_congr h rest]

end

/-- Reading depends on the values of a table only. -/
theorem parse_congr (hconstants : ∀ entry ∈ constants, entry.2.Plain)
    (hothers : ∀ entry ∈ others, entry.2.Plain)
    (h : ∀ name, constantValue constants name = constantValue others name) (block : Block) :
    parse constants block = parse others block := by
  rw [parse_of_liftable (liftable_of_plain hconstants), parse_of_liftable (liftable_of_plain hothers)]
  rw [funext (Node.substitute_congr h)]

end Tables

end DocCompiler.Annotation
