import DocCompiler.Annotation.Record
import DocCompiler.Proofs.Data.Result
import DocCompiler.Proofs.Json.Roundtrip

/-!
Annotated units as they are kept between runs. A unit is read back from the JSON text of its plain value,
in every layout and with the keys of its records in any order of the layout.
-/

namespace DocCompiler

open Json

namespace Datum

/-- A text that can be read back, or the absent value. -/
def OptionalText (value : Datum) : Prop :=
  value = .null ∨ value.LegibleText

theorem OptionalText.legible {value : Datum} (h : value.OptionalText) : value.Legible := by
  obtain rfl | h := h
  · trivial
  · exact h.legible

theorem LegibleText.sorted {value : Datum} (h : value.LegibleText) : value.sorted = value := by
  match value, h with
  | .text _, _ | .codes _, _ => rfl

theorem OptionalText.sorted {value : Datum} (h : value.OptionalText) : value.sorted = value := by
  obtain rfl | h := h
  · rfl
  · exact h.sorted

theorem height_le_itemsHeight {items : List Datum} {item : Datum} (h : item ∈ items) :
    item.height ≤ itemsHeight items := by
  induction items with
  | nil => cases h
  | cons first rest ih =>
      rw [itemsHeight]
      obtain rfl | h := List.mem_cons.mp h
      · exact Nat.le_max_left _ _
      · exact (ih h).trans (Nat.le_max_right _ _)

theorem height_le_entriesHeight {entries : List (Datum × Datum)} {entry : Datum × Datum}
    (h : entry ∈ entries) : entry.2.height ≤ entriesHeight entries := by
  induction entries with
  | nil => cases h
  | cons first rest ih =>
      rw [entriesHeight]
      obtain rfl | h := List.mem_cons.mp h
      · exact Nat.le_max_left _ _
      · exact (ih h).trans (Nat.le_max_right _ _)

section Record

variable {fields : List (String × Datum)} (hnames : (fields.map (·.1)).Nodup)

include hnames

theorem nodup_record : ((fields.map fun field => (Datum.text field.1, field.2)).map (·.1)).Nodup := by
  rw [List.map_map]
  have hnodup := hnames.map (f := Datum.text) fun _ _ heq => Datum.text.inj heq
  rwa [List.map_map] at hnodup

theorem legible_record (h : ∀ field ∈ fields, field.2.Legible) : (record fields).Legible := by
  refine ⟨nodup_record hnames, entriesLegible_iff.mpr fun entry hentry => ?_⟩
  obtain ⟨field, hfield, rfl⟩ := List.mem_map.mp hentry
  exact ⟨trivial, h field hfield⟩

variable (style : Style) {name : String} {item : Datum} (hfield : (name, item) ∈ fields)

include hfield

/-- A field of a record is found whatever the order of the entries. -/
theorem found_ordered_record :
    Datum.entry? (style.ordered (record fields)) name = .ok (some (style.ordered item)) := by
  have hperm := (perm_arranged style (fields.map fun field => (Datum.text field.1, field.2)))
  have hdistinct : Distinct ((style.arranged (fields.map fun field => (Datum.text field.1, field.2)))) := by
    refine distinct_of_nodup ?_ ((hperm.map _).nodup_iff.mpr (nodup_record hnames))
    intro key hkey
    obtain ⟨entry, hentry, rfl⟩ := List.mem_map.mp ((hperm.map _).mem_iff.mp hkey)
    obtain ⟨field, -, rfl⟩ := List.mem_map.mp hentry
    trivial
  have hmem : (Datum.text name, item) ∈ style.arranged (fields.map fun field => (Datum.text field.1, field.2)) :=
    hperm.mem_iff.mpr (List.mem_map.mpr ⟨(name, item), hfield, rfl⟩)
  rw [record, ordered_map, entry?, lookup_map, lookup_eq_some_of_mem hdistinct hmem]
  rfl

theorem entry_ordered_record : (style.ordered (record fields)).entry name = .ok (style.ordered item) := by
  have hfound := found_ordered_record hnames style hfield
  rw [record, ordered_map] at hfound ⊢
  unfold entry? at hfound
  rw [Except.ok.injEq] at hfound
  rw [entry, hfound]

omit hnames in
/-- A field of a record has fewer levels than the record. -/
theorem height_ordered_field : (style.ordered item).height < (style.ordered (record fields)).height := by
  have hperm := (perm_arranged style (fields.map fun field => (Datum.text field.1, field.2)))
  have hmem : (Datum.text name, item) ∈ style.arranged (fields.map fun field => (Datum.text field.1, field.2)) :=
    hperm.mem_iff.mpr (List.mem_map.mpr ⟨(name, item), hfield, rfl⟩)
  rw [record, ordered_map, height]
  have hle := height_le_entriesHeight (List.mem_map.mpr ⟨_, hmem, rfl⟩ : (Datum.text name, style.ordered item) ∈
    (style.arranged (fields.map fun field => (Datum.text field.1, field.2))).map fun entry =>
      (entry.1, style.ordered entry.2))
  exact Nat.lt_one_add_iff.mpr hle

end Record

end Datum

namespace Annotation

/-- The data that leaves of a kind have, with texts and numbers that are read back from their JSON texts. -/
def LeafKind.Storable : LeafKind → Datum → Prop
  | .string, data | .constant, data => data.LegibleText
  | .number, data => ∃ number : Number, data = .number number ∧ number.isWritable = true ∧ number.Canonical
  | .boolean, data => ∃ value, data = .bool value
  | .null, data => data = .null

mutual

/-- A value whose leaves have data of their kinds, with texts as keys and tags. -/
def Value.Storable : Value → Prop
  | .leaf kind data => kind.Storable data
  | .array items => Value.AllStorable items
  | .mapping entries => Value.EntriesStorable entries
  | .tag node => Node.Storable node

/-- Values with data of their kinds. -/
def Value.AllStorable : List Value → Prop
  | [] => True
  | item :: rest => Value.Storable item ∧ Value.AllStorable rest

/-- Entries with texts as keys and values with data of their kinds. -/
def Value.EntriesStorable : List (Datum × Value) → Prop
  | [] => True
  | (key, item) :: rest => key.LegibleText ∧ Value.Storable item ∧ Value.EntriesStorable rest

/-- An annotation with texts as tags and keys and values with data of their kinds, whose place has a
decimal text. -/
def Node.Storable : Node → Prop
  | ⟨tag, attributes, children, line, column⟩ =>
      tag.LegibleText ∧ Value.EntriesStorable attributes ∧ Node.AllStorable children ∧
        (Number.int line).isWritable = true ∧ (Number.int column).isWritable = true

/-- Annotations with texts as tags and keys and values with data of their kinds. -/
def Node.AllStorable : List Node → Prop
  | [] => True
  | node :: rest => Node.Storable node ∧ Node.AllStorable rest

end

theorem LeafKind.Storable.legible {kind : LeafKind} {data : Datum} (h : kind.Storable data) :
    data.Legible ∧ data.sorted = data := by
  cases kind with
  | string | constant => exact ⟨Datum.LegibleText.legible h, Datum.LegibleText.sorted h⟩
  | number =>
      obtain ⟨number, rfl, hnumber⟩ := h
      exact ⟨hnumber, rfl⟩
  | boolean =>
      obtain ⟨value, rfl⟩ := h
      exact ⟨trivial, rfl⟩
  | null =>
      obtain rfl := h
      exact ⟨trivial, rfl⟩

theorem legible_kinded {kind : ValueKind} {data : Datum} (h : data.Legible) :
    (Value.record.kinded kind data).Legible := by
  refine Datum.legible_record (by simp) (List.forall_mem_cons.mpr ⟨trivial, ?_⟩)
  exact List.forall_mem_singleton.mpr h

mutual

/-- The plain value of a value can be read back from its text. -/
theorem Value.legible_record : (value : Value) → value.Storable → value.record.Legible
  | .leaf _ _, h => by
      rw [Value.record]
      exact legible_kinded h.legible.1
  | .array items, h => by
      rw [Value.record]
      exact @legible_kinded .array _ (Value.legible_recordItems items h)
  | .mapping entries, h => by
      rw [Value.record]
      exact @legible_kinded .mapping _ (Value.legible_recordEntries entries h)
  | .tag node, h => by
      rw [Value.record]
      exact legible_kinded (Node.legible_record node h)

theorem Value.legible_recordItems : (items : List Value) → Value.AllStorable items →
    Datum.AllLegible (recordItems items)
  | [], _ => trivial
  | item :: rest, h => ⟨Value.legible_record item h.1, Value.legible_recordItems rest h.2⟩

theorem Value.legible_recordEntries : (entries : List (Datum × Value)) → Value.EntriesStorable entries →
    Datum.AllLegible (recordEntries entries)
  | [], _ => trivial
  | (_, item) :: rest, h =>
      ⟨⟨h.1.legible, Value.legible_record item h.2.1, trivial⟩, Value.legible_recordEntries rest h.2.2⟩

theorem Node.legible_record : (node : Node) → node.Storable → node.record.Legible
  | ⟨tag, attributes, children, line, column⟩, ⟨htag, hattributes, hchildren, hline, hcolumn⟩ => by
      rw [Node.record]
      refine Datum.legible_record (by simp) ?_
      simp only [List.forall_mem_cons]
      exact ⟨htag.legible, ⟨hline, trivial⟩, ⟨hcolumn, trivial⟩, Value.legible_recordEntries attributes hattributes,
        Node.legible_recordNodes children hchildren, by simp⟩

theorem Node.legible_recordNodes : (nodes : List Node) → Node.AllStorable nodes →
    Datum.AllLegible (recordNodes nodes)
  | [], _ => trivial
  | node :: rest, h => ⟨Node.legible_record node h.1, Node.legible_recordNodes rest h.2⟩

end

section Read

variable {style : Style}

theorem ofName?_name (kind : ValueKind) : ValueKind.ofName? kind.name = some kind := by
  cases kind with
  | leaf kind => cases kind <;> rfl
  | _ => rfl

theorem readNamed_text {α : Type} {ofName? : String → Option α} {name : String} {value : α}
    (h : ofName? name = some value) : readNamed ofName? (style.ordered (.text name)) = .ok value := by
  rw [ordered_of_sorted rfl, readNamed, h]

theorem members_ordered_list (items : List Datum) :
    (style.ordered (.list items)).members = .ok (items.map style.ordered) := by
  rw [ordered_list]
  rfl

theorem readEntry_ordered {read : Datum → Except ShapeError Value} {key : Datum} (hkey : key.LegibleText)
    {value : Value} (h : read (style.ordered value.record) = .ok value) :
    readEntry read (style.ordered (.list [key, value.record])) = .ok (key, value) := by
  rw [ordered_list, readEntry]
  simp only [List.map_cons, List.map_nil, ordered_of_sorted hkey.sorted]
  change (read (style.ordered value.record) >>= fun item => pure (key, item)) = _
  rw [h]
  rfl

section Fields

variable {fields : List (String × Datum)} (hnames : (fields.map (·.1)).Nodup) {name : String}

include hnames

theorem optional_ordered {item : Datum} (hfield : (name, item) ∈ fields) :
    optional (style.ordered (.record fields)) name = .ok (style.ordered item) := by
  rw [optional, Datum.found_ordered_record hnames style hfield]
  rfl

theorem several_ordered {items : List Datum} (hfield : (name, .list items) ∈ fields) :
    several (style.ordered (.record fields)) name = .ok (items.map style.ordered) := by
  rw [several, Datum.found_ordered_record hnames style hfield]
  exact members_ordered_list items

end Fields

theorem exists_depth {value : Datum} {depth : Nat} (h : value.height ≤ depth) : ∃ less, depth = less + 1 := by
  have hpos : 0 < value.height := by
    cases value <;> simp only [Datum.height] <;> omega
  exact ⟨depth - 1, by omega⟩

theorem height_member {items : List Datum} {item : Datum} (h : item ∈ items) :
    (style.ordered item).height < (style.ordered (.list items)).height := by
  rw [ordered_list, Datum.height]
  exact Nat.lt_one_add_iff.mpr (Datum.height_le_itemsHeight (List.mem_map.mpr ⟨item, h, rfl⟩))

theorem height_tail (item : Datum) (items : List Datum) :
    (style.ordered (.list items)).height ≤ (style.ordered (.list (item :: items))).height := by
  rw [ordered_list, ordered_list, List.map_cons, Datum.height, Datum.height, Datum.itemsHeight]
  exact Nat.add_le_add_left (Nat.le_max_right _ _) 1

theorem height_data {kind : ValueKind} {data : Datum} {depth : Nat}
    (h : (style.ordered (Value.record.kinded kind data)).height ≤ depth + 1) :
    (style.ordered data).height ≤ depth := by
  have hdata : ("data", data) ∈ [("kind", Datum.text kind.name), ("data", data)] := by simp
  exact Nat.le_of_lt_succ ((Datum.height_ordered_field style hdata).trans_le h)

/-- A kind with its data is read by what the kind calls for. -/
theorem readValue_kinded {kind : ValueKind} {data : Datum} {depth : Nat} {value : Value}
    (h : (match kind with
      | .leaf kind => return .leaf kind (style.ordered data)
      | .array => return .array (← (← (style.ordered data).members).mapM (readValue depth))
      | .mapping => return .mapping (← (← (style.ordered data).members).mapM (readEntry (readValue depth)))
      | .tag => return .tag (← readNode depth (style.ordered data))) = Except.ok value) :
    readValue (depth + 1) (style.ordered (Value.record.kinded kind data)) = .ok value := by
  have hkind : ("kind", Datum.text kind.name) ∈ [("kind", Datum.text kind.name), ("data", data)] := by simp
  have hdata : ("data", data) ∈ [("kind", Datum.text kind.name), ("data", data)] := by simp
  rw [readValue, Value.record.kinded, Datum.entry_ordered_record (by simp) style hkind,
    optional_ordered (by simp) hdata]
  simp only [bind, Except.bind, readNamed_text (ofName?_name kind)]
  exact h

/-- The fields of an annotation as a plain value. -/
def nodeFields (tag : Datum) (line column : Int) (attributes children : List Datum) : List (String × Datum) :=
  [("tag", tag), ("line", .int line), ("column", .int column), ("attributes", .list attributes),
    ("children", .list children)]

section Node

variable {tag : Datum} {line column : Int} {attributes children : List Datum}

theorem mem_attributes_nodeFields :
    ("attributes", .list attributes) ∈ nodeFields tag line column attributes children := by
  simp [nodeFields]

theorem mem_children_nodeFields :
    ("children", .list children) ∈ nodeFields tag line column attributes children := by
  simp [nodeFields]

theorem readNode_fields {depth : Nat} {entries : List (Datum × Value)} {nodes : List Node}
    (htag : tag.sorted = tag)
    (hattributes : (attributes.map style.ordered).mapM (readEntry (readValue depth)) = .ok entries)
    (hchildren : (children.map style.ordered).mapM (readNode depth) = .ok nodes) :
    readNode (depth + 1) (style.ordered (.record (nodeFields tag line column attributes children))) =
      .ok ⟨tag, entries, nodes, line, column⟩ := by
  have hnames : ((nodeFields tag line column attributes children).map (·.1)).Nodup := by simp [nodeFields]
  have hmem : ("tag", tag) ∈ nodeFields tag line column attributes children := by simp [nodeFields]
  have hline : ("line", .int line) ∈ nodeFields tag line column attributes children := by simp [nodeFields]
  have hcolumn : ("column", .int column) ∈ nodeFields tag line column attributes children := by
    simp [nodeFields]
  have hint (value : Int) : style.ordered (.int value) = .int value := ordered_of_sorted rfl
  rw [readNode, Datum.entry_ordered_record hnames style hmem, ordered_of_sorted htag,
    several_ordered hnames mem_attributes_nodeFields, several_ordered hnames mem_children_nodeFields,
    Datum.found_ordered_record hnames style hline, Datum.found_ordered_record hnames style hcolumn]
  simp only [bind, Except.bind, hattributes, hchildren, hint]
  rfl

end Node

mutual

theorem readValue_record : (value : Value) → value.Storable → (depth : Nat) →
    (style.ordered value.record).height ≤ depth → readValue depth (style.ordered value.record) = .ok value
  | .leaf kind data, h, depth, hheight => by
      obtain ⟨depth, rfl⟩ := exists_depth hheight
      rw [Value.record]
      refine readValue_kinded ?_
      rw [ordered_of_sorted h.legible.2]
      rfl
  | .array items, h, depth, hheight => by
      obtain ⟨depth, rfl⟩ := exists_depth hheight
      rw [Value.record] at hheight ⊢
      have hread := readItems_record items h depth (height_data hheight)
      refine readValue_kinded ?_
      dsimp only
      rw [members_ordered_list]
      simp only [bind, Except.bind, hread]
      rfl
  | .mapping entries, h, depth, hheight => by
      obtain ⟨depth, rfl⟩ := exists_depth hheight
      rw [Value.record] at hheight ⊢
      have hread := readEntries_record entries h depth (height_data hheight)
      refine readValue_kinded ?_
      dsimp only
      rw [members_ordered_list]
      simp only [bind, Except.bind, hread]
      rfl
  | .tag node, h, depth, hheight => by
      obtain ⟨depth, rfl⟩ := exists_depth hheight
      rw [Value.record] at hheight ⊢
      have hread := readNode_record node h depth (height_data hheight)
      refine readValue_kinded ?_
      dsimp only
      rw [hread]
      rfl

theorem readItems_record : (items : List Value) → Value.AllStorable items → (depth : Nat) →
    (style.ordered (.list (recordItems items))).height ≤ depth →
      ((recordItems items).map style.ordered).mapM (readValue depth) = .ok items
  | [], _, _, _ => rfl
  | item :: rest, h, depth, hheight => by
      rw [recordItems] at hheight ⊢
      have hitem := readValue_record item h.1 depth ((height_member List.mem_cons_self).le.trans hheight)
      have hrest := readItems_record rest h.2 depth ((height_tail _ _).trans hheight)
      rw [List.map_cons, List.mapM_cons, hitem, hrest]
      rfl

theorem readEntries_record : (entries : List (Datum × Value)) → Value.EntriesStorable entries →
    (depth : Nat) → (style.ordered (.list (recordEntries entries))).height ≤ depth →
      ((recordEntries entries).map style.ordered).mapM (readEntry (readValue depth)) = .ok entries
  | [], _, _, _ => rfl
  | (key, item) :: rest, h, depth, hheight => by
      rw [recordEntries] at hheight ⊢
      have hpair : (style.ordered item.record).height < (style.ordered (.list [key, item.record])).height :=
        height_member (by simp)
      have hfirst := (height_member List.mem_cons_self).trans_le hheight
      have hitem := readValue_record item h.2.1 depth (hpair.trans hfirst).le
      have hrest := readEntries_record rest h.2.2 depth ((height_tail _ _).trans hheight)
      rw [List.map_cons, List.mapM_cons, readEntry_ordered h.1 hitem, hrest]
      rfl

theorem readNode_record : (node : Node) → node.Storable → (depth : Nat) →
    (style.ordered node.record).height ≤ depth → readNode depth (style.ordered node.record) = .ok node
  | ⟨tag, attributes, children, line, column⟩, ⟨htag, hattributes, hchildren, _, _⟩, depth, hheight => by
      obtain ⟨depth, rfl⟩ := exists_depth hheight
      have hless {name : String} {item : Datum}
          (hfield : (name, item) ∈ nodeFields tag line column (recordEntries attributes) (recordNodes children)) :=
        Nat.le_of_lt_succ ((Datum.height_ordered_field style hfield).trans_le hheight)
      exact readNode_fields htag.sorted
        (readEntries_record attributes hattributes depth (hless mem_attributes_nodeFields))
        (readNodes_record children hchildren depth (hless mem_children_nodeFields))

theorem readNodes_record : (nodes : List Node) → Node.AllStorable nodes → (depth : Nat) →
    (style.ordered (.list (recordNodes nodes))).height ≤ depth →
      ((recordNodes nodes).map style.ordered).mapM (readNode depth) = .ok nodes
  | [], _, _, _ => rfl
  | node :: rest, h, depth, hheight => by
      rw [recordNodes] at hheight ⊢
      have hnode := readNode_record node h.1 depth ((height_member List.mem_cons_self).le.trans hheight)
      have hrest := readNodes_record rest h.2 depth ((height_tail _ _).trans hheight)
      rw [List.map_cons, List.mapM_cons, hnode, hrest]
      rfl

end

end Read

/-- A declaration with texts as names. -/
structure Symbol.Storable (symbol : Symbol) : Prop where
  name : symbol.name.LegibleText
  qualifiedName : symbol.qualifiedName.LegibleText
  parent : symbol.parent.OptionalText
  declaredType : symbol.declaredType.OptionalText

/-- A whole number that has a decimal text, or the absent value. -/
def Coordinate (value : Datum) : Prop :=
  value = .null ∨ ∃ number : Int, value = .int number ∧ (Number.int number).isWritable = true

theorem Coordinate.legible {value : Datum} (h : Coordinate value) : value.Legible ∧ value.sorted = value := by
  obtain rfl | ⟨number, rfl, hnumber⟩ := h
  · exact ⟨trivial, rfl⟩
  · exact ⟨⟨hnumber, trivial⟩, rfl⟩

/-- A place whose line and column are numbers or absent. -/
structure Place.Storable (place : Place) : Prop where
  line : Coordinate place.line
  column : Coordinate place.column

/-- A diagnostic with a place or without one, whose rule, entity and target are texts or absent. -/
structure Diagnostic.Storable (diagnostic : Diagnostic) : Prop where
  place : ∀ place ∈ diagnostic.place, Place.Storable place
  rule : diagnostic.rule.OptionalText
  entity : diagnostic.entity.OptionalText
  target : diagnostic.target.OptionalText

/-- A unit whose trees, declarations and diagnostics have data of their kinds. -/
structure AnnotatedUnit.Storable (unit : AnnotatedUnit) : Prop where
  symbols : ∀ block ∈ unit.blocks, Symbol.Storable block.symbol
  nodes : ∀ block ∈ unit.blocks, ∀ node ∈ block.nodes, node.Storable
  diagnostics : ∀ diagnostic ∈ unit.diagnostics, Diagnostic.Storable diagnostic

theorem legible_symbolRecord {symbol : Symbol} (h : Symbol.Storable symbol) : (symbolRecord symbol).Legible := by
  refine Datum.legible_record (by simp) ?_
  simp only [List.forall_mem_cons]
  exact ⟨trivial, h.name.legible, h.qualifiedName.legible, h.parent.legible, h.declaredType.legible, by simp⟩

theorem legible_placeRecord {place : Place} (h : Place.Storable place) : (placeRecord place).Legible := by
  refine Datum.legible_record (by simp) ?_
  simp only [List.forall_mem_cons]
  exact ⟨trivial, h.line.legible.1, h.column.legible.1, by simp⟩

theorem legible_diagnosticRecord {diagnostic : Diagnostic} (h : Diagnostic.Storable diagnostic) :
    (diagnosticRecord diagnostic).Legible := by
  have hplace : (diagnostic.place.elim .null placeRecord).Legible := by
    cases hcase : diagnostic.place with
    | none => trivial
    | some place => exact legible_placeRecord (h.place place hcase)
  refine Datum.legible_record (by simp) ?_
  simp only [List.forall_mem_cons]
  exact ⟨trivial, trivial, trivial, hplace, h.rule.legible, h.entity.legible, h.target.legible, by simp⟩

/-- The plain value of a unit can be read back from its text. -/
theorem AnnotatedUnit.legible_record {unit : AnnotatedUnit} (h : unit.Storable) : unit.record.Legible := by
  have hblock (block : AnnotatedBlock) (hblock : block ∈ unit.blocks) :
      (Datum.record [("symbol", symbolRecord block.symbol), ("nodes", .list (block.nodes.map Node.record))]).Legible := by
    refine Datum.legible_record (by simp) ?_
    simp only [List.forall_mem_cons]
    refine ⟨legible_symbolRecord (h.symbols block hblock), Datum.allLegible_iff.mpr ?_, by simp⟩
    exact List.forall_mem_map.mpr fun node hnode => Node.legible_record node (h.nodes block hblock node hnode)
  refine Datum.legible_record (by simp) ?_
  simp only [List.forall_mem_cons]
  refine ⟨trivial, Datum.allLegible_iff.mpr (List.forall_mem_map.mpr hblock), ?_, by simp⟩
  exact Datum.allLegible_iff.mpr (List.forall_mem_map.mpr fun diagnostic hdiagnostic =>
    legible_diagnosticRecord (h.diagnostics diagnostic hdiagnostic))

section ReadUnit

variable {style : Style}

theorem readSymbol_symbolRecord {symbol : Symbol} (h : Symbol.Storable symbol) :
    readSymbol (style.ordered (symbolRecord symbol)) = .ok symbol := by
  generalize hfields : [("kind", Datum.text symbol.kind.name), ("name", symbol.name),
    ("qualified_name", symbol.qualifiedName), ("parent", symbol.parent),
    ("declared_type", symbol.declaredType)] = fields
  have hnames : (fields.map (·.1)).Nodup := by simp [← hfields]
  have hkind : ("kind", Datum.text symbol.kind.name) ∈ fields := by simp [← hfields]
  have hname : ("name", symbol.name) ∈ fields := by simp [← hfields]
  have hqualified : ("qualified_name", symbol.qualifiedName) ∈ fields := by simp [← hfields]
  have hparent : ("parent", symbol.parent) ∈ fields := by simp [← hfields]
  have htype : ("declared_type", symbol.declaredType) ∈ fields := by simp [← hfields]
  have hnamed : SymbolKind.ofName? symbol.kind.name = some symbol.kind := by cases symbol.kind <;> rfl
  rw [symbolRecord, hfields, readSymbol, Datum.entry_ordered_record hnames style hkind,
    Datum.entry_ordered_record hnames style hname, Datum.entry_ordered_record hnames style hqualified,
    optional_ordered hnames hparent, optional_ordered hnames htype, ordered_of_sorted h.name.sorted,
    ordered_of_sorted h.qualifiedName.sorted, ordered_of_sorted h.parent.sorted,
    ordered_of_sorted h.declaredType.sorted]
  simp only [bind, Except.bind, readNamed_text hnamed]
  rfl

theorem readPlace?_placeRecord {place : Place} (h : Place.Storable place) :
    readPlace? (style.ordered (placeRecord place)) = .ok (some place) := by
  generalize hfields : [("path", Datum.text place.path), ("line", place.line), ("column", place.column)] = fields
  have hnames : (fields.map (·.1)).Nodup := by simp [← hfields]
  have hpath : ("path", Datum.text place.path) ∈ fields := by simp [← hfields]
  have hline : ("line", place.line) ∈ fields := by simp [← hfields]
  have hcolumn : ("column", place.column) ∈ fields := by simp [← hfields]
  have hmap : (style.ordered (.record fields)).isMap = true := by
    rw [Datum.record, ordered_map]
    rfl
  rw [placeRecord, hfields, readPlace?, if_pos hmap, Datum.found_ordered_record hnames style hpath,
    optional_ordered hnames hline, optional_ordered hnames hcolumn, ordered_of_sorted h.line.legible.2,
    ordered_of_sorted h.column.legible.2, ordered_of_sorted rfl]
  rfl

theorem readDiagnostic_diagnosticRecord {diagnostic : Diagnostic} (h : Diagnostic.Storable diagnostic) :
    readDiagnostic (style.ordered (diagnosticRecord diagnostic)) = .ok diagnostic := by
  have hplace : readPlace? (style.ordered (diagnostic.place.elim .null placeRecord)) = .ok diagnostic.place := by
    cases hcase : diagnostic.place with
    | none =>
        rw [Option.elim_none, ordered_of_sorted rfl]
        rfl
    | some place => exact readPlace?_placeRecord (h.place place hcase)
  generalize hfields : [("phase", Datum.text diagnostic.phase.name), ("severity", .text diagnostic.severity.name),
    ("message", .text diagnostic.message), ("location", diagnostic.place.elim .null placeRecord),
    ("rule", diagnostic.rule), ("entity", diagnostic.entity), ("target", diagnostic.target)] = fields
  have hnames : (fields.map (·.1)).Nodup := by simp [← hfields]
  have hphase : ("phase", Datum.text diagnostic.phase.name) ∈ fields := by simp [← hfields]
  have hseverity : ("severity", Datum.text diagnostic.severity.name) ∈ fields := by simp [← hfields]
  have hmessage : ("message", Datum.text diagnostic.message) ∈ fields := by simp [← hfields]
  have hlocation : ("location", diagnostic.place.elim .null placeRecord) ∈ fields := by simp [← hfields]
  have hrule : ("rule", diagnostic.rule) ∈ fields := by simp [← hfields]
  have hentity : ("entity", diagnostic.entity) ∈ fields := by simp [← hfields]
  have htarget : ("target", diagnostic.target) ∈ fields := by simp [← hfields]
  have hphase' : Phase.ofName? diagnostic.phase.name = some diagnostic.phase := by
    cases diagnostic.phase <;> rfl
  have hseverity' : Severity.ofName? diagnostic.severity.name = some diagnostic.severity := by
    cases diagnostic.severity <;> rfl
  have hshown : (style.ordered (.text diagnostic.message)).shown = .ok diagnostic.message := by
    rw [ordered_of_sorted rfl]
    rfl
  rw [diagnosticRecord, hfields, readDiagnostic, optional_ordered hnames hlocation,
    Datum.entry_ordered_record hnames style hphase, Datum.entry_ordered_record hnames style hseverity,
    Datum.entry_ordered_record hnames style hmessage, optional_ordered hnames hrule,
    optional_ordered hnames hentity, optional_ordered hnames htarget, ordered_of_sorted h.rule.sorted,
    ordered_of_sorted h.entity.sorted, ordered_of_sorted h.target.sorted]
  simp only [bind, Except.bind, readNamed_text hphase', readNamed_text hseverity', hshown, hplace]
  rfl

theorem readBlock_record {block : AnnotatedBlock} (hsymbol : Symbol.Storable block.symbol)
    (hnodes : ∀ node ∈ block.nodes, node.Storable) :
    readBlock (style.ordered (.record [("symbol", symbolRecord block.symbol),
      ("nodes", .list (block.nodes.map Node.record))])) = .ok block := by
  generalize hfields : [("symbol", symbolRecord block.symbol),
    ("nodes", Datum.list (block.nodes.map Node.record))] = fields
  have hnames : (fields.map (·.1)).Nodup := by simp [← hfields]
  have hsymbol' : ("symbol", symbolRecord block.symbol) ∈ fields := by simp [← hfields]
  have hnodes' : ("nodes", Datum.list (block.nodes.map Node.record)) ∈ fields := by simp [← hfields]
  have hheight := Datum.height_ordered_field style hnodes'
  have hread : ((block.nodes.map Node.record).map style.ordered).mapM
      (readNode (style.ordered (.record fields)).height) = .ok block.nodes := by
    rw [List.map_map]
    refine Result.mapM_map_eq_ok fun node hnode => readNode_record node (hnodes node hnode) _ ?_
    have hmember : (style.ordered node.record).height < _ :=
      height_member (List.mem_map.mpr ⟨node, hnode, rfl⟩)
    exact (hmember.trans hheight).le
  rw [readBlock, Datum.entry_ordered_record hnames style hsymbol', several_ordered hnames hnodes']
  simp only [bind, Except.bind, readSymbol_symbolRecord hsymbol, hread]
  rfl

/-- A unit is read back from its plain value, with the entries of records in the order of a style. -/
theorem AnnotatedUnit.ofRecord_ordered {unit : AnnotatedUnit} (h : unit.Storable) :
    AnnotatedUnit.ofRecord unit.identity (style.ordered unit.record) = .ok unit := by
  have hblocks : ((unit.blocks.map fun block => Datum.record [("symbol", symbolRecord block.symbol),
      ("nodes", .list (block.nodes.map Node.record))]).map style.ordered).mapM readBlock = .ok unit.blocks := by
    rw [List.map_map]
    exact Result.mapM_map_eq_ok fun block hblock => readBlock_record (h.symbols block hblock) (h.nodes block hblock)
  have hdiagnostics : ((unit.diagnostics.map diagnosticRecord).map style.ordered).mapM readDiagnostic =
      .ok unit.diagnostics := by
    rw [List.map_map]
    exact Result.mapM_map_eq_ok fun diagnostic hdiagnostic =>
      readDiagnostic_diagnosticRecord (h.diagnostics diagnostic hdiagnostic)
  have hshown : (style.ordered (.text unit.fingerprint)).shown = .ok unit.fingerprint := by
    rw [ordered_of_sorted rfl]
    rfl
  rw [AnnotatedUnit.record]
  generalize (unit.blocks.map fun block => Datum.record [("symbol", symbolRecord block.symbol),
    ("nodes", .list (block.nodes.map Node.record))]) = blocks at hblocks ⊢
  generalize hfields : [("fingerprint", Datum.text unit.fingerprint), ("blocks", .list blocks),
    ("diagnostics", .list (unit.diagnostics.map diagnosticRecord))] = fields
  have hnames : (fields.map (·.1)).Nodup := by simp [← hfields]
  have hfingerprint : ("fingerprint", Datum.text unit.fingerprint) ∈ fields := by simp [← hfields]
  have hblocks' : ("blocks", Datum.list blocks) ∈ fields := by simp [← hfields]
  have hdiagnostics' : ("diagnostics", Datum.list (unit.diagnostics.map diagnosticRecord)) ∈ fields := by
    simp [← hfields]
  rw [AnnotatedUnit.ofRecord, Datum.entry_ordered_record hnames style hfingerprint,
    several_ordered hnames hblocks', several_ordered hnames hdiagnostics']
  simp only [bind, Except.bind, hshown, hblocks, hdiagnostics]
  rfl

end ReadUnit

/-- What is kept of a unit loses nothing: the unit is read back from the JSON text of its plain value, in
every layout, when its levels are read at all. -/
theorem AnnotatedUnit.readBack_write {unit : AnnotatedUnit} (h : unit.Storable) (style : Style) :
    ∃ text, Json.write style unit.record = .ok text ∧
      ∀ limit, unit.record.height ≤ limit → ∃ value, Json.readWithin limit text.toList = .ok value ∧
        AnnotatedUnit.ofRecord unit.identity value = .ok unit := by
  obtain ⟨text, hwrite, hread⟩ := Json.readWithin_write (AnnotatedUnit.legible_record h) style
  exact ⟨text, hwrite, fun limit hlimit => ⟨_, hread limit hlimit, AnnotatedUnit.ofRecord_ordered h⟩⟩

namespace Shelf

/-- An annotation with values of every kind: a number that is no whole one, half a pair in a text, a key
that occurs twice, and annotations in an attribute and as children. -/
def node : Node where
  tag := .text "Get"
  attributes := [
    (.text "path", .string "/books"),
    (.text "x", .array [.number (.int (-3)), .number (.float (.finite false 7205759403792794 (-56))),
      .boolean true, .null, .constant "LIMIT", .leaf .string (.codes [0xD83D])]),
    (.text "x", .mapping [(.text "b", .null), (.text "a", .null), (.text "b", .boolean false)]),
    (.text "schema", .tag ⟨.text "Schema", [], [], 2, 5⟩)]
  children := [⟨.text "Response", [], [], 3, 1⟩]
  line := 1
  column := 1

/-- A unit with that annotation, a diagnostic with a place and one without. -/
def unit : AnnotatedUnit where
  identity := "shelf.py"
  fingerprint := "4f2a"
  blocks := [{ symbol := .ofFile "shelf.py", nodes := [node] }]
  diagnostics := [
    .error .parse "Unknown tag" (some { path := "shelf.py", line := some 3 }),
    { phase := .validate, severity := .warning, message := "No description", rule := .text "described"
      entity := .text "GET /books" }]

theorem storable_unit : unit.Storable := by
  have hhalf : Datum.LegibleText (.codes [0xD83D]) := ⟨rfl, ⟨by simp, by simp⟩⟩
  have htenth : Binary64.Canonical (.finite false 7205759403792794 (-56)) := by
    refine ⟨by decide, by decide, by decide, .inl (by decide)⟩
  have hnode : node.Storable := by
    refine ⟨trivial, ⟨trivial, trivial, trivial, ?_, trivial, ?_, trivial, ?_, trivial⟩, ⟨?_, trivial⟩, rfl, rfl⟩
    · exact ⟨⟨_, rfl, rfl, trivial⟩, ⟨_, rfl, rfl, htenth⟩, ⟨_, rfl⟩, rfl, trivial, hhalf, trivial⟩
    · exact ⟨trivial, rfl, trivial, rfl, trivial, ⟨_, rfl⟩, trivial⟩
    · exact ⟨trivial, trivial, trivial, rfl, rfl⟩
    · exact ⟨trivial, trivial, trivial, rfl, rfl⟩
  refine ⟨?_, ?_, ?_⟩
  · simp only [unit, List.forall_mem_singleton]
    exact ⟨trivial, trivial, .inl rfl, .inl rfl⟩
  · simp only [unit, List.forall_mem_singleton]
    exact hnode
  · simp only [unit, List.forall_mem_cons]
    refine ⟨⟨?_, .inl rfl, .inl rfl, .inl rfl⟩, ⟨by simp, .inr trivial, .inr trivial, .inl rfl⟩, by simp⟩
    intro place hplace
    obtain rfl := Option.some.inj hplace
    exact ⟨.inr ⟨3, rfl, rfl⟩, .inl rfl⟩

theorem readBack_write_unit :
    unit.Storable ∧ ∃ text value, Json.write { indent := some 2, ascii := true, sorted := true } unit.record = .ok text ∧
      Json.read text.toList = .ok value ∧ AnnotatedUnit.ofRecord "shelf.py" value = .ok unit := by
  obtain ⟨text, hwrite, hread⟩ :=
    AnnotatedUnit.readBack_write storable_unit { indent := some 2, ascii := true, sorted := true }
  obtain ⟨value, hvalue, hunit⟩ := hread Json.maxLevels (by decide)
  exact ⟨storable_unit, text, value, hwrite, hvalue, hunit⟩

end Shelf

end Annotation

end DocCompiler
