import DocCompiler.Data.Datum
import DocCompiler.Source.Block
import DocCompiler.Source.Diagnostic

/-!
Annotation trees: tags with attributes and nested tags, the values of attributes, and all that is
known about one source unit.
-/

namespace DocCompiler.Annotation

/-- The kinds of values without parts. A constant is an identifier without a known value. -/
inductive LeafKind
  | string
  | number
  | boolean
  | null
  | constant
  deriving DecidableEq, Repr, Inhabited

/-- The kinds of values. -/
inductive ValueKind
  | leaf (kind : LeafKind)
  | array
  | mapping
  | tag
  deriving DecidableEq, Repr, Inhabited

namespace ValueKind

/-- The name of a kind. -/
def name : ValueKind → String
  | .leaf .string => "string"
  | .leaf .number => "number"
  | .leaf .boolean => "boolean"
  | .leaf .null => "null"
  | .leaf .constant => "constant"
  | .array => "array"
  | .mapping => "mapping"
  | .tag => "tag"

/-- The kind with a given name. -/
def ofName? : String → Option ValueKind
  | "string" => some (.leaf .string)
  | "number" => some (.leaf .number)
  | "boolean" => some (.leaf .boolean)
  | "null" => some (.leaf .null)
  | "constant" => some (.leaf .constant)
  | "array" => some .array
  | "mapping" => some .mapping
  | "tag" => some .tag
  | _ => none

end ValueKind

mutual

/-- The value of an attribute. What is read from a source has data that fit its kind, texts as keys
and texts as tags; a stored unit may hold any others. -/
inductive Value
  | leaf (kind : LeafKind) (data : Datum)
  | array (items : List Value)
  | mapping (entries : List (Datum × Value))
  | tag (node : Node)

/-- One occurrence of a tag with its attributes, its nested tags and its place. -/
structure Node where
  tag : Datum
  attributes : List (Datum × Value)
  children : List Node
  line : Int
  column : Int

end

instance : Inhabited Value := ⟨.leaf .null .null⟩

instance : Inhabited Node := ⟨⟨.null, [], [], 0, 0⟩⟩

namespace Value

/-- A text. -/
@[match_pattern]
abbrev string (text : String) : Value := .leaf .string (.text text)

/-- A number. -/
@[match_pattern]
abbrev number (value : Number) : Value := .leaf .number (.number value)

/-- A truth value. -/
@[match_pattern]
abbrev boolean (value : Bool) : Value := .leaf .boolean (.bool value)

/-- The absent value. -/
@[match_pattern]
abbrev null : Value := .leaf .null .null

/-- An identifier without a known value. -/
@[match_pattern]
abbrev constant (name : String) : Value := .leaf .constant (.text name)

/-- Why the value of a constant cannot be lifted. -/
inductive LiftError
  /-- It is of a kind that is no value of an attribute, or something in it is. -/
  | unsupported (kind : String)
  /-- A key of a mapping in it has no text, as it is a whole number that is too long. -/
  | longKey
  deriving DecidableEq, Repr, Inhabited

/-- The kind of a value. -/
def kind : Value → ValueKind
  | .leaf kind _ => .leaf kind
  | .array _ => .array
  | .mapping _ => .mapping
  | .tag _ => .tag

mutual

/-- Lifts the value of a constant. Keys of mappings become texts. -/
def ofDatum : Datum → Except LiftError Value
  | .null => .ok .null
  | .bool value => .ok (.boolean value)
  | .number value => .ok (.number value)
  | .text value => .ok (.string value)
  | .codes points => .ok (.leaf .string (.codes points))
  | .map entries => (ofDatumEntries entries).map .mapping
  | .list items => (ofDatumItems items).map .array
  | .pair first second => do
      let first ← ofDatum first
      let second ← ofDatum second
      return .array [first, second]
  | .date _ => .error (.unsupported "date")
  | .moment _ => .error (.unsupported "datetime")
  | .bytes _ => .error (.unsupported "bytes")
  | .set _ => .error (.unsupported "set")
  | .unresolved _ => .error (.unsupported "UnresolvedConstant")
  | .again _ => .error (.unsupported "dict")

/-- Lifts the items of a list. -/
def ofDatumItems : List Datum → Except LiftError (List Value)
  | [] => .ok []
  | item :: rest => do
      let value ← ofDatum item
      let values ← ofDatumItems rest
      return value :: values

/-- Lifts the entries of a mapping. -/
def ofDatumEntries : List (Datum × Datum) → Except LiftError (List (Datum × Value))
  | [] => .ok []
  | (key, item) :: rest => do
      if !key.isShowable then throw .longKey
      let value ← ofDatum item
      let values ← ofDatumEntries rest
      return (key.asText, value) :: values

end

mutual

/-- The plain value of an attribute; `none` when a tag is nested in it, or when something that cannot
be a key is one. Constants become markers at the given place, and of equal keys of a mapping the last
one counts. -/
def toDatum? (location : Option Location) : Value → Option Datum
  | .leaf .constant data => some (.unresolved ⟨data.display, location⟩)
  | .leaf _ data => some data
  | .array items => (toDatumItems? location items).map .list
  | .mapping entries =>
      (toDatumEntries? location entries).map fun entries => .map (Datum.distinctEntries entries)
  | .tag _ => none

/-- The plain values of items. -/
def toDatumItems? (location : Option Location) : List Value → Option (List Datum)
  | [] => some []
  | item :: rest => do
      let item ← toDatum? location item
      let rest ← toDatumItems? location rest
      return item :: rest

/-- The plain values of entries. -/
def toDatumEntries? (location : Option Location) :
    List (Datum × Value) → Option (List (Datum × Datum))
  | [] => some []
  | (key, item) :: rest => do
      guard key.isHashable
      let item ← toDatum? location item
      let rest ← toDatumEntries? location rest
      return (key, item) :: rest

end

end Value

namespace Node

/-- The value of an attribute. -/
def get? (node : Node) (name : String) : Option Value :=
  Datum.lookup (.text name) node.attributes

mutual

/-- The number of levels of nested tags, this one included. -/
def height : Node → Nat
  | ⟨_, attributes, children, _, _⟩ => 1 + max (heightOfEntries attributes) (heightOfNodes children)

/-- The greatest height among nodes. -/
def heightOfNodes : List Node → Nat
  | [] => 0
  | node :: rest => max (height node) (heightOfNodes rest)

/-- The greatest height among the tags in a value. -/
def heightOfValue : Value → Nat
  | .array items => heightOfItems items
  | .mapping entries => heightOfEntries entries
  | .tag node => height node
  | _ => 0

/-- The greatest height among the tags in values. -/
def heightOfItems : List Value → Nat
  | [] => 0
  | item :: rest => max (heightOfValue item) (heightOfItems rest)

/-- The greatest height among the tags in entries. -/
def heightOfEntries : List (Datum × Value) → Nat
  | [] => 0
  | (_, item) :: rest => max (heightOfValue item) (heightOfEntries rest)

end

end Node

/-- The annotations of one doc comment and the declaration it documents. -/
structure AnnotatedBlock where
  symbol : Symbol
  nodes : List Node
  deriving Inhabited

/-- All that a source unit contributes: its annotations and what was wrong with them. An empty
fingerprint marks a unit whose content could not be read. -/
structure AnnotatedUnit where
  identity : String
  fingerprint : String
  blocks : List AnnotatedBlock := []
  diagnostics : List Diagnostic := []
  deriving Inhabited

end DocCompiler.Annotation
