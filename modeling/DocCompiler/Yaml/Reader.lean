import DocCompiler.Text.Split
import DocCompiler.Yaml.Value

/-!
Plain values read from YAML texts. The root is made first, then the contents of collections, in the
order in which they are met; each node is made once. The merge key of a mapping brings in the entries of
other mappings before its own.
-/

namespace DocCompiler.Yaml

/-- The kinds of collections. -/
inductive CollectionKind
  | list
  | map
  | set
  /-- A list of pairs, written as mappings of one entry. -/
  | pairs
  deriving DecidableEq, Repr, Inhabited

/-- The kind of collection that a tag stands for. -/
def CollectionKind.ofTag? (tag : String) : Option CollectionKind :=
  [(standardTag "seq", .list), (standardTag "map", .map), (standardTag "set", .set),
    (standardTag "omap", .pairs), (standardTag "pairs", .pairs)].lookup tag

/-- What is made of a node: a value, or the collection with the number of the node. -/
inductive Made
  | plain (value : Datum)
  | collection (number : Nat)
  deriving Repr, Inhabited

/-- The content of a collection. -/
inductive Filling
  | list (items : List Made)
  | map (entries : List (Datum × Made))
  | set (keys : List Datum)
  | pairs (pairs : List (Made × Made))
  deriving Repr, Inhabited

/-- What is known while values are made: the nodes, which change where mappings are merged, what is made
of them, the collections that are to be filled, the last one first, and what the others are filled
with. -/
structure Maker where
  nodes : Array Node
  made : Array (Option Made)
  pending : List Nat := []
  filled : Array (Option Filling)
  deriving Inhabited

/-- What is known of a graph before anything is made. -/
def Maker.ofGraph (graph : Graph) : Maker :=
  let size := graph.nodes.size
  { nodes := graph.nodes, made := Array.replicate size none, filled := Array.replicate size none }

/-- A step of making values. -/
abbrev Make := StateT Maker (Except ReadError)

namespace Make

/-- A node as it is at present. -/
def node (number : Nat) : Make Node := do
  return Graph.node (← get).nodes number

/-- Changes a node. -/
def change (number : Nat) (node : Node) : Make Unit :=
  modify fun maker => { maker with nodes := maker.nodes.setIfInBounds number node }

/-- The text of a scalar. A mapping stands for its value under the default key; `fuel` bounds the number
of mappings on the way. -/
def scalarText : (fuel : Nat) → (number : Nat) → Make String
  | 0, _ => throw .tooDeep
  | fuel + 1, number => do
      match (← node number).content with
      | .scalar text => return text
      | .items _ => throw .malformed
      | .entries nodes =>
          match ← nodes.findM? fun entry => return (← node entry.1).tag == standardTag "value" with
          | some entry => scalarText fuel entry.2
          | none => throw .malformed

/-- The value of a node that is no collection. -/
def scalar (number : Nat) : Make Datum := do
  let node ← node number
  let text ← scalarText ((← get).nodes.size + 1) number
  match node.content with
  | .scalar _ => scalarValue node.tag text
  | _ =>
      if node.tag == standardTag "timestamp" then throw (.value .wrongKind)
      else scalarValue node.tag text

/-- Makes a node. A collection is filled later. -/
def make (number : Nat) : Make Made := do
  match (← get).made.getD number none with
  | some made => return made
  | none =>
      let made ←
        match CollectionKind.ofTag? (← node number).tag with
        | some _ => do
            modify fun maker => { maker with pending := number :: maker.pending }
            pure (.collection number)
        | none => .plain <$> scalar number
      modify fun maker =>
        { maker with made := maker.made.setIfInBounds number (some made) }
      return made

/-- Makes a key, which is no collection. -/
def makeKey (number : Nat) : Make Datum := do
  match ← make number with
  | .plain value => return value
  | .collection _ => throw .malformed

/-- The entries of a mapping. -/
def entriesOf (number : Nat) : Make (List (Nat × Nat)) := do
  match (← node number).content with
  | .entries nodes => return nodes
  | _ => throw .malformed

/-- Takes the first merge key out of a mapping, with what it is to bring in. -/
def takeMerge (number : Nat) : Make (Option Nat) := do
  let node ← node number
  let entries ← entriesOf number
  let nodes := (← get).nodes
  let isMerge (entry : Nat × Nat) : Bool :=
    (Graph.node nodes entry.1).tag == standardTag "merge"
  match entries.find? isMerge with
  | none => return none
  | some (_, value) =>
      change number { node with content := .entries (entries.eraseP isMerge) }
      return some value

/-- The mappings that a merge key names. -/
def sourcesOf (number : Nat) : Make (List Nat) := do
  match (← node number).content with
  | .entries _ => return [number]
  | .items nodes => return nodes
  | .scalar _ => throw .malformed

/-- Keys that stand for the default value are texts where a mapping is read as one. -/
def plainKeys (number : Nat) : Make Unit := do
  (← entriesOf number).forM fun (key, _) => do
    let node ← node key
    if node.tag == standardTag "value" then change key { node with tag := standardTag "str" }

mutual

/-- Merges into a mapping what its merge keys name. A mapping that is merged into itself brings in the
entries it has at that time; `fuel` bounds the number of merge keys. -/
def flatten : (fuel : Nat) → (number : Nat) → Make Unit
  | 0, _ => throw .tooDeep
  | fuel + 1, number => do
      let brought ← collect fuel fuel number
      plainKeys number
      let node ← node number
      let own ← entriesOf number
      change number { node with content := .entries (brought ++ own) }

/-- The entries that the merge keys of a mapping bring in; `count` bounds the number of these keys. -/
def collect (fuel : Nat) : (count : Nat) → (number : Nat) → Make (List (Nat × Nat))
  | 0, _ => return []
  | count + 1, number => do
      match ← takeMerge number with
      | none => return []
      | some value =>
          let isList := (← node value).content matches .items _
          let lists ← (← sourcesOf value).mapM fun source => do
            flatten fuel source
            entriesOf source
          let first := (if isList then lists.reverse else lists).flatten
          return first ++ (← collect fuel count number)

end

/-- The number of merge keys in a document, with some to spare. -/
def mergeFuel : Make Nat := do
  return (← get).nodes.size + 1

/-- Fills a collection. -/
def fill (number : Nat) : Make Unit := do
  let node ← node number
  let filling ←
    match CollectionKind.ofTag? node.tag, node.content with
    | some .list, .items nodes => Filling.list <$> nodes.mapM make
    | some .pairs, .items nodes => do
        let pairs ← nodes.mapM fun item => do
          match (← Make.node item).content with
          | .entries [(key, value)] => do
              let key ← make key
              return (key, ← make value)
          | _ => throw .malformed
        pure (.pairs pairs)
    | some kind, .entries _ =>
        if kind = .list ∨ kind = .pairs then throw .malformed
        flatten (← mergeFuel) number
        let entries ← (← entriesOf number).mapM fun (key, value) => do
          let key ← makeKey key
          return (key, ← make value)
        let entries := Datum.distinctEntries entries
        pure (if kind = .set then .set (entries.map (·.1)) else .map entries)
    | _, _ => throw .malformed
  modify fun maker =>
    { maker with filled := maker.filled.setIfInBounds number (some filling) }

/-- Fills all collections, in the order in which they were met; `fuel` bounds how deep they are
nested. -/
def fillAll : (fuel : Nat) → Make Unit
  | 0 => return
  | fuel + 1 => do
      match (← get).pending with
      | [] => return
      | pending =>
          modify fun maker => { maker with pending := [] }
          pending.reverse.forM fill
          fillAll fuel

/-- The root of a document with everything in it. -/
def root (number : Nat) : Make Made := do
  let made ← make number
  fillAll ((← get).nodes.size + 1)
  return made

end Make

/-- The value of what is made of a node, given what collections are filled with. `around` are the numbers
of the collections around it, the nearest one first, and `fuel` bounds their number. -/
def Made.value (filled : Array (Option Filling)) :
    (fuel : Nat) → (around : List Nat) → Made → Datum
  | _, _, .plain value => value
  | 0, _, .collection _ => .null
  | fuel + 1, around, .collection number =>
      match around.idxOf? number with
      | some levels => .again levels
      | none =>
          let inside := value filled fuel (number :: around)
          match filled.getD number none with
          | some (.list items) => .list (items.map inside)
          | some (.map entries) => .map (entries.map fun (key, item) => (key, inside item))
          | some (.set keys) => .set keys
          | some (.pairs pairs) =>
              .list (pairs.map fun (first, second) => .pair (inside first) (inside second))
          | none => .null

/-- The value of the root of a document. -/
def Graph.value (graph : Graph) : Except ReadError Datum := do
  let (made, maker) ← (Make.root graph.root).run (.ofGraph graph)
  return made.value maker.filled (graph.nodes.size + 1) []

/-- A character that may stand in a YAML text. -/
def isReadable (c : Char) : Bool :=
  let code := c.toNat
  code == 9 || code == 10 || code == 13 || (0x20 ≤ code && code ≤ 0x7E) || code == 0x85 ||
    (0xA0 ≤ code && code ≤ 0xD7FF) || (0xE000 ≤ code && code ≤ 0xFFFD) || 0x10000 ≤ code

/-- Reads the value of a YAML text; a text without a document has the absent value. -/
def read (text : String) : Except ReadError Datum := do
  let chars := Text.unifyNewlines text.toList
  if !chars.all isReadable then throw .malformed
  match ← Graph.ofText? chars with
  | none => return .null
  | some graph => graph.value

end DocCompiler.Yaml
