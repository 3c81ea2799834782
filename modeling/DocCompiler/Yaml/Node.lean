import DocCompiler.Yaml.Implicit
import DocCompiler.Yaml.Token

/-!
The nodes of a YAML document, put together from its tokens. Nodes are numbered, and an alias stands
for the number of the node that its anchor names, also inside of that node.
-/

namespace DocCompiler.Yaml

/-- What a node holds. The nodes in it are given by their numbers. -/
inductive Content
  | scalar (text : String)
  | items (nodes : List Nat)
  | entries (nodes : List (Nat × Nat))
  deriving DecidableEq, Repr, Inhabited

/-- A node with the tag that it was given or that its text implies. -/
structure Node where
  tag : String
  content : Content
  deriving DecidableEq, Repr, Inhabited

/-- The nodes of a document, by their numbers, and the number of the root. -/
structure Graph where
  nodes : Array Node
  root : Nat
  deriving Repr, Inhabited

/-- A node of a graph. -/
def Graph.node (nodes : Array Node) (number : Nat) : Node :=
  nodes.getD number ⟨"", .scalar ""⟩

/-- The tags of the language start so. -/
def standardPrefix : String :=
  "tag:yaml.org,2002:"

/-- The full tag of a kind of value of the language. -/
def standardTag (name : String) : String :=
  standardPrefix ++ name

/-- The name of the tag of a kind of scalar. -/
def ScalarKind.tag : ScalarKind → String
  | .bool => standardTag "bool"
  | .float => standardTag "float"
  | .int => standardTag "int"
  | .merge => standardTag "merge"
  | .null => standardTag "null"
  | .timestamp => standardTag "timestamp"
  | .defaultValue => standardTag "value"
  | .mark => standardTag "yaml"
  | .text => standardTag "str"

/-- Collections may be nested this deep. -/
def maxLevels : Nat := 480

/-- What is known while nodes are put together: the tokens to come and the error behind them, the
nodes so far, the numbers of the named ones, the number of collections around, and the meanings of the
handles of tags. -/
structure Composer where
  tokens : List Token
  error : Option ReadError
  nodes : Array Node := #[]
  names : List (String × Nat) := []
  level : Nat := 0
  handles : List (String × String) := []

/-- A step of putting nodes together. -/
abbrev Compose := StateT Composer (Except ReadError)

namespace Compose

/-- Refuses the text. -/
def refuse {α : Type} : Compose α :=
  throw .malformed

/-- The next token, unless the text has ended. -/
def peek : Compose (Option Token) := do
  let composer ← get
  match composer.tokens, composer.error with
  | token :: _, _ => return some token
  | [], some error => throw error
  | [], none => return none

/-- Passes the next token. -/
def drop : Compose Unit :=
  modify fun composer => { composer with tokens := composer.tokens.tail }

/-- Passes the next token if it is a given one. -/
def accept (token : Token) : Compose Bool := do
  if (← peek) = some token then
    drop
    return true
  else return false

/-- Passes a token that must come next. -/
def expect (token : Token) : Compose Unit := do
  if !(← accept token) then refuse

/-- Whether one of some tokens comes next. -/
def follows (tokens : List Token) : Compose Bool := do
  return (← peek).any tokens.contains

/-- The full tag for a handle and what follows it. -/
def fullTag (handle : Option String) (suffix : String) : Compose String := do
  match handle with
  | none => return suffix
  | some handle =>
      match (← get).handles.lookup handle with
      | some start => return start ++ suffix
      | none => refuse

/-- The name of an anchor, if one comes next. -/
def takeAnchor : Compose (Option String) := do
  match ← peek with
  | some (.anchor name) =>
      drop
      return some name
  | _ => return none

/-- A tag, if one comes next. -/
def takeTag : Compose (Option (Option String × String)) := do
  match ← peek with
  | some (.tag handle suffix) =>
      drop
      return some (handle, suffix)
  | _ => return none

/-- The anchor and the tag of a node, in either order. -/
def takeProperties : Compose (Option String × Option String) := do
  let (anchor, tag) ← match ← takeAnchor with
    | some anchor => pure (some anchor, ← takeTag)
    | none =>
        match ← takeTag with
        | some tag => pure (← takeAnchor, some tag)
        | none => pure (none, none)
  match tag with
  | some (handle, suffix) => return (anchor, some (← fullTag handle suffix))
  | none => return (anchor, none)

/-- Adds a node that may have a name; no name is given twice. -/
def add (anchor : Option String) (node : Node) : Compose Nat := do
  let composer ← get
  let number := composer.nodes.size
  match anchor with
  | none => set { composer with nodes := composer.nodes.push node }
  | some name =>
      if (composer.names.lookup name).isSome then refuse
      set { composer with
            nodes := composer.nodes.push node
            names := (name, number) :: composer.names }
  return number

/-- Adds the missing node: a plain scalar without text. -/
def addEmpty : Compose Nat :=
  add none ⟨standardTag "null", .scalar ""⟩

/-- Adds a collection, which has its number before its content is known. -/
def addCollection (anchor : Option String) (tag : String) (empty : Content)
    (content : Compose Content) : Compose Nat := do
  let number ← add anchor ⟨tag, empty⟩
  let level := (← get).level
  if maxLevels ≤ level then throw .tooDeep
  modify fun composer => { composer with level := level + 1 }
  let content ← content
  modify fun composer =>
    { composer with level, nodes := composer.nodes.setIfInBounds number ⟨tag, content⟩ }
  return number

/-- The number of the node with a name. -/
def named (name : String) : Compose Nat := do
  match (← get).names.lookup name with
  | some number => return number
  | none => refuse

/-- The tag of a collection. -/
def collectionTag (name : String) (tag : Option String) : String :=
  match tag with
  | none | some "!" => standardTag name
  | some tag => tag

/-- The tag of a scalar. One without a tag is a text unless it is plain, and one with the empty tag
has the kind that its text implies. -/
def scalarTag (tag : Option String) (text : String) (isPlain : Bool) : String :=
  match tag with
  | some "!" => (ScalarKind.of text).tag
  | some tag => tag
  | none => if isPlain then (ScalarKind.of text).tag else standardTag "str"

mutual

/-- A node. `inBlock` tells that block collections may come, `hanging` that a list need not be
indented. -/
def node (fuel : Nat) (inBlock hanging : Bool) : Compose Nat := do
  match fuel with
  | 0 => refuse
  | fuel + 1 =>
      if let some (.link name) ← peek then
        drop
        return ← named name
      let (anchor, tag) ← takeProperties
      let items (nodes : Compose (List Nat)) : Compose Nat :=
        addCollection anchor (collectionTag "seq" tag) (.items []) (.items <$> nodes)
      let entries (nodes : Compose (List (Nat × Nat))) : Compose Nat :=
        addCollection anchor (collectionTag "map" tag) (.entries []) (.entries <$> nodes)
      match ← peek with
      | some .item =>
          if hanging then items (hangingItems fuel)
          else absent anchor tag
      | some (.scalar text isPlain) => do
          drop
          add anchor ⟨scalarTag tag text isPlain, .scalar text⟩
      | some .openFlowItems => items (do drop; flowItems fuel true)
      | some .openFlowEntries => entries (do drop; flowEntries fuel true)
      | some .openItems =>
          if inBlock then items (do drop; blockItems fuel) else absent anchor tag
      | some .openEntries =>
          if inBlock then entries (do drop; blockEntries fuel) else absent anchor tag
      | _ => absent anchor tag

/-- A node without content, which must have an anchor or a tag. -/
def absent (anchor tag : Option String) : Compose Nat := do
  if anchor.isNone && tag.isNone then refuse
  add anchor ⟨scalarTag tag "" true, .scalar ""⟩

/-- A node, unless one of some tokens comes in its place. -/
def nodeUnless (fuel : Nat) (ends : List Token) (inBlock hanging : Bool) : Compose Nat := do
  match fuel with
  | 0 => refuse
  | fuel + 1 => if ← follows ends then addEmpty else node fuel inBlock hanging

/-- The items of a block list up to its end. -/
def blockItems (fuel : Nat) : Compose (List Nat) := do
  match fuel with
  | 0 => refuse
  | fuel + 1 =>
      if ← accept .item then
        let first ← nodeUnless fuel [.item, .closeBlock] true false
        return first :: (← blockItems fuel)
      else
        expect .closeBlock
        return []

/-- The items of a list that is not indented further than the mapping around it. -/
def hangingItems (fuel : Nat) : Compose (List Nat) := do
  match fuel with
  | 0 => refuse
  | fuel + 1 =>
      if ← accept .item then
        let first ← nodeUnless fuel [.item, .key, .value, .closeBlock] true false
        return first :: (← hangingItems fuel)
      else return []

/-- The entries of a block mapping up to its end. -/
def blockEntries (fuel : Nat) : Compose (List (Nat × Nat)) := do
  match fuel with
  | 0 => refuse
  | fuel + 1 =>
      let ends := [.key, .value, .closeBlock]
      if ← accept .closeBlock then return []
      expect .key
      let key ← nodeUnless fuel ends true true
      let value ← if ← accept .value then nodeUnless fuel ends true true else addEmpty
      return (key, value) :: (← blockEntries fuel)

/-- The items of a flow list up to its end; between them stand commas. A key makes a mapping of one
entry. -/
def flowItems (fuel : Nat) (isFirst : Bool) : Compose (List Nat) := do
  match fuel with
  | 0 => refuse
  | fuel + 1 =>
      if ← accept .closeFlowItems then return []
      if !isFirst then
        expect .comma
      if ← accept .key then
        let entry ← addCollection none (standardTag "map") (.entries []) do
          let key ← nodeUnless fuel [.value, .comma, .closeFlowItems] false false
          let value ← if ← accept .value then nodeUnless fuel [.comma, .closeFlowItems] false false
            else addEmpty
          return .entries [(key, value)]
        return entry :: (← flowItems fuel false)
      if ← accept .closeFlowItems then return []
      let first ← node fuel false false
      return first :: (← flowItems fuel false)

/-- The entries of a flow mapping up to its end; between them stand commas. A node without the sign
of a key has no value. -/
def flowEntries (fuel : Nat) (isFirst : Bool) : Compose (List (Nat × Nat)) := do
  match fuel with
  | 0 => refuse
  | fuel + 1 =>
      if ← accept .closeFlowEntries then return []
      if !isFirst then
        expect .comma
      if ← accept .key then
        let key ← nodeUnless fuel [.value, .comma, .closeFlowEntries] false false
        let value ← if ← accept .value then nodeUnless fuel [.comma, .closeFlowEntries] false false
          else addEmpty
        return (key, value) :: (← flowEntries fuel false)
      if ← accept .closeFlowEntries then return []
      let key ← node fuel false false
      let value ← addEmpty
      return (key, value) :: (← flowEntries fuel false)

end

/-- The directives before a document: one version, which must be of the first edition, and the
meanings of handles, each given once. -/
def directives (fuel : Nat) (versioned : Bool) (handles : List (String × String)) :
    Compose (List (String × String)) := do
  match fuel with
  | 0 => refuse
  | fuel + 1 =>
      match ← peek with
      | some (.version major) =>
          if versioned || major != 1 then refuse
          drop
          directives fuel true handles
      | some (.tagHandle handle start) =>
          if (handles.lookup handle).isSome then refuse
          drop
          directives fuel versioned ((handle, start) :: handles)
      | some .directive =>
          drop
          directives fuel versioned handles
      | _ => return handles

/-- Passes marks of the ends of documents. -/
def dropEnds (fuel : Nat) : Compose Unit := do
  match fuel with
  | 0 => refuse
  | fuel + 1 => if ← accept .documentEnd then dropEnds fuel

/-- The handles that every document starts with. -/
def standardHandles : List (String × String) :=
  [("!", "!"), ("!!", standardPrefix)]

/-- Whether a directive or the mark of a document comes next. -/
def atDocumentStart : Compose Bool := do
  match ← peek with
  | some (.version _) | some (.tagHandle _ _) | some .directive | some .documentStart => return true
  | _ => return false

/-- The root of the one document of a text, if there is one. -/
def document : Compose (Option Nat) := do
  let fuel := 4 * (← get).tokens.length + 8
  let finish (root : Nat) : Compose (Option Nat) := do
    if ← accept .documentEnd then dropEnds fuel
    if (← peek).isSome then refuse
    return some root
  if (← peek).isNone then return none
  if ← atDocumentStart then
    let handles ← directives fuel false []
    expect .documentStart
    modify fun composer => { composer with handles := handles ++ standardHandles }
    let isEmpty := (← peek).isNone || (← atDocumentStart) || (← follows [.documentEnd])
    finish (← if isEmpty then addEmpty else node fuel true false)
  else
    modify fun composer => { composer with handles := standardHandles }
    finish (← node fuel true false)

end Compose

/-- The document that a text holds; a text may hold none. -/
def Graph.ofText? (text : List Char) : Except ReadError (Option Graph) := do
  let tokens := Tokens.ofText text
  let (root, composer) ← Compose.document.run { tokens := tokens.list, error := tokens.error }
  return root.map fun root => { nodes := composer.nodes, root }

end DocCompiler.Yaml
