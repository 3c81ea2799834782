import DocCompiler.Number.Numeral
import DocCompiler.Yaml.ScalarText

/-!
The tokens of a YAML text. Indentation opens and closes collections, so that the tokens of a block
collection are bracketed like those of a flow collection. Whether a node is the key of an entry shows
only at the colon behind it: until then its place among the tokens is kept as a candidate.
-/

namespace DocCompiler.Yaml

/-- A token. -/
inductive Token
  | version (major : Int)
  | tagHandle (handle start : String)
  | directive
  | documentStart
  | documentEnd
  | openItems
  | openEntries
  | closeBlock
  | openFlowItems
  | closeFlowItems
  | openFlowEntries
  | closeFlowEntries
  | comma
  | item
  | key
  | value
  | link (name : String)
  | anchor (name : String)
  | tag (handle : Option String) (suffix : String)
  | scalar (text : String) (isPlain : Bool)
  deriving DecidableEq, Repr, Inhabited

/-- A node that may turn out to be the key of an entry: the number of its first token and where it
stands. A required one must be followed by a colon. -/
structure Candidate where
  number : Nat
  required : Bool
  index : Nat
  line : Nat
  column : Nat
  deriving DecidableEq, Repr

/-- The tokens so far, and what decides about the next one: the place in the text, the indentation
of the open block collections, innermost first, the candidate at the current depth of flow
collections and at those around it, and whether a key may stand here. -/
structure Lexer where
  spot : Spot
  tokens : Array Token := #[]
  indent : Int := -1
  indents : List Int := []
  candidate : Option Candidate := none
  outer : List (Option Candidate) := []
  keyAllowed : Bool := true

namespace Lexer

/-- Whether the place is inside a flow collection. -/
def inFlow (lexer : Lexer) : Bool :=
  !lexer.outer.isEmpty

/-- The column of the place. -/
def column (lexer : Lexer) : Int :=
  lexer.spot.column

/-- Adds a token. -/
def emit (token : Token) (lexer : Lexer) : Lexer :=
  { lexer with tokens := lexer.tokens.push token }

/-- Moves some characters on. -/
def skip (count : Nat) (lexer : Lexer) : Lexer :=
  { lexer with spot := lexer.spot.skip count }

/-- Whether a candidate can no longer be a key: it stands on an earlier line, or too far back. -/
def isStale (spot : Spot) (candidate : Candidate) : Bool :=
  candidate.line != spot.line || 1024 < spot.index - candidate.index

/-- A candidate, unless it is stale; a required one must not be. -/
def stillOpen (spot : Spot) : Option Candidate → Except ReadError (Option Candidate)
  | some candidate =>
      if !isStale spot candidate then .ok (some candidate)
      else if candidate.required then .error .malformed
      else .ok none
  | none => .ok none

/-- Drops the stale candidates. -/
def dropStale (lexer : Lexer) : Except ReadError Lexer := do
  return { lexer with
    candidate := ← stillOpen lexer.spot lexer.candidate
    outer := ← lexer.outer.mapM (stillOpen lexer.spot) }

/-- Gives up the candidate at the current depth. -/
def dropCandidate (lexer : Lexer) : Except ReadError Lexer :=
  match lexer.candidate with
  | some candidate =>
      if candidate.required then .error .malformed else .ok { lexer with candidate := none }
  | none => .ok lexer

/-- Makes the next token a candidate where a key may stand. -/
def noteCandidate (lexer : Lexer) : Except ReadError Lexer :=
  if lexer.keyAllowed then do
    let lexer ← lexer.dropCandidate
    return { lexer with
      candidate := some
        { number := lexer.tokens.size
          required := !lexer.inFlow && lexer.indent == lexer.column
          index := lexer.spot.index
          line := lexer.spot.line
          column := lexer.spot.column } }
  else .ok lexer

/-- Closes the block collections that are indented further than a column. -/
def unwindAux (column : Int) : List Int → Int → Array Token → List Int × Int × Array Token
  | [], indent, tokens => ([], indent, tokens)
  | outer :: rest, indent, tokens =>
      if column < indent then unwindAux column rest outer (tokens.push .closeBlock)
      else (outer :: rest, indent, tokens)

/-- Closes the block collections that are indented further than a column. Inside a flow collection
indentation does not count. -/
def unwind (column : Int) (lexer : Lexer) : Lexer :=
  if lexer.inFlow then lexer
  else
    let (indents, indent, tokens) := unwindAux column lexer.indents lexer.indent lexer.tokens
    { lexer with indents, indent, tokens }

/-- Adds tokens before the one with a number. -/
def insert (number : Nat) (added : Array Token) (lexer : Lexer) : Lexer :=
  { lexer with
    tokens := lexer.tokens.extract 0 number ++ added ++
      lexer.tokens.extract number lexer.tokens.size }

/-- Whether a block collection starts at a column. -/
def deepens (column : Int) (lexer : Lexer) : Bool :=
  !lexer.inFlow && lexer.indent < column

/-- Takes a column for the indentation of a new block collection. -/
def deepen (column : Int) (lexer : Lexer) : Lexer :=
  { lexer with indents := lexer.indent :: lexer.indents, indent := column }

/-- Opens a block collection at the place, if it is indented further than those open. -/
def openBlock (token : Token) (lexer : Lexer) : Lexer :=
  if lexer.deepens lexer.column then (lexer.deepen lexer.column).emit token else lexer

/-- The place of the next token: behind spaces, comments and line breaks. -/
def nextSpot : Nat → Spot → Spot × Bool
  | 0, spot => (spot, false)
  | fuel + 1, spot =>
      let spot := spot.skipSpaces.skipComment
      match spot.takeBreak? with
      | some (_, next) => ((nextSpot fuel next).1, true)
      | none => (spot, false)

/-- Moves to the next token. On a new line a key may stand, except in flow collections. -/
def toNext (lexer : Lexer) : Lexer :=
  let spot := if lexer.spot.index = 0 && lexer.spot.rest.head? = some '\ufeff' then lexer.spot.step
    else lexer.spot
  let (spot, newLine) := nextSpot (spot.rest.length + 1) spot
  { lexer with spot, keyAllowed := lexer.keyAllowed || (newLine && !lexer.inFlow) }

/-- Closes what a directive or the bound of a document ends. -/
def leaveDocument (lexer : Lexer) : Except ReadError Lexer := do
  let lexer ← (lexer.unwind (-1)).dropCandidate
  return { lexer with keyAllowed := false }

/-- The handle of a tag: an exclamation mark, or a name between two of them. -/
def tagHandle (rest : List Char) : Except ReadError (List Char × List Char) :=
  match rest with
  | '!' :: rest =>
      if rest.head? = some ' ' then .ok (['!'], rest)
      else
        let name := rest.takeWhile isNameChar
        match rest.drop name.length with
        | '!' :: rest => .ok ('!' :: name ++ ['!'], rest)
        | _ => .error .malformed
  | _ => .error .malformed

/-- A character that stands for itself in a tag. -/
def isTagChar (c : Char) : Bool :=
  c.isAlphanum || "-;/?:@&=+$,_.!~*".toList.contains c || "()[]".toList.contains c || c == '\''

/-- The characters of a tag; bytes may be written in base sixteen behind a percent sign. -/
def tagBytes : Nat → List Char → Except ReadError (List UInt8 × List Char)
  | 0, rest => .ok ([], rest)
  | _ + 1, [] => .ok ([], [])
  | fuel + 1, c :: rest =>
      if c == '%' then
        match rest with
        | a :: b :: rest =>
            if isHexDigit a && isHexDigit b then do
              let (bytes, rest) ← tagBytes fuel rest
              return (UInt8.ofNat (hexValue [a, b]) :: bytes, rest)
            else .error .malformed
        | _ => .error .malformed
      else if isTagChar c then do
        let (bytes, rest) ← tagBytes fuel rest
        return ((String.singleton c).toUTF8.toList ++ bytes, rest)
      else .ok ([], c :: rest)

/-- The characters of a tag, which are at least one. -/
def tagText (rest : List Char) : Except ReadError (String × List Char) := do
  let (bytes, rest) ← tagBytes rest.length rest
  if bytes.isEmpty then throw .malformed
  match String.fromUTF8? ⟨bytes.toArray⟩ with
  | some text => return (text, rest)
  | none => throw .malformed

/-- Reads a directive, from behind its percent sign. -/
def takeDirective (spot : Spot) : Except ReadError (Token × Spot) := do
  let name := spot.rest.takeWhile isNameChar
  let rest := spot.rest.drop name.length
  if name.isEmpty || !endsField rest then throw .malformed
  let blanks (rest : List Char) := rest.dropWhile (· == ' ')
  match String.ofList name with
  | "YAML" =>
      let major := (blanks rest).takeWhile Char.isDigit
      let minor := ((blanks rest).drop (major.length + 1)).takeWhile Char.isDigit
      let after := (blanks rest).drop (major.length + 1 + minor.length)
      if major.isEmpty then throw .malformed
      let number ← readDigits major
      if ((blanks rest).drop major.length).head? != some '.' || minor.isEmpty then throw .malformed
      let _ ← readDigits minor
      if !endsField after then throw .malformed
      return (.version number, ← (spot.skipTo after).finishLine)
  | "TAG" =>
      let (handle, rest) ← tagHandle (blanks rest)
      if rest.head? != some ' ' then throw .malformed
      let (start, rest) ← tagText (blanks rest)
      if !endsField rest then throw .malformed
      return (.tagHandle (String.ofList handle) start, ← (spot.skipTo rest).finishLine)
  | _ => return (.directive, ← (spot.skipTo (rest.dropWhile (!isBreak ·))).finishLine)
where
  /-- The value of decimal digits. -/
  readDigits (digits : List Char) : Except ReadError Int :=
    match Number.ofDigits false digits with
    | .ok number => .ok number
    | .error _ => .error (.value .badValue)

/-- Reads the name of an anchor, from behind its sign. -/
def takeName (spot : Spot) : Except ReadError (String × Spot) :=
  let name := spot.rest.takeWhile isNameChar
  let spot := spot.skip name.length
  let ends := endsWord spot.rest ||
    spot.rest.head?.any fun c => ['?', ':', ',', ']', '\x7d', '%', '@', '\x60'].contains c
  if name.isEmpty || !ends then .error .malformed else .ok (String.ofList name, spot)

/-- Reads a tag, from its exclamation mark on. -/
def takeTag (spot : Spot) : Except ReadError (Token × Spot) := do
  let (handle, suffix, rest) ← match spot.rest.drop 1 with
    | '<' :: rest => do
        let (suffix, rest) ← tagText rest
        match rest with
        | '>' :: rest => pure (none, suffix, rest)
        | _ => throw .malformed
    | rest => do
        if endsWord rest then pure (none, "!", rest)
        else if (rest.takeWhile (!isSpaceOrBreak ·)).contains '!' then do
          let (handle, rest) ← tagHandle spot.rest
          let (suffix, rest) ← tagText rest
          pure (some (String.ofList handle), suffix, rest)
        else do
          let (suffix, rest) ← tagText rest
          pure (some "!", suffix, rest)
  if endsField rest then return (.tag handle suffix, spot.skipTo rest) else throw .malformed

/-- Adds a token that may be a key. -/
def emitNode (lexer : Lexer) (take : Spot → Except ReadError (Token × Spot)) :
    Except ReadError Lexer := do
  let lexer ← lexer.noteCandidate
  let (token, spot) ← take lexer.spot
  return ({ lexer with spot, keyAllowed := false }).emit token

/-- Adds a block scalar. -/
def emitBlock (folded : Bool) (lexer : Lexer) : Except ReadError Lexer := do
  let lexer ← lexer.dropCandidate
  let (text, spot) ← blockText folded (max 1 (lexer.indent + 1)).toNat lexer.spot.step
  return ({ lexer with spot, keyAllowed := true }).emit (.scalar (String.ofList text) false)

/-- Adds a plain scalar. -/
def emitPlain (lexer : Lexer) : Except ReadError Lexer := do
  let lexer ← lexer.noteCandidate
  let (text, spot, broken) :=
    plainText lexer.inFlow (lexer.indent + 1).toNat lexer.spot.rest.length [] false lexer.spot
  return ({ lexer with spot, keyAllowed := broken }).emit (.scalar (String.ofList text) true)

/-- Adds the sign of an item or of a key that is marked as one. -/
def emitSign (lexer : Lexer) (opening sign : Token) (keyAllowed : Bool) :
    Except ReadError Lexer := do
  if !lexer.inFlow && !lexer.keyAllowed then throw .malformed
  let lexer ← (lexer.openBlock opening).dropCandidate
  return (({ lexer with keyAllowed }).skip 1).emit sign

/-- Adds the sign before a value. A candidate becomes the key of the entry, and a block of entries
starts where the candidate stands, unless one is open there. -/
def emitValue (lexer : Lexer) : Except ReadError Lexer := do
  match lexer.candidate with
  | some candidate =>
      let lexer := { lexer with candidate := none, keyAllowed := false }
      let lexer :=
        if lexer.deepens candidate.column then
          (lexer.deepen candidate.column).insert candidate.number #[.openEntries, .key]
        else lexer.insert candidate.number #[.key]
      return (lexer.skip 1).emit .value
  | none => lexer.emitSign .openEntries .value (!lexer.inFlow)

/-- Adds the start of a flow collection. -/
def enterFlow (token : Token) (lexer : Lexer) : Except ReadError Lexer := do
  let lexer ← lexer.noteCandidate
  let lexer := { lexer with outer := lexer.candidate :: lexer.outer, candidate := none }
  return (({ lexer with keyAllowed := true }).skip 1).emit token

/-- Adds the end of a flow collection, which must be open. -/
def leaveFlow (token : Token) (lexer : Lexer) : Except ReadError Lexer := do
  let lexer ← lexer.dropCandidate
  match lexer.outer with
  | candidate :: outer =>
      return (({ lexer with candidate, outer, keyAllowed := false }).skip 1).emit token
  | [] => throw .malformed

/-- Whether a plain scalar can start with a character. -/
def startsPlain (inFlow : Bool) (c : Char) (rest : List Char) : Bool :=
  !(isSeparator c || c == '-' || c == '?' || c == ':' || leadingIndicators.contains c) ||
    (!endsWord rest && (c == '-' || (!inFlow && (c == '?' || c == ':'))))

/-- Adds the next token, which starts with a character. -/
def takeToken (lexer : Lexer) (c : Char) (rest : List Char) : Except ReadError Lexer := do
  let inFlow := lexer.inFlow
  let text := c :: rest
  let lineStart := lexer.spot.column == 0
  if c == '%' && lineStart then
    let lexer ← lexer.leaveDocument
    let (token, spot) ← takeDirective lexer.spot.step
    return ({ lexer with spot }).emit token
  else if c == '-' && lineStart && startsMark '-' text then
    return ((← lexer.leaveDocument).skip 3).emit .documentStart
  else if c == '.' && lineStart && startsMark '.' text then
    return ((← lexer.leaveDocument).skip 3).emit .documentEnd
  else if c == '[' then lexer.enterFlow .openFlowItems
  else if c == '\x7b' then lexer.enterFlow .openFlowEntries
  else if c == ']' then lexer.leaveFlow .closeFlowItems
  else if c == '\x7d' then lexer.leaveFlow .closeFlowEntries
  else if c == ',' then
    let lexer ← lexer.dropCandidate
    return (({ lexer with keyAllowed := true }).skip 1).emit .comma
  else if c == '-' && endsWord rest then lexer.emitSign .openItems .item true
  else if c == '?' && (inFlow || endsWord rest) then lexer.emitSign .openEntries .key (!inFlow)
  else if c == ':' && (inFlow || endsWord rest) then lexer.emitValue
  else if c == '*' then
    lexer.emitNode fun spot => do
      let (name, spot) ← takeName spot.step
      return (.link name, spot)
  else if c == '&' then
    lexer.emitNode fun spot => do
      let (name, spot) ← takeName spot.step
      return (.anchor name, spot)
  else if c == '!' then lexer.emitNode takeTag
  else if (c == '|' || c == '>') && !inFlow then lexer.emitBlock (c == '>')
  else if c == '\'' || c == '"' then
    lexer.emitNode fun spot => do
      let (text, rest) ← quotedText c (spot.rest.length + 1) (spot.rest.drop 1)
      return (.scalar (String.ofList text) false, spot.skipTo rest)
  else if startsPlain inFlow c rest then lexer.emitPlain
  else throw .malformed

/-- The tokens before which no other token will be added. -/
def settled (lexer : Lexer) : List Token :=
  let pending := (lexer.candidate :: lexer.outer).filterMap fun candidate => candidate.map (·.number)
  lexer.tokens.toList.take (pending.foldl min lexer.tokens.size)

/-- Adds the next token; the second part tells that the text ends instead. -/
def advance (lexer : Lexer) : Except ReadError (Lexer × Bool) := do
  let lexer ← lexer.toNext.dropStale
  match lexer.spot.rest with
  | [] => return (← (lexer.unwind (-1)).dropCandidate, true)
  | c :: rest => return (← (← (lexer.unwind lexer.column).takeToken c rest).dropStale, false)

end Lexer

/-- The tokens of a text, and the error that ends them. -/
structure Tokens where
  list : List Token
  error : Option ReadError
  deriving Repr

/-- The tokens that a lexer still finds. Every round takes at least one character. -/
def Lexer.run : Nat → Lexer → Tokens
  | 0, lexer => ⟨lexer.settled, some .malformed⟩
  | fuel + 1, lexer =>
      match lexer.advance with
      | .ok (last, true) => ⟨last.tokens.toList, none⟩
      | .ok (later, false) => Lexer.run fuel later
      | .error error => ⟨lexer.settled, some error⟩

/-- Reads the tokens of a text. -/
def Tokens.ofText (text : List Char) : Tokens :=
  Lexer.run (text.length + 1) { spot := .start text }

end DocCompiler.Yaml
