import DocCompiler.Annotation.Cursor
import DocCompiler.Annotation.Grammar
import DocCompiler.Annotation.Issue
import DocCompiler.Data.OrderedMap

/-!
Reading one tag with everything nested in it. Tags and braces nest to a fixed depth; a reader of one
level is built from the readers of the level below, so the readers need no other recursion than that
over the levels and over the items of a list.
-/

namespace DocCompiler.Annotation

open Text

/-- The names and values of constants. -/
abbrev Constants := OrderedMap Datum

/-- Tags and braces may nest this deep. -/
def maxNesting : Nat := 64

/-- A whole number too long to be read or written, at which reading ends without a result. -/
inductive LongNumber
  /-- A numeral with its number of digits. -/
  | numeral (digits : Nat)
  /-- A key of a mapping in a constant. -/
  | key
  deriving DecidableEq, Repr, Inhabited

/-- Why reading stops: a fault at an offset, or a whole number that is too long. -/
inductive Stop
  | issue (issue : Issue) (offset : Nat)
  | number (number : LongNumber)
  deriving DecidableEq, Repr, Inhabited

/-- How far reading has come, and the faults so far that leave the structure intact. -/
structure ReadState where
  cursor : Cursor
  problems : List (Issue × Nat) := []
  deriving Repr, Inhabited

/-- A reader of some part of a tag. -/
abbrev Reader := StateT ReadState (Except Stop)

/-- What readers need to know besides the text: the constants, and the places of offsets. -/
structure Setting where
  constants : Constants
  place : Nat → Location

namespace Reader

/-- The cursor. -/
def cursor : Reader Cursor :=
  return (← get).cursor

/-- Moves the cursor. -/
def moveTo (cursor : Cursor) : Reader Unit :=
  modify fun state => { state with cursor }

/-- Skips a number of characters. -/
def advance (count : Nat) : Reader Unit :=
  modify fun state => { state with cursor := state.cursor.advance count }

/-- Skips blanks. -/
def skipBlanks : Reader Unit :=
  modify fun state => { state with cursor := state.cursor.skipBlanks }

/-- Gives up at an offset. -/
def fail {α : Type} (issue : Issue) (offset : Nat) : Reader α :=
  throw (.issue issue offset)

/-- Notes a fault that leaves the structure intact. -/
def note (issue : Issue) (offset : Nat) : Reader Unit :=
  modify fun state => { state with problems := state.problems ++ [(issue, offset)] }

/-- The readers of the level below. -/
structure Inner where
  tag : Reader Node
  braces : Reader Value

/-- Reads a text in double quotes at the cursor. -/
def string : Reader String := do
  let start ← cursor
  match stringBody (start.rest.drop 1) with
  | none => fail .unclosedString start.offset
  | some (body, used) =>
      advance (used + 1)
      return String.ofList body

/-- The value of an identifier: a keyword in any case, a constant of the table, or a constant without
a value. -/
def wordValue (constants : Constants) (word : String) : Except Value.LiftError Value :=
  let lowered := String.ofList (word.toList.map Char.toLower)
  if lowered == "true" then .ok (.boolean true)
  else if lowered == "false" then .ok (.boolean false)
  else if lowered == "null" then .ok .null
  else
    match constants.get? word with
    | none => .ok (.constant word)
    | some datum => Value.ofDatum datum

/-- The value of a numeral: a double-precision number when it has a point or an exponent, else a
whole one. -/
def numeralValue (literal : List Char) : Except Stop Value :=
  if literal.any fun c => c == '.' || c == 'e' || c == 'E' then
    let (negative, body) := Number.takeSign literal
    .ok (.number (.float ((Number.readDecimal negative body).getD .nan)))
  else
    let (negative, digits) := Number.takeSign literal
    match Number.ofDigits negative digits with
    | .ok value => .ok (.number (.int value))
    | .error _ => .error (.number (.numeral digits.length))

/-- Reads a value. -/
def value (setting : Setting) (inner : Inner) : Reader Value := do
  let start ← cursor
  match start.peek? with
  | none => fail .unexpectedEnd start.offset
  | some '"' => return .string (← string)
  | some '\x7b' => inner.braces
  | some '@' => return .tag (← inner.tag)
  | some c =>
      let literal := numeral start.rest
      if !literal.isEmpty then
        advance literal.length
        numeralValue literal
      else
        let word := identifier start.rest
        if word.isEmpty then fail (.unexpectedCharacter c) start.offset
        else
          advance word.length
          match wordValue setting.constants (String.ofList word) with
          | .ok value => return value
          | .error (.unsupported kind) =>
              fail (.unsupportedConstant (String.ofList word) kind) start.offset
          | .error .longKey => throw (.number .key)

/-- Reads items separated by commas up to a closing character, which is read too; a comma may stand
before it. Each item is read onto what the items before it gave. -/
def items {σ : Type} (close : Char) (unclosed : Reader σ) (endExpected : Char → Issue)
    (item : σ → Reader σ) : (fuel : Nat) → σ → Reader σ
  | 0, _ => unclosed
  | fuel + 1, done => do
      let done ← item done
      skipBlanks
      let here ← cursor
      match here.peek? with
      | none => unclosed
      | some c =>
          if c == ',' then
            advance 1
            skipBlanks
            if (← cursor).peek? == some close then
              advance 1
              return done
            else items close unclosed endExpected item fuel done
          else if c == close then
            advance 1
            return done
          else fail (endExpected c) here.offset

/-- Reads a list of items behind its opening character, which may be empty. -/
def list {σ : Type} (close : Char) (unclosed : Reader σ) (endExpected : Char → Issue)
    (item : σ → Reader σ) (empty : σ) : Reader σ := do
  advance 1
  skipBlanks
  let here ← cursor
  if here.peek? == some close then
    advance 1
    return empty
  else items close unclosed endExpected item (here.rest.length + 1) empty

/-- The attributes and nested tags read so far. -/
structure Arguments where
  attributes : List (Datum × Value) := []
  children : List Node := []

/-- Reads an argument of a tag: a nested tag, or a value with its name. -/
def argument (setting : Setting) (inner : Inner) (tag : String) (done : Arguments) :
    Reader Arguments := do
  let start ← cursor
  if start.peek? == some '@' then
    return { done with children := done.children ++ [← inner.tag] }
  else
    let key := simpleName start.rest
    let after := (start.advance key.length).skipBlanks
    if !key.isEmpty && after.peek? == some '=' then
      let name := String.ofList key
      moveTo (after.advance 1).skipBlanks
      let given ← value setting inner
      if done.attributes.any fun entry => entry.1.isText name then
        note (.duplicateAttribute name tag) start.offset
        return done
      else return { done with attributes := done.attributes ++ [(.text name, given)] }
    else
      let _ ← value setting inner
      note (.positionalValue tag) start.offset
      return done

/-- Reads a tag at the cursor, which stands before its mark. -/
def tag (setting : Setting) (inner : Inner) (nested : Bool) : Reader Node := do
  let start ← cursor
  let name := tagName (start.rest.drop 1)
  if name.isEmpty then fail .nameExpected start.offset
  else
    let tag := baseName name
    advance (name.length + 1)
    if nested && !isKnownTag tag then
      note (.unknownTag tag) start.offset
    let opening := (← cursor).skipInlineBlanks
    let arguments ←
      if opening.peek? == some '(' then do
        moveTo opening
        list ')' (fail (.unclosedArguments tag) opening.offset) (.argumentEndExpected tag)
          (argument setting inner tag) {}
      else pure {}
    let place := setting.place start.offset
    return { tag := .text tag, attributes := arguments.attributes, children := arguments.children,
             line := place.line.getD 0, column := place.column.getD 0 }

/-- The items and the keyed entries of a pair of braces read so far. -/
structure Entries where
  items : List Value := []
  entries : List (Datum × Value) := []

/-- Reads the key of an entry with the mark behind it, when there is one. -/
def entryKey? : Reader (Option String) := do
  let start ← cursor
  let key ←
    if start.peek? == some '"' then do
      pure (some (← string))
    else do
      let name := simpleName start.rest
      advance name.length
      pure (if name.isEmpty then none else some (String.ofList name))
  let after := (← cursor).skipBlanks
  match key, after.rest with
  | some _, ':' :: ':' :: _ =>
      moveTo start
      return none
  | some key, c :: _ =>
      if c == ':' || c == '=' then
        moveTo (after.advance 1)
        return some key
      else
        moveTo start
        return none
  | _, _ =>
      moveTo start
      return none

/-- Reads an entry of a pair of braces. -/
def entry (setting : Setting) (inner : Inner) (done : Entries) : Reader Entries := do
  skipBlanks
  let key ← entryKey?
  skipBlanks
  let given ← value setting inner
  match key with
  | none => return { done with items := done.items ++ [given] }
  | some key => return { done with entries := done.entries ++ [(.text key, given)] }

/-- Reads a pair of braces at the cursor: a mapping when an entry has a key, else an array. -/
def braces (setting : Setting) (inner : Inner) : Reader Value := do
  let start ← cursor
  let found ← list '\x7d' (fail .unclosedBraces start.offset) .braceEndExpected
    (entry setting inner) {}
  if !found.items.isEmpty && !found.entries.isEmpty then
    note .mixedBraces start.offset
  if found.entries.isEmpty then return .array found.items
  else return .mapping found.entries

/-- Refuses to go a level deeper. -/
def tooDeep {α : Type} : Reader α := do
  fail .nestedTooDeeply (← cursor).offset

/-- The readers of nested tags and braces when a number of levels is left. -/
def levels (setting : Setting) : Nat → Inner
  | 0 => { tag := tooDeep, braces := tooDeep }
  | depth + 1 =>
      let inner := levels setting depth
      { tag := tag setting inner true, braces := braces setting inner }

/-- Reads a tag that is not nested. -/
def topTag (setting : Setting) : Reader Node :=
  tag setting (levels setting (maxNesting - 1)) false

end Reader

end DocCompiler.Annotation
