import DocCompiler.Data.Datum
import DocCompiler.Yaml.Scalar

/-!
Plain values as YAML text in block style. Lines are broken at a space once they are wider than eighty
characters; a value that stands in several places is written once, under an anchor.
-/

namespace DocCompiler.Yaml

/-- A value some of whose parts may be one and the same: parts with the same label are. -/
inductive Shared
  | leaf (label : Option Nat) (value : Datum)
  | list (label : Option Nat) (items : List Shared)
  | map (label : Option Nat) (entries : List (Datum × Shared))
  deriving Repr, Inhabited

namespace Shared

mutual

/-- A value that shares nothing. -/
def ofDatum : Datum → Shared
  | .list items => .list none (ofItems items)
  | .map entries => .map none (ofEntries entries)
  | value => .leaf none value

/-- Items that share nothing. -/
def ofItems : List Datum → List Shared
  | [] => []
  | item :: rest => ofDatum item :: ofItems rest

/-- Entries that share nothing. -/
def ofEntries : List (Datum × Datum) → List (Datum × Shared)
  | [] => []
  | (key, item) :: rest => (key, ofDatum item) :: ofEntries rest

end

/-- The label of a part, if the part can be shared at all: scalars other than times cannot. -/
def label? : Shared → Option Nat
  | .leaf label (.date _) | .leaf label (.moment _) => label
  | .leaf _ _ => none
  | .list label _ | .map label _ => label

end Shared

/-- Why a value has no YAML text. -/
inductive WriteError
  | unsupported (kind : String)
  /-- A whole number with more digits than are written. -/
  | tooLong
  deriving DecidableEq, Repr, Inhabited

/-- A double-precision number. Its text always has a point. -/
def floatText : Binary64 → String
  | .nan => ".nan"
  | .infinite negative => if negative then "-.inf" else ".inf"
  | value =>
      let text := value.text.toList
      let mantissa := text.takeWhile (· != 'e')
      if text.contains '.' || mantissa.length = text.length then value.text
      else String.ofList (mantissa ++ ['.', '0'] ++ text.drop mantissa.length)

/-- The text of a scalar, whether its kind can be told from that text, and how long the name of its
kind is. -/
def scalarText (value : Datum) : Except WriteError (String × Bool × Nat) :=
  match value with
  | .null => .ok ("null", true, 6)
  | .bool value => .ok (if value then "true" else "false", true, 6)
  | .number (.float value) => .ok (floatText value, true, 7)
  | .number (.int value) =>
      if (Number.int value).isWritable then .ok (toString value, true, 5) else .error .tooLong
  | .text value => .ok (value, ScalarKind.of value == .text, 5)
  | .date date => .ok (date.text, true, 11)
  | .moment moment => .ok (moment.text, true, 11)
  | value => .error (.unsupported value.kindName)

/-! ## Where the text is -/

/-- A written text and where it ends: the column, whether the line so far ends with a blank, whether
it consists of indentation, and whether the text could go on with more of the same scalar. -/
structure Page where
  text : String := ""
  column : Nat := 0
  blank : Bool := true
  indented : Bool := true
  openEnded : Bool := false
  deriving Repr, Inhabited

/-- Lines are broken once they are wider than this. -/
def width : Nat := 80

namespace Page

/-- Writes characters of a scalar. -/
def put (page : Page) (chars : List Char) : Page :=
  { page with text := page.text ++ String.ofList chars, column := page.column + chars.length }

/-- Ends the line, with a line feed unless another mark is given. -/
def newline (page : Page) (mark : Char := '\n') : Page :=
  { page with text := page.text.push mark, column := 0, blank := true, indented := true }

/-- Goes to an indentation, on a new line unless the line is only indented and not past it. -/
def indentTo (page : Page) (indent : Nat) : Page :=
  let page :=
    if !page.indented || indent < page.column || (page.column = indent && !page.blank) then
      page.newline
    else page
  if page.column < indent then
    { page.put (List.replicate (indent - page.column) ' ') with blank := true }
  else page

/-- Writes an indicator, behind a space if one is needed and none is there. `indents` tells that what
follows may be indented from behind the indicator. -/
def indicator (page : Page) (mark : String) (needsSpace : Bool) (blank : Bool := false)
    (indents : Bool := false) : Page :=
  let chars := if page.blank || !needsSpace then mark.toList else ' ' :: mark.toList
  { page.put chars with blank, indented := page.indented && indents, openEnded := false }

end Page

/-! ## Scalars -/

/-- What a run of characters of a scalar consists of. -/
inductive RunKind
  | word
  | spaces
  | breaks
  deriving DecidableEq, Repr

/-- The kind of the run that a character belongs to. -/
def runKind (c : Char) : RunKind :=
  if c == ' ' then .spaces else if isBreak c then .breaks else .word

/-- Writes line breaks of a scalar; the first line feed of a row is doubled. -/
def putBreaks (indent : Nat) (page : Page) (breaks : List Char) : Page :=
  let page := if breaks.head? == some '\n' then page.newline else page
  (breaks.foldl (fun page c => page.newline c) page).indentTo indent

/-- Writes a run of characters of a plain or single-quoted scalar. A single space may become a line
break; `inside` tells that the run is neither the first nor the last. -/
def putRun (indent : Nat) (split inside : Bool) (kind : RunKind) (run : List Char) (page : Page) :
    Page :=
  match kind with
  | .breaks => putBreaks indent page run
  | .spaces =>
      if run.length = 1 && width < page.column && split && inside then page.indentTo indent
      else page.put run
  | .word => page.put (run.flatMap fun c => if c == '\'' then ['\'', '\''] else [c])

/-- The runs of a text: words, rows of spaces and rows of line breaks. -/
def runs : List Char → List (RunKind × List Char)
  | [] => []
  | c :: rest =>
      match runs rest with
      | (kind, run) :: later =>
          if runKind c = kind then (kind, c :: run) :: later
          else (runKind c, [c]) :: (kind, run) :: later
      | [] => [(runKind c, [c])]

/-- Writes the runs of a scalar one after the other. -/
def putRuns (indent : Nat) (split : Bool) (first : Bool) :
    List (RunKind × List Char) → Page → Page
  | [], page => page
  | (kind, run) :: rest, page =>
      putRuns indent split false rest
        (putRun indent split (!first && !rest.isEmpty) kind run page)

/-- Writes a scalar in single quotes. -/
def putSingle (indent : Nat) (split : Bool) (text : List Char) (page : Page) : Page :=
  (putRuns indent split true (runs text) (page.indicator "'" true)).indicator "'" false

/-- Writes runs of a plain scalar, which stays on the line after a break at a space. -/
def putWords (indent : Nat) (split : Bool) : List (RunKind × List Char) → Page → Page
  | [], page => page
  | (kind, run) :: rest, page =>
      let page :=
        if kind = .spaces ∧ run.length = 1 ∧ width < page.column ∧ split then
          { page.indentTo indent with blank := false, indented := false }
        else page.put run
      putWords indent split rest page

/-- Writes a plain scalar. One that is the whole document could go on. -/
def putPlain (indent : Nat) (root split : Bool) (text : List Char) (page : Page) : Page :=
  let page := if root then { page with openEnded := true } else page
  if text.isEmpty then page
  else
    let page := if page.blank then page else page.put [' ']
    putWords indent split (runs text) { page with blank := false, indented := false }

/-- A code point in base 16, in capitals. -/
def hexUpper (digits code : Nat) : List Char :=
  (Text.hexPadded digits code).map Char.toUpper

/-- Whether a character is escaped between double quotes. -/
def needsEscape (c : Char) : Bool :=
  let code := c.toNat
  c == '"' || c == '\\' || code == 0x85 || code == 0x2028 || code == 0x2029 || code == 0xFEFF ||
    !((0x20 ≤ code && code ≤ 0x7E) || (0xA0 ≤ code && code ≤ 0xFFFD))

/-- A character as an escape. -/
def escape (c : Char) : List Char :=
  let code := c.toNat
  let named : Option Char :=
    match code with
    | 0 => some '0'
    | 7 => some 'a'
    | 8 => some 'b'
    | 9 => some 't'
    | 10 => some 'n'
    | 11 => some 'v'
    | 12 => some 'f'
    | 13 => some 'r'
    | 27 => some 'e'
    | 34 => some '"'
    | 92 => some '\\'
    | 0x85 => some 'N'
    | 0x2028 => some 'L'
    | 0x2029 => some 'P'
    | _ => none
  match named with
  | some name => ['\\', name]
  | none =>
      if code ≤ 0xFF then '\\' :: 'x' :: hexUpper 2 code
      else if code ≤ 0xFFFF then '\\' :: 'u' :: hexUpper 4 code
      else '\\' :: 'U' :: hexUpper 8 code

/-- Writes the rest of a scalar between double quotes. `run` holds the characters that are still to be
written, reversed; `first` tells that the rest is the whole. A line may be broken before a space or
behind an escape, with a backslash at its end, and another one before a space that starts a line. -/
def putEscaped (indent : Nat) (split : Bool) :
    (first : Bool) → (run : List Char) → List Char → Page → Page
  | _, run, [], page => page.put run.reverse
  | first, run, c :: rest, page =>
      let escaped := needsEscape c
      let page := if escaped then (page.put run.reverse).put (escape c) else page
      let run := if escaped then [] else run
      let wide :=
        if escaped then width + 1 < page.column else width < page.column + run.length
      let breaks := !first && !rest.isEmpty && (c == ' ' || run.isEmpty) && wide && split
      let page :=
        if breaks then
          let page := (page.put (run.reverse ++ ['\\'])).indentTo indent
          let page := { page with blank := false, indented := false }
          let next := if escaped then rest.head? else some c
          if next == some ' ' then page.put ['\\'] else page
        else page
      let run := if breaks then [] else run
      putEscaped indent split false (if escaped then run else c :: run) rest page

/-- Writes a scalar in double quotes. -/
def putDouble (indent : Nat) (split : Bool) (text : List Char) (page : Page) : Page :=
  (putEscaped indent split true [] text (page.indicator "\"" true)).indicator "\"" false

/-! ## Values -/

/-- What a value is part of. -/
inductive Role
  | root
  | item
  | key
  | value
  deriving DecidableEq, Repr

/-- The indentation inside of something at an indentation; nothing is around the document. -/
def deeper (indent : Option Nat) : Nat :=
  match indent with
  | none => 0
  | some indent => indent + 2

/-- Writes a scalar. -/
def putScalar (indent : Option Nat) (role : Role) (value : Datum) (page : Page) :
    Except WriteError Page := do
  let (text, implicit, _) ← scalarText value
  let chars := text.toList
  let inner := indent.elim 2 (· + 2)
  let split := role ≠ .key
  return match scalarStyle implicit (role = .key) chars with
    | .plain => putPlain inner (role = .root) split chars page
    | .single => putSingle inner split chars page
    | .double => putDouble inner split chars page

/-- Whether a key stands on the line of its value: it is short, not empty and on one line. -/
def isSimpleKey (key : Datum) : Except WriteError Bool := do
  let (text, _, kindLength) ← scalarText key
  let chars := text.toList
  return chars.length + kindLength < 128 && !chars.isEmpty && !isMultiline chars

/-- The name of an anchor. -/
def anchorName (number : Nat) : String :=
  "id" ++ padded 3 number

/-- The parts that have been met, in the order of their anchors those that were met again, and the
parts that have been written. -/
structure Anchors where
  met : List Nat := []
  again : List Nat := []
  deriving Repr, Inhabited

/-- Notes a label; tells whether it is met for the first time. -/
def Anchors.meet (anchors : Anchors) (label : Option Nat) : Anchors × Bool :=
  match label with
  | none => (anchors, true)
  | some label =>
      if anchors.again.contains label then (anchors, false)
      else if anchors.met.contains label then
        ({ anchors with again := anchors.again ++ [label] }, false)
      else ({ anchors with met := label :: anchors.met }, true)

mutual

/-- Notes the parts of a value that are met again. -/
def Anchors.note : Shared → Anchors → Anchors
  | .leaf label value, anchors => (anchors.meet (Shared.leaf label value).label?).1
  | .list label items, anchors =>
      let (anchors, isNew) := anchors.meet label
      if isNew then noteItems items anchors else anchors
  | .map label entries, anchors =>
      let (anchors, isNew) := anchors.meet label
      if isNew then noteEntries entries anchors else anchors

/-- Notes the parts of items. -/
def Anchors.noteItems : List Shared → Anchors → Anchors
  | [], anchors => anchors
  | item :: rest, anchors => noteItems rest (note item anchors)

/-- Notes the parts of entries. -/
def Anchors.noteEntries : List (Datum × Shared) → Anchors → Anchors
  | [], anchors => anchors
  | (_, item) :: rest, anchors => noteEntries rest (note item anchors)

end

/-- A page and the shared parts that have been written on it. -/
structure Press where
  page : Page := {}
  written : List Nat := []
  deriving Repr, Inhabited

namespace Press

/-- Changes the page. -/
def turn (press : Press) (change : Page → Page) : Press :=
  { press with page := change press.page }

end Press

/-- The number of the anchor of a part. -/
def anchor? (anchors : List Nat) (part : Shared) : Option (Nat × Nat) :=
  part.label?.bind fun label => (anchors.idxOf? label).map fun index => (label, index + 1)

/-- Writes a part: an alias when it is there already, else the part itself, behind its anchor if it has
one. -/
def anchored (anchors : List Nat) (part : Shared) (press : Press)
    (inside : Press → Except WriteError Press) : Except WriteError Press :=
  match anchor? anchors part with
  | none => inside press
  | some (label, number) =>
      if press.written.contains label then
        .ok (press.turn fun page => page.indicator ("*" ++ anchorName number) true)
      else
        inside
          { page := press.page.indicator ("&" ++ anchorName number) true
            written := label :: press.written }

/-- Writes a key with the mark behind it. A key that is not simple has a mark of its own. -/
def putKey (indent : Nat) (key : Datum) (page : Page) : Except WriteError Page := do
  let page := page.indentTo indent
  if ← isSimpleKey key then
    return (← putScalar (some indent) .key key page).indicator ":" false
  else
    let page ← putScalar (some indent) .value key (page.indicator "?" true false true)
    return (page.indentTo indent).indicator ":" true false true

mutual

/-- Writes a value. A list that is the value of a key is not indented further than the key. -/
def putValue (anchors : List Nat) (indent : Option Nat) (role : Role) :
    Shared → Press → Except WriteError Press
  | .leaf label value, press =>
      anchored anchors (.leaf label value) press fun press => do
        return { press with page := ← putScalar indent role value press.page }
  | .list label items, press =>
      anchored anchors (.list label items) press fun press =>
        if items.isEmpty then
          .ok (press.turn fun page => (page.indicator "[" true true).indicator "]" false)
        else
          let inner :=
            match indent with
            | some indent => if role = .value && !press.page.indented then indent else indent + 2
            | none => 0
          putItems anchors inner items press
  | .map label entries, press =>
      anchored anchors (.map label entries) press fun press =>
        if entries.isEmpty then
          .ok (press.turn fun page => (page.indicator "\x7b" true true).indicator "\x7d" false)
        else putEntries anchors (deeper indent) entries press

/-- Writes items, each behind a hyphen. -/
def putItems (anchors : List Nat) (indent : Nat) :
    List Shared → Press → Except WriteError Press
  | [], press => .ok press
  | item :: rest, press => do
      let press := press.turn fun page => (page.indentTo indent).indicator "-" true false true
      let press ← putValue anchors (some indent) .item item press
      putItems anchors indent rest press

/-- Writes entries. -/
def putEntries (anchors : List Nat) (indent : Nat) :
    List (Datum × Shared) → Press → Except WriteError Press
  | [], press => .ok press
  | (key, item) :: rest, press => do
      let page ← putKey indent key press.page
      let press ← putValue anchors (some indent) .value item { press with page }
      putEntries anchors indent rest press

end

/-- A value as YAML text. -/
def write (value : Shared) : Except WriteError String := do
  let anchors := (Anchors.note value {}).again
  let press ← putValue anchors none .root value {}
  let page := press.page.indentTo 0
  let page := if page.openEnded then (page.indicator "..." true).indentTo 0 else page
  return page.text

end DocCompiler.Yaml
