import DocCompiler.Annotation.TagReader
import DocCompiler.Source.Block

/-!
The annotations of a doc comment. A tag starts a line; a fault in one tag is reported once, and
reading goes on at the next line that does not stand deeper.
-/

namespace DocCompiler.Annotation

open Text

/-- The text from the start of each line on, with its offset; the first line starts at `offset`. -/
def lineStarts (offset : Nat) : List Char → List Cursor
  | [] => [⟨offset, []⟩]
  | c :: rest =>
      ⟨offset, c :: rest⟩ :: behindBreaks offset (c :: rest)
where
  /-- The text behind each line break. -/
  behindBreaks (offset : Nat) : List Char → List Cursor
    | [] => []
    | c :: rest =>
        if c == '\n' then ⟨offset + 1, rest⟩ :: behindBreaks (offset + 1) rest
        else behindBreaks (offset + 1) rest

/-- A tag mark with a name that stands first on its line. -/
structure Candidate where
  indent : Nat
  start : Cursor
  name : List Char
  deriving DecidableEq, Repr, Inhabited

/-- The tag that a line starts with, behind spaces and tabs. -/
def candidate? (line : Cursor) : Option Candidate :=
  let start := line.skipInlineBlanks
  let name := tagName (start.rest.drop 1)
  if start.peek? == some '@' && !name.isEmpty then
    some { indent := start.offset - line.offset, start, name }
  else none

/-- Where reading goes on: not before an offset, and not at a deeper indentation. -/
structure Resume where
  offset : Nat := 0
  maxIndent : Option Nat := none
  deriving DecidableEq, Repr, Inhabited

/-- Whether a candidate is to be read. -/
def Resume.admits (resume : Resume) (candidate : Candidate) : Bool :=
  resume.offset ≤ candidate.start.offset && resume.maxIndent.all (candidate.indent ≤ ·)

/-- What reading a candidate gives: at most one annotation, the faults, and where to go on. -/
structure Outcome where
  node : Option Node := none
  issues : List (Issue × Nat) := []
  resume : Resume

/-- The offset behind the next line break. -/
def nextLine (cursor : Cursor) : Nat :=
  let line := cursor.rest.takeWhile (· != '\n')
  cursor.offset + line.length + (if line.length < cursor.rest.length then 1 else 0)

/-- Reads the tag of a candidate without arguments. A name that is no tag is left alone. -/
def readBare (setting : Setting) (candidate : Candidate) : Outcome :=
  let tag := baseName candidate.name
  let place := setting.place candidate.start.offset
  let resume : Resume := { offset := candidate.start.offset + candidate.name.length + 1 }
  if isTopLevelTag tag then
    { node := some ⟨.text tag, [], [], place.line.getD 0, place.column.getD 0⟩, resume }
  else if isNestedOnlyTag tag then
    { issues := [(.nestedOnlyTag tag, candidate.start.offset)], resume }
  else { resume }

/-- Reads the tag of a candidate with arguments. Only a whole number that is too long stops it. -/
def readTag (setting : Setting) (candidate : Candidate) : Except LongNumber Outcome :=
  match (Reader.topTag setting).run { cursor := candidate.start } with
  | .error (.number number) => .error number
  | .error (.issue issue offset) =>
      .ok { issues := [(issue, offset)],
            resume := { offset := nextLine candidate.start, maxIndent := some candidate.indent } }
  | .ok (node, state) =>
      let tag := baseName candidate.name
      let issues :=
        if !isKnownTag tag then (.unknownTag tag, candidate.start.offset) :: state.problems
        else if isNestedOnlyTag tag then
          (.nestedOnlyTag tag, candidate.start.offset) :: state.problems
        else state.problems
      .ok { node := if issues.isEmpty then some node else none
            issues
            resume := { offset := state.cursor.offset } }

/-- Reads a candidate. Arguments may stand behind spaces and tabs. -/
def readCandidate (setting : Setting) (candidate : Candidate) : Except LongNumber Outcome :=
  let after := (candidate.start.advance (candidate.name.length + 1)).skipInlineBlanks
  if after.peek? == some '(' then readTag setting candidate
  else .ok (readBare setting candidate)

/-- Reads lines one after the other. -/
def readLines (setting : Setting) (resume : Resume) :
    List Cursor → Except LongNumber (List Node × List (Issue × Nat))
  | [] => .ok ([], [])
  | line :: rest =>
      match (candidate? line).filter resume.admits with
      | none => readLines setting resume rest
      | some candidate => do
          let outcome ← readCandidate setting candidate
          let (nodes, issues) ← readLines setting outcome.resume rest
          return (outcome.node.toList ++ nodes, outcome.issues ++ issues)

/-- The annotations of a text and its faults, with the places of its offsets. The only failure is a
whole number that is too long. -/
def parseText (constants : Constants) (place : Nat → Location) (text : List Char) :
    Except LongNumber (List Node × List ParseError) := do
  let (nodes, issues) ← readLines { constants, place } {} (lineStarts 0 text)
  return (nodes, issues.map fun (issue, offset) => ⟨issue, place offset⟩)

/-- The annotations of a doc comment and the faults in it. -/
def parse (constants : Constants) (block : Block) :
    Except LongNumber (List Node × List ParseError) :=
  let text := block.text.toList
  let place := locate block.source block.startLine block.startColumn block.lineColumns text
  parseText constants place text

end DocCompiler.Annotation
