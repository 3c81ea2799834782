import DocCompiler.Source.Block
import DocCompiler.Source.Detector
import DocCompiler.Source.Diagnostic

/-!
The doc comments of a source text: where they are, their text without decoration, and the
declarations they belong to.
-/

namespace DocCompiler

open Text

/-- A doc comment: the offset of its opening mark, the text between its marks, and the offset behind
its closing mark. -/
structure DocComment where
  start : Nat
  inner : List Char
  stop : Nat
  deriving DecidableEq, Repr, Inhabited

/-- Whether a text starts with the mark that opens a doc comment. A third star or a slash behind it
makes another kind of comment. -/
def opensDoc : List Char → Bool
  | '/' :: '*' :: '*' :: '*' :: _ => false
  | '/' :: '*' :: '*' :: '/' :: _ => false
  | '/' :: '*' :: '*' :: _ => true
  | _ => false

/-- The doc comments of a text that starts at `offset`, and the offset of one that is not closed.
`skip` characters belong to the comment before. -/
def docCommentsFrom (offset skip : Nat) : List Char → List DocComment × Option Nat
  | [] => ([], none)
  | c :: rest =>
      if 0 < skip then docCommentsFrom (offset + 1) (skip - 1) rest
      else if opensDoc (c :: rest) then
        let body := rest.drop 2
        match indexOf? ['*', '/'] body with
        | none => ([], some offset)
        | some length =>
            let (comments, unclosed) := docCommentsFrom (offset + 1) (length + 4) rest
            (⟨offset, body.take length, offset + length + 5⟩ :: comments, unclosed)
      else docCommentsFrom (offset + 1) 0 rest

/-- The width of the decoration that a line of a comment starts with: blanks, a star that neither
doubles nor closes, and one space. -/
def decorationWidth (line : List Char) : Nat :=
  let blanks := (line.takeWhile isInlineBlank).length
  match line.drop blanks with
  | '*' :: '*' :: _ => 0
  | '*' :: '/' :: _ => 0
  | '*' :: ' ' :: _ => blanks + 2
  | '*' :: _ => blanks + 1
  | _ => 0

/-- A line of a comment without its decoration and the blanks at its end, and the column it then
starts at. -/
def cleanLine (line : List Char) : List Char × Int :=
  let width := decorationWidth line
  (trimEnd (line.drop width), (width : Int) + 1)

/-- The lines of a comment that starts at a column, each with the column it starts at when clean. The
first line has no decoration. -/
def cleanLines (firstColumn : Nat) (inner : List Char) : List (List Char × Int) :=
  match inner.splitOn '\n' with
  | [] => []
  | first :: rest =>
      let head := trimStart first
      (trimEnd head, ((firstColumn + (first.length - head.length) : Nat) : Int)) ::
        rest.map cleanLine

/-- The text of a comment without its decoration; its lines stay apart. -/
def cleanText (inner : List Char) : List Char :=
  ['\n'].intercalate ((cleanLines 1 inner).map (·.1))

/-- The type around an offset: the one that starts last. -/
def enclosingType? (spans : List TypeSpan) (offset : Nat) : Option TypeSpan :=
  (spans.filter fun span => span.holds offset).foldl
    (fun best span =>
      match best with
      | none => some span
      | some inner => if inner.start < span.start then some span else best)
    none

/-- The symbol of a declaration. Methods and fields belong to the type around them. -/
def Declaration.symbol (declaration : Declaration) (spans : List TypeSpan) : Symbol :=
  let parent :=
    if declaration.kind = .type then none
    else (enclosingType? spans declaration.offset).map (·.name)
  { kind := declaration.kind
    name := .text declaration.name
    qualifiedName := .text <|
      match parent with
      | some parent =>
          if parent.isEmpty then declaration.name else parent ++ "." ++ declaration.name
      | none => declaration.name
    parent := parent.elim .null .text
    declaredType := declaration.declaredType.elim .null .text }

/-- The symbol that a doc comment ending at an offset belongs to: the declaration that follows, behind
blanks and decorations, else the file. -/
def symbolAfter (identity : String) (detector : Option Detector) (spans : List TypeSpan)
    (text : List Char) (offset : Nat) : Symbol :=
  match detector with
  | none => .ofFile identity
  | some detector =>
      let offset := offset + ((text.drop offset).takeWhile isBlank).length
      let offset := detector.skipDecorations text offset
      match detector.declarationAt? text offset with
      | none => .ofFile identity
      | some declaration => declaration.symbol spans

/-- The block of a doc comment. -/
def DocComment.block (comment : DocComment) (identity : String) (detector : Option Detector)
    (spans : List TypeSpan) (text : List Char) : Block :=
  let lines := cleanLines (columnOf text (comment.start + 3)) comment.inner
  { source := identity
    symbol := symbolAfter identity detector spans text comment.stop
    startLine := lineOf text comment.start
    startColumn := columnOf text comment.start
    endLine := lineOf text comment.stop
    text := String.ofList (['\n'].intercalate (lines.map (·.1)))
    lineColumns := lines.map (·.2) }

/-- The blocks of a source text in order, and a diagnostic when a doc comment is not closed. -/
def extractBlocks (identity : String) (text : List Char) (detector : Option Detector) :
    List Block × List Diagnostic :=
  let spans := detector.elim [] fun detector => detector.typeSpans text
  let (comments, unclosed) := docCommentsFrom 0 0 text
  let blocks := comments.map fun comment => comment.block identity detector spans text
  let diagnostics := unclosed.toList.map fun offset =>
    Diagnostic.error .extract "unterminated doc comment"
      (some { path := identity, line := some (lineOf text offset),
              column := some (columnOf text offset) })
  (blocks, diagnostics)

end DocCompiler
