import DocCompiler.Source.Bracket
import DocCompiler.Text.Pattern
import DocCompiler.Source.Block
import DocCompiler.Text.LetterCase
import DocCompiler.Text.Split

/-!
Detectors of declarations in the sources of one programming language: which files they read, which
declaration follows a doc comment, and how far the bodies of types reach.
-/

namespace DocCompiler

/-- A detector, given by the patterns of its language. `implementation` identifies what it does in the
signature of a cache. -/
structure Detector where
  name : String
  suffixes : List String
  typePattern : Pattern
  methodPattern : Pattern
  fieldPattern : Pattern
  decoration : Option Pattern := none
  implementation : String := ""

/-- A declaration that starts at an offset. -/
structure Declaration where
  kind : SymbolKind
  name : String
  offset : Nat
  declaredType : Option String := none
  deriving DecidableEq, Repr, Inhabited

/-- The extent of a type from the start of its declaration to the end of its body. -/
structure TypeSpan where
  name : String
  start : Nat
  stop : Nat
  deriving DecidableEq, Repr, Inhabited

/-- Whether an offset lies inside the extent of a type. -/
def TypeSpan.holds (span : TypeSpan) (offset : Nat) : Bool :=
  span.start < offset && offset < span.stop

namespace Detector

open Text

/-- Whether a detector reads a file. -/
def supports (detector : Detector) (path : String) : Bool :=
  detector.suffixes.any fun suffix => endsWith suffix (lower path)

/-- The first detector that reads a file. -/
def find? (detectors : List Detector) (path : String) : Option Detector :=
  List.find? (fun detector => detector.supports path) detectors

/-- The declaration of a kind that a text starts with. -/
def declarationOf? (pattern : Pattern) (kind : SymbolKind) (offset : Nat) (text : List Char) :
    Option Declaration :=
  (pattern.matchStart? text).map fun found =>
    let declared := found.part? .type
    { kind, offset
      name := (found.part? .name).getD ""
      declaredType := (declared.filter (!·.isEmpty)).map trimmed }

/-- The declaration that starts at an offset: a type, else a method, else a field. -/
def declarationAt? (detector : Detector) (text : List Char) (offset : Nat) : Option Declaration :=
  let here := text.drop offset
  (declarationOf? detector.typePattern .type offset here).or
    ((declarationOf? detector.methodPattern .method offset here).or
      (declarationOf? detector.fieldPattern .field offset here))

/-- The offset behind the decorations at an offset, each with its bracketed arguments and the blanks
that follow; `fuel` bounds their number. -/
def skipDecorationsFrom (pattern : Pattern) : (fuel : Nat) → (offset : Nat) → List Char → Nat
  | 0, offset, _ => offset
  | fuel + 1, offset, text =>
      match pattern.matchStart? text with
      | none => offset
      | some found =>
          let last := text.drop (found.taken - 1)
          let opens := last.head? == some '(' || last.head? == some '['
          let used :=
            if opens && !found.rest.isEmpty then found.taken - 1 + Bracket.matchExtent last
            else found.taken
          let blanks := ((text.drop used).takeWhile isBlank).length
          skipDecorationsFrom pattern fuel (offset + used + blanks) (text.drop (used + blanks))

/-- The offset behind the decorations that stand at an offset. -/
def skipDecorations (detector : Detector) (text : List Char) (offset : Nat) : Nat :=
  match detector.decoration with
  | none => offset
  | some pattern => skipDecorationsFrom pattern text.length offset (text.drop offset)

/-- The extents of the types declared from a text on that starts at `offset`. Declarations are looked
for at the starts of lines, from `resume` on; `atLineStart` tells whether the text starts a line. -/
def typeSpansFrom (pattern : Pattern) (resume offset : Nat) (atLineStart : Bool) :
    List Char → List TypeSpan
  | [] => []
  | c :: rest =>
      let found :=
        if atLineStart && resume ≤ offset then
          (Pattern.follow (.any isInlineBlank) pattern).matchStart? (c :: rest)
        else none
      match found with
      | none => typeSpansFrom pattern resume (offset + 1) (c == '\n') rest
      | some found =>
          let stop := offset + found.taken
          let later := typeSpansFrom pattern stop (offset + 1) (c == '\n') rest
          let before := (found.rest.takeWhile (· != '\x7b')).length
          match found.rest.drop before with
          | [] => later
          | body =>
              { name := (found.part? .name).getD "", start := offset
                stop := stop + before + Bracket.matchExtent body } :: later

/-- The extents of all types declared in a text. -/
def typeSpans (detector : Detector) (text : List Char) : List TypeSpan :=
  typeSpansFrom detector.typePattern 0 0 true text

end Detector

end DocCompiler
