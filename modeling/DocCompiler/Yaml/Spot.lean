import DocCompiler.Data.Shape
import DocCompiler.Yaml.Scalar

/-!
A place in a YAML text, and what can be told from the characters that follow it.
-/

namespace DocCompiler.Yaml

/-- Why a text cannot be read. -/
inductive ReadError
  /-- The text is not YAML, or not of the kinds of values that are read. -/
  | malformed
  /-- A scalar does not have a value of the kind that its tag asks for. -/
  | value (error : ShapeError)
  /-- A number without digits. -/
  | emptyNumeral
  /-- Collections nested too deep, or without end. -/
  | tooDeep
  deriving DecidableEq, Repr

/-- What follows a place in a text, and how far the place is from the start of the text, how many
lines precede it, and how far it is from the start of its line. -/
structure Spot where
  rest : List Char
  index : Nat
  line : Nat
  column : Nat
  deriving DecidableEq, Repr, Inhabited

/-- Whether nothing follows, or a blank or a line break. -/
def endsWord (rest : List Char) : Bool :=
  rest.head?.elim true isSeparator

/-- Whether nothing follows, or a line break. -/
def endsLine (rest : List Char) : Bool :=
  rest.head?.elim true isBreak

/-- Whether nothing follows, or a space or a line break. -/
def endsField (rest : List Char) : Bool :=
  rest.head?.elim true isSpaceOrBreak

/-- Whether three characters that mark the bounds of documents follow. -/
def startsMark (mark : Char) (rest : List Char) : Bool :=
  [mark, mark, mark].isPrefixOf rest && endsWord (rest.drop 3)

/-- Whether the start or the end of a document follows. -/
def atDocumentMark (rest : List Char) : Bool :=
  startsMark '-' rest || startsMark '.' rest

/-- The line break as it counts in a scalar: the marks of a line and of a paragraph stay. -/
def breakChar (c : Char) : Char :=
  if c.toNat == 0x2028 || c.toNat == 0x2029 then c else '\n'

/-- A character of names. -/
def isNameChar (c : Char) : Bool :=
  c.isAlphanum || c == '-' || c == '_'

/-- A digit in base sixteen. -/
def isHexDigit (c : Char) : Bool :=
  c.isDigit || ('a' ≤ c && c ≤ 'f') || ('A' ≤ c && c ≤ 'F')

namespace Spot

/-- The start of a text. -/
def start (text : List Char) : Spot :=
  ⟨text, 0, 0, 0⟩

/-- The place behind the next character. A byte-order mark takes up no column. -/
def step (spot : Spot) : Spot :=
  match spot.rest with
  | [] => spot
  | c :: rest =>
      if isBreak c then ⟨rest, spot.index + 1, spot.line + 1, 0⟩
      else ⟨rest, spot.index + 1, spot.line, if c.toNat == 0xFEFF then spot.column else spot.column + 1⟩

/-- The place some characters further on. -/
def skip : Nat → Spot → Spot
  | 0, spot => spot
  | count + 1, spot => skip count spot.step

/-- The place at which `rest` follows. -/
def skipTo (rest : List Char) (spot : Spot) : Spot :=
  spot.skip (spot.rest.length - rest.length)

/-- The place behind the characters that `keep` holds of. -/
def skipWhile (keep : Char → Bool) (spot : Spot) : Spot :=
  spot.skip (spot.rest.takeWhile keep).length

/-- The place behind spaces. -/
def skipSpaces (spot : Spot) : Spot :=
  spot.skipWhile (· == ' ')

/-- The place behind a comment, if one follows. -/
def skipComment (spot : Spot) : Spot :=
  if spot.rest.head? = some '#' then spot.skipWhile (!isBreak ·) else spot

/-- The line break that follows, and the place behind it. -/
def takeBreak? (spot : Spot) : Option (Char × Spot) :=
  match spot.rest with
  | c :: _ => if isBreak c then some (breakChar c, spot.step) else none
  | [] => none

/-- The place behind spaces, a comment and a line break; anything else is refused. -/
def finishLine (spot : Spot) : Except ReadError Spot :=
  let spot := spot.skipSpaces.skipComment
  match spot.takeBreak? with
  | some (_, next) => .ok next
  | none => if spot.rest.isEmpty then .ok spot else .error .malformed

end Spot

end DocCompiler.Yaml
