import DocCompiler.Number.Numeral
import DocCompiler.Text.Split
import DocCompiler.Text.Word

/-!
A place in a text with what follows it, and the words of the annotation language at such a place.
-/

namespace DocCompiler.Annotation

open Text

/-- An offset of a text together with the text from there on. -/
structure Cursor where
  offset : Nat
  rest : List Char
  deriving DecidableEq, Repr, Inhabited

namespace Cursor

/-- The character at the cursor. -/
def peek? (cursor : Cursor) : Option Char :=
  cursor.rest.head?

/-- The cursor behind the next `count` characters. -/
def advance (cursor : Cursor) (count : Nat) : Cursor :=
  { offset := cursor.offset + count, rest := cursor.rest.drop count }

/-- The cursor behind the characters that satisfy `skip`. -/
def skipWhile (cursor : Cursor) (skip : Char → Bool) : Cursor :=
  cursor.advance (cursor.rest.takeWhile skip).length

/-- The cursor behind blanks and line breaks. -/
def skipBlanks (cursor : Cursor) : Cursor :=
  cursor.skipWhile isBlank

/-- The cursor behind spaces and tabs. -/
def skipInlineBlanks (cursor : Cursor) : Cursor :=
  cursor.skipWhile isInlineBlank

end Cursor

/-- The simple name that a text starts with: a letter or underscore and word characters. -/
def simpleName : List Char → List Char
  | [] => []
  | c :: rest => if isNameStart c then c :: rest.takeWhile isWord else []

/-- Further simple names, each behind a separator, that a text starts with; `fuel` bounds their
number. -/
def furtherNames (separator : List Char → List Char) : (fuel : Nat) → List Char → List Char
  | 0, _ => []
  | fuel + 1, text =>
      let mark := separator text
      match mark, simpleName (text.drop mark.length) with
      | [], _ => []
      | _, [] => []
      | mark, name =>
          let link := mark ++ name
          link ++ furtherNames separator fuel (text.drop link.length)

/-- The mark between the parts of a namespaced tag. -/
def namespaceMark : List Char → List Char
  | '\\' :: _ => ['\\']
  | _ => []

/-- The marks between the parts of an identifier. -/
def memberMark : List Char → List Char
  | ':' :: ':' :: _ => [':', ':']
  | '.' :: _ => ['.']
  | _ => []

/-- The tag name that a text starts with: simple names with backslashes between them. -/
def tagName (text : List Char) : List Char :=
  let first := simpleName text
  if first.isEmpty then []
  else first ++ furtherNames namespaceMark text.length (text.drop first.length)

/-- The last part of a namespaced tag name. -/
def baseName (name : List Char) : String :=
  Text.afterLast '\\' (String.ofList name)

/-- The identifier that a text starts with: an optional backslash, a namespaced name, and members
behind colons or points. -/
def identifier (text : List Char) : List Char :=
  let lead := namespaceMark text
  match text.drop lead.length with
  | [] => []
  | c :: rest =>
      if isNameStart c then
        let first := lead ++ c :: rest.takeWhile fun c => isWord c || c == '\\'
        first ++ furtherNames memberMark text.length (text.drop first.length)
      else []

/-- The sign that a text starts with. -/
def signMark : List Char → List Char
  | '-' :: _ => ['-']
  | '+' :: _ => ['+']
  | _ => []

/-- The digits that a text starts with. -/
def digitRun (text : List Char) : List Char :=
  text.takeWhile isDecimal

/-- The digits of a number with or without a point that a text starts with. -/
def mantissa (text : List Char) : List Char :=
  let whole := digitRun text
  match text.drop whole.length with
  | '.' :: rest =>
      let fraction := digitRun rest
      if whole.isEmpty && fraction.isEmpty then [] else whole ++ '.' :: fraction
  | _ => whole

/-- The exponent that a text starts with. -/
def exponent : List Char → List Char
  | [] => []
  | c :: rest =>
      if c == 'e' || c == 'E' then
        let sign := signMark rest
        let digits := digitRun (rest.drop sign.length)
        if digits.isEmpty then [] else c :: sign ++ digits
      else []

/-- The number that a text starts with. -/
def numeral (text : List Char) : List Char :=
  let sign := signMark text
  let body := mantissa (text.drop sign.length)
  if body.isEmpty then []
  else
    let number := sign ++ body
    number ++ exponent (text.drop number.length)

/-- The body of a text in double quotes, up to its closing quote, and what it takes up, the closing
quote included. A doubled quote stands for a quote, as does one behind a backslash; a backslash
behind a backslash stands for one. `none` when the quote is not closed. -/
def stringBody : List Char → Option (List Char × Nat)
  | [] => none
  | '\\' :: '"' :: rest => (stringBody rest).map fun (body, used) => ('"' :: body, used + 2)
  | '\\' :: '\\' :: rest => (stringBody rest).map fun (body, used) => ('\\' :: body, used + 2)
  | '"' :: '"' :: rest => (stringBody rest).map fun (body, used) => ('"' :: body, used + 2)
  | '"' :: _ => some ([], 1)
  | c :: rest => (stringBody rest).map fun (body, used) => (c :: body, used + 1)

end DocCompiler.Annotation
