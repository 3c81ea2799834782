/-!
Texts cut at a separator and put together again, parts found in a text, and lines and columns of
offsets in a text. There a line ends with a line feed.
-/

namespace DocCompiler.Text

/-- The offset of the first place where `part` occurs. -/
def indexOf? (part : List Char) : List Char → Option Nat
  | [] => if part.isEmpty then some 0 else none
  | c :: rest =>
      if part.isPrefixOf (c :: rest) then some 0
      else (indexOf? part rest).map (· + 1)

/-- The fields between the occurrences of a separator; there is always one more field than there are
separators. -/
def splitOn (separator : Char) (text : String) : List String :=
  (text.toList.splitOn separator).map String.ofList

/-- What follows the last occurrence of a separator, the whole text when there is none. -/
def afterLast (separator : Char) (text : String) : String :=
  String.ofList (text.toList.reverse.takeWhile (· != separator)).reverse

/-- What precedes the first occurrence of a separator, the whole text when there is none. -/
def beforeFirst (separator : Char) (text : String) : String :=
  String.ofList (text.toList.takeWhile (· != separator))

/-- Texts put together with a separator between neighbours. -/
def joinWith (separator : String) (parts : List String) : String :=
  separator.intercalate parts

/-- Whether a text starts with another. -/
def startsWith (start text : String) : Bool :=
  start.toList.isPrefixOf text.toList

/-- Whether a text ends with another. -/
def endsWith (ending text : String) : Bool :=
  ending.toList.isSuffixOf text.toList

/-- A text in which a carriage return, alone or before a line feed, is written as a line feed. -/
def unifyNewlines : List Char → List Char
  | '\r' :: '\n' :: rest => '\n' :: unifyNewlines rest
  | '\r' :: rest => '\n' :: unifyNewlines rest
  | c :: rest => c :: unifyNewlines rest
  | [] => []

/-- A character that ends a line where lines are those of a list of patterns. -/
def isLineBreak (c : Char) : Bool :=
  let code := c.toNat
  (10 ≤ code && code ≤ 13) || (28 ≤ code && code ≤ 30) || code == 0x85 || code == 0x2028 ||
    code == 0x2029

/-- The lines of a text without their breaks; `line` holds the current line so far, reversed. -/
def linesAux (line : List Char) : List Char → List String
  | [] => if line.isEmpty then [] else [String.ofList line.reverse]
  | c :: rest =>
      if isLineBreak c then
        match c, rest with
        | '\r', '\n' :: rest => String.ofList line.reverse :: linesAux [] rest
        | _, rest => String.ofList line.reverse :: linesAux [] rest
      else linesAux (c :: line) rest

/-- The lines of a text at every kind of line break; no empty line follows the last break. -/
def lines (text : String) : List String :=
  linesAux [] text.toList

/-- The 1-based line of the character at `offset`. -/
def lineOf (text : List Char) (offset : Nat) : Nat :=
  (text.take offset).count '\n' + 1

/-- How many characters stand before `offset` on its line. -/
def indentOf (text : List Char) (offset : Nat) : Nat :=
  ((text.take offset).reverse.takeWhile (· != '\n')).length

/-- The 1-based column of the character at `offset`; an offset past the end of the text counts the
missing characters too. -/
def columnOf (text : List Char) (offset : Nat) : Nat :=
  indentOf text offset + (offset - text.length) + 1

end DocCompiler.Text
