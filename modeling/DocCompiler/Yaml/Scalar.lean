import DocCompiler.Yaml.Implicit

/-!
How a scalar may be written: what its characters are and where its blanks and line breaks stand
decides which of the styles can hold it.
-/

namespace DocCompiler.Yaml

/-- A line break inside a scalar. -/
def isBreak (c : Char) : Bool :=
  c == '\n' || c.toNat == 0x85 || c.toNat == 0x2028 || c.toNat == 0x2029

/-- A character that separates words: a blank, a line break or the null character. -/
def isSeparator (c : Char) : Bool :=
  c == '\x00' || c == ' ' || c == '\t' || c == '\r' || isBreak c

/-- A character that can be written as it is only between double quotes. -/
def isSpecial (c : Char) : Bool :=
  let code := c.toNat
  !(c == '\n' || (0x20 ≤ code && code ≤ 0x7E) || code == 0x85 ||
    (0xA0 ≤ code && code ≤ 0xFFFD && code != 0xFEFF) || (0x10000 ≤ code && code < 0x10FFFF))

/-- What matters about a scalar for the choice of its style. -/
structure Traits where
  /-- An indicator stands where it would end a plain scalar. -/
  indicator : Bool := false
  lineBreak : Bool := false
  special : Bool := false
  /-- A space stands behind a line break. -/
  breakSpace : Bool := false
  /-- A line break stands behind a space. -/
  spaceBreak : Bool := false
  deriving DecidableEq, Repr, Inhabited

/-- The traits of the rest of a scalar behind the character `before`. -/
def traitsFrom (before : Char) : List Char → Traits
  | [] => {}
  | c :: rest =>
      let later := traitsFrom c rest
      let ends := rest.head?.elim true isSeparator
      let here := (c == ':' && ends) || (c == '#' && isSeparator before)
      { indicator := here || later.indicator
        lineBreak := isBreak c || later.lineBreak
        special := isSpecial c || later.special
        breakSpace := (c == ' ' && isBreak before) || later.breakSpace
        spaceBreak := (isBreak c && before == ' ') || later.spaceBreak }

/-- The characters that no plain scalar starts with. -/
def leadingIndicators : List Char :=
  ['#', ',', '[', ']', '\x7b', '\x7d', '&', '*', '!', '|', '>', '\'', '"', '%', '@', '\x60']

/-- Whether a scalar starts with an indicator or with the mark of a document. -/
def startsWithIndicator (text : List Char) : Bool :=
  match text with
  | [] => false
  | c :: rest =>
      let ends := rest.head?.elim true isSeparator
      leadingIndicators.contains c ||
        ((c == '?' || c == ':' || c == '-') && ends) ||
        ['-', '-', '-'].isPrefixOf text || ['.', '.', '.'].isPrefixOf text

/-- The traits of a scalar. -/
def traits (text : List Char) : Traits :=
  match text with
  | [] => {}
  | c :: rest =>
      let later := traitsFrom c rest
      { indicator := startsWithIndicator text || later.indicator
        lineBreak := isBreak c || later.lineBreak
        special := isSpecial c || later.special
        breakSpace := later.breakSpace
        spaceBreak := later.spaceBreak }

/-- Whether a character is a space or a line break. -/
def isSpaceOrBreak (c : Char) : Bool :=
  c == ' ' || isBreak c

/-- The styles of scalars. -/
inductive ScalarStyle
  | plain
  | single
  | double
  deriving DecidableEq, Repr, Inhabited

/-- Whether a scalar takes up several lines. -/
def isMultiline (text : List Char) : Bool :=
  text.any isBreak

/-- Whether a scalar can be written without quotes. -/
def allowsPlain (text : List Char) : Bool :=
  let found := traits text
  !(text.head?.any isSpaceOrBreak || text.getLast?.any isSpaceOrBreak || found.breakSpace ||
    found.spaceBreak || found.special || found.lineBreak || found.indicator)

/-- Whether a scalar can be written in single quotes. -/
def allowsSingle (text : List Char) : Bool :=
  let found := traits text
  !(found.breakSpace || found.spaceBreak || found.special)

/-- The style of a scalar. `implicit` tells that its kind can be told from its text; a key stays on
one line. -/
def scalarStyle (implicit simpleKey : Bool) (text : List Char) : ScalarStyle :=
  if implicit && !(simpleKey && (text.isEmpty || isMultiline text)) && allowsPlain text then .plain
  else if allowsSingle text && !(simpleKey && isMultiline text) then .single
  else .double

end DocCompiler.Yaml
