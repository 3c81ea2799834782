/-!
White space of every script, and texts without it at their ends.
-/

namespace DocCompiler.Text

/-- White space: the ASCII blanks, the separators of files, groups, records and units, the next-line
mark, and the space characters of other scripts. -/
def isBlank (c : Char) : Bool :=
  let code := c.toNat
  (9 ≤ code && code ≤ 13) || (28 ≤ code && code ≤ 32) || code == 0x85 || code == 0xA0 ||
    code == 0x1680 || (0x2000 ≤ code && code ≤ 0x200A) || code == 0x2028 || code == 0x2029 ||
    code == 0x202F || code == 0x205F || code == 0x3000

/-- A blank that stays on its line: a space or a tab. -/
def isInlineBlank (c : Char) : Bool :=
  c == ' ' || c == '\t'

/-- The characters up to the last one that fails `drop`. -/
def dropEndWhile (drop : Char → Bool) (text : List Char) : List Char :=
  (text.reverse.dropWhile drop).reverse

/-- Characters without the blanks that they start with. -/
def trimStart (text : List Char) : List Char :=
  text.dropWhile isBlank

/-- Characters without the blanks that they end with. -/
def trimEnd (text : List Char) : List Char :=
  dropEndWhile isBlank text

/-- Characters without the blanks at both ends. -/
def trim (text : List Char) : List Char :=
  trimEnd (trimStart text)

/-- A text without the blanks at both ends. -/
def trimmed (text : String) : String :=
  String.ofList (trim text.toList)

end DocCompiler.Text
