/-!
The extent of a bracketed part of a program text. Brackets in texts between quotes and in comments do
not count.
-/

namespace DocCompiler.Bracket

/-- The bracket that closes an opening one. -/
def closing (opening : Char) : Char :=
  if opening == '\x7b' then '\x7d' else if opening == '(' then ')' else ']'

/-- Where the scan of a program text is. -/
inductive Mode
  /-- Outside of texts and comments. -/
  | code
  /-- Behind the first character of a two-character mark. -/
  | mark (next : Mode)
  /-- In a text that ends with a quote or with its line. -/
  | quoted (quote : Char)
  /-- Behind a backslash in a text. -/
  | escaped (quote : Char)
  /-- In a comment that ends with its closing mark. -/
  | block
  /-- In a comment that ends with its line. -/
  | line
  deriving DecidableEq, Repr

/-- How many characters of a program text it takes to close `depth` brackets, all of them when they
are not closed. -/
def extent (opening : Char) (mode : Mode) (depth : Nat) : List Char → Nat
  | [] => 0
  | c :: rest =>
      match mode with
      | .mark next => 1 + extent opening next depth rest
      | .quoted quote =>
          let next : Mode :=
            if c == '\\' then .escaped quote
            else if c == quote || c == '\n' then .code
            else .quoted quote
          1 + extent opening next depth rest
      | .escaped quote => 1 + extent opening (.quoted quote) depth rest
      | .block =>
          let next : Mode := if c == '*' && rest.head? == some '/' then .mark .code else .block
          1 + extent opening next depth rest
      | .line =>
          let next : Mode := if c == '\n' then .code else .line
          1 + extent opening next depth rest
      | .code =>
          if c == '"' || c == '\'' then 1 + extent opening (.quoted c) depth rest
          else if c == '/' && rest.head? == some '*' then
            1 + extent opening (.mark .block) depth rest
          else if c == '/' && rest.head? == some '/' then
            1 + extent opening (.mark .line) depth rest
          else if c == opening then 1 + extent opening .code (depth + 1) rest
          else if c == closing opening then
            if depth ≤ 1 then 1 else 1 + extent opening .code (depth - 1) rest
          else 1 + extent opening .code depth rest

/-- How many characters the bracketed part takes that a text starts with. -/
def matchExtent : List Char → Nat
  | [] => 0
  | opening :: rest => 1 + extent opening .code 1 rest

end DocCompiler.Bracket
