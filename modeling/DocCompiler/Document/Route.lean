import DocCompiler.Text.Blank
import DocCompiler.Text.Word

/-!
Paths of operations and the placeholders in them. The canonical form of a path starts with a slash,
has single slashes, and writes every placeholder as a name in braces.
-/

namespace DocCompiler.Route

open Text

/-- A character that may go on in the name of a placeholder. -/
def isNameChar (c : Char) : Bool :=
  c.isAlphanum || c == '_'

/-- The name that a text starts with. -/
def placeholderName : List Char → List Char
  | [] => []
  | c :: rest => if isNameStart c then c :: rest.takeWhile isNameChar else []

/-- Placeholders written with a colon behind a slash, in braces. `skip` characters belong to the name
before. -/
def braceColons (skip : Nat) : List Char → List Char
  | [] => []
  | c :: rest =>
      if 0 < skip then braceColons (skip - 1) rest
      else
        match c, rest with
        | '/', ':' :: more =>
            let name := placeholderName more
            if name.isEmpty then c :: braceColons 0 rest
            else '/' :: '\x7b' :: name ++ '\x7d' :: braceColons (name.length + 1) rest
        | _, _ => c :: braceColons 0 rest

/-- The name of a placeholder in braces with a constraint that a text starts with, and the length of
the whole. The constraint ends at the first closing brace and is not empty. -/
def constrained? (text : List Char) : Option (List Char × Nat) :=
  match text with
  | '\x7b' :: rest =>
      let name := placeholderName rest
      let after := rest.drop name.length
      let blanks := (after.takeWhile isBlank).length
      match after.drop blanks with
      | ':' :: constraint =>
          let length := (constraint.takeWhile (· != '\x7d')).length
          if name.isEmpty || length = 0 || length = constraint.length then none
          else some (name, 1 + name.length + blanks + 1 + length + 1)
      | _ => none
  | _ => none

/-- Placeholders in braces without their constraints. `skip` characters belong to the placeholder
before. -/
def dropConstraints (skip : Nat) : List Char → List Char
  | [] => []
  | c :: rest =>
      if 0 < skip then dropConstraints (skip - 1) rest
      else
        match constrained? (c :: rest) with
        | some (name, length) => '\x7b' :: name ++ '\x7d' :: dropConstraints (length - 1) rest
        | none => c :: dropConstraints 0 rest

/-- A path in which every run of slashes is one. -/
def mergeSlashes : List Char → List Char
  | '/' :: '/' :: rest => mergeSlashes ('/' :: rest)
  | c :: rest => c :: mergeSlashes rest
  | [] => []

/-- A path without the slash at its end, unless it is the slash alone. -/
def dropLastSlash (path : List Char) : List Char :=
  if 1 < path.length && path.getLast? == some '/' then path.dropLast else path

/-- A path that starts with a slash. -/
def rooted (path : List Char) : List Char :=
  if path.head? == some '/' then path else '/' :: path

/-- The canonical form of a path. -/
def normalizeChars (path : List Char) : List Char :=
  dropLastSlash (mergeSlashes (dropConstraints 0 (braceColons 0 (rooted (trim path)))))

/-- The canonical form of a path. -/
def normalize (path : String) : String :=
  String.ofList (normalizeChars path.toList)

/-- The name in braces that a text starts with, when there is one without braces and slashes. -/
def placeholder? : List Char → Option (List Char)
  | '\x7b' :: rest =>
      let name := rest.takeWhile fun c => c != '\x7b' && c != '\x7d' && c != '/'
      if name.isEmpty || (rest.drop name.length).head? != some '\x7d' then none else some name
  | _ => none

/-- The names of the placeholders of a path, in order. -/
def placeholderChars : List Char → List (List Char)
  | [] => []
  | c :: rest => (placeholder? (c :: rest)).toList ++ placeholderChars rest

/-- The names of the placeholders of a path, in order. -/
def placeholders (path : String) : List String :=
  (placeholderChars path.toList).map String.ofList

end DocCompiler.Route
