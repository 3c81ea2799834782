import DocCompiler.Text.Split

/-!
Paths of files: names one below the other, from the root of all files or from a directory that is
known elsewhere. A name of two dots leads one directory up.
-/

namespace DocCompiler

/-- A path. `root` is empty, or the slashes that an absolute path starts with. -/
structure Path where
  root : String := ""
  names : List String
  deriving DecidableEq, Repr, Inhabited

namespace Path

/-- The names in a text, without empty ones and those that stay in place. -/
def namesOf (text : String) : List String :=
  (Text.splitOn '/' text).filter fun name => name != "" && name != "."

/-- The slashes that a text starts with: exactly two stay, more count as one. -/
def rootOf (text : String) : String :=
  match (text.toList.takeWhile (· == '/')).length with
  | 0 => ""
  | 2 => "//"
  | _ => "/"

/-- The path that a text stands for. -/
def ofText (text : String) : Path :=
  ⟨rootOf text, namesOf text⟩

/-- The text of a path. -/
def text (path : Path) : String :=
  if path.root.isEmpty && path.names.isEmpty then "."
  else path.root ++ Text.joinWith "/" path.names

/-- Whether a path starts at the root of all files. -/
def isAbsolute (path : Path) : Bool :=
  !path.root.isEmpty

/-- A path below another; an absolute path stays as it is. -/
def join (base path : Path) : Path :=
  if path.isAbsolute then path else ⟨base.root, base.names ++ path.names⟩

/-- A file or directory below a path. -/
def child (path : Path) (name : String) : Path :=
  ⟨path.root, path.names ++ [name]⟩

/-- The last name of a path. -/
def name (path : Path) : String :=
  path.names.getLastD ""

/-- Whether a path ends with the name of what it leads to. -/
def isNamed (path : Path) : Bool :=
  path.names.getLast?.any (· != "..")

/-- Whether a path holds the character of code zero, which no file name has. -/
def hasNull (path : Path) : Bool :=
  path.names.any fun name => name.toList.contains '\x00'

/-- Whether a path starts at the home of a user that it names. -/
def startsAtUser (path : Path) : Bool :=
  !path.isAbsolute && path.names.head?.any fun name => 1 < name.length && name.toList.head? == some '~'

/-- Names of files have at most this many bytes. -/
def maxNameSize : Nat := 255

/-- Whether a name has more bytes than names of files. -/
def isLongName (name : String) : Bool :=
  maxNameSize < name.utf8ByteSize

/-- Whether a path as a whole has more bytes than paths of files. -/
def isLong (path : Path) : Bool :=
  4095 < path.text.utf8ByteSize

/-- The path without its last name. -/
def parent (path : Path) : Path :=
  ⟨path.root, path.names.dropLast⟩

/-- A path with another last name. -/
def withName (path : Path) (name : String) : Path :=
  path.parent.child name

/-- The part of a name from its last dot on. A dot at the start or at the end of a name does not
count. -/
def suffixOf (name : String) : String :=
  let before := (name.toList.reverse.dropWhile (· != '.')).length
  if before ≤ 1 || before = name.length then "" else String.ofList (name.toList.drop (before - 1))

/-- The suffix of the last name of a path. -/
def suffix (path : Path) : String :=
  suffixOf path.name

/-- A path with another suffix. -/
def withSuffix (path : Path) (suffix : String) : Path :=
  let stem := path.name.toList.take (path.name.length - path.suffix.length)
  path.withName (String.ofList stem ++ suffix)

/-- Names without those that lead up; `done` holds the names before, the last one first. -/
def climb (done : List String) : List String → List String
  | [] => done.reverse
  | ".." :: rest => climb done.tail rest
  | name :: rest => climb (name :: done) rest

/-- The absolute path that a path stands for in a directory. -/
def resolve (directory path : Path) : Path :=
  ⟨"/", climb [] (directory.join path).names⟩

/-- The path from a directory down to a path below it. -/
def relativeTo? (directory path : Path) : Option Path :=
  if path.root = directory.root && directory.names.isPrefixOf path.names then
    some ⟨"", path.names.drop directory.names.length⟩
  else none

end Path

end DocCompiler
