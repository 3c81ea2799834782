import DocCompiler.File.Path
import DocCompiler.Text.Utf8

/-!
The files that a run sees, as a value: directories with their entries, files with their content, and
links that lead nowhere. What writes to files returns the tree as it is afterwards. Two states of the
same files differ by changes.
-/

namespace DocCompiler

/-- Why a file cannot be read or written. -/
inductive FileError
  | notFound
  | alreadyExists
  | isDirectory
  | notDirectory
  /-- A directory stands at a path that does not name it. -/
  | busy
  /-- A name or path with more bytes than there may be. -/
  | nameTooLong
  /-- A path with the character of code zero. -/
  | nullCharacter
  deriving DecidableEq, Repr

/-- The number and wording of an error, as in reports. -/
def FileError.message : FileError → String
  | .notFound => "[Errno 2] No such file or directory"
  | .alreadyExists => "[Errno 17] File exists"
  | .isDirectory => "[Errno 21] Is a directory"
  | .notDirectory => "[Errno 20] Not a directory"
  | .busy => "[Errno 16] Device or resource busy"
  | .nameTooLong => "[Errno 36] File name too long"
  | .nullCharacter => "embedded null byte"

/-- A file, a link to nothing, or a directory with its entries under distinct names. The age of a
file is the time since it was last written, in milliseconds. -/
inductive FileTree
  | file (content : List UInt8) (age : Int)
  | deadLink
  | directory (entries : List (String × FileTree))
  deriving Repr, Inhabited

namespace FileTree

/-- A directory without entries. -/
def empty : FileTree :=
  .directory []

/-- The entries of a directory. -/
def entries : FileTree → List (String × FileTree)
  | .directory entries => entries
  | _ => []

/-- Whether the tree is a directory. -/
def isDirectory : FileTree → Bool
  | .directory _ => true
  | _ => false

/-- The part of a tree at the end of names. -/
def find? : List String → FileTree → Option FileTree
  | [], tree => some tree
  | name :: rest, .directory entries => (entries.lookup name).bind (find? rest)
  | _ :: _, _ => none

/-- Entries with one put under a name. -/
def putEntry (name : String) (tree : FileTree) :
    List (String × FileTree) → List (String × FileTree)
  | [] => [(name, tree)]
  | (other, old) :: rest =>
      if other = name then (name, tree) :: rest else (other, old) :: putEntry name tree rest

/-- A tree changed at the end of names. Directories on the way are made where there are none. -/
def alter (change : Option FileTree → Option FileTree) : List String → FileTree → FileTree
  | [], tree => (change (some tree)).getD tree
  | [name], .directory entries =>
      match change (entries.lookup name) with
      | some tree => .directory (putEntry name tree entries)
      | none => .directory (entries.filter (·.1 != name))
  | name :: rest, .directory entries =>
      .directory (putEntry name (alter change rest ((entries.lookup name).getD .empty)) entries)
  | _ :: _, tree => tree

/-- A tree with a part put at the end of names. -/
def put (tree : FileTree) (names : List String) (part : FileTree) : FileTree :=
  tree.alter (fun _ => some part) names

/-- A tree without what stands at the end of names. -/
def erase (names : List String) (tree : FileTree) : FileTree :=
  tree.alter (fun _ => none) names

/-- The names that a path leads to in a tree, from the root of all files on. -/
def locate (path : Path) : List String :=
  Path.climb [] path.names

/-- What names lead to, one after the other; `done` holds the names before, the last one first. Only
from a directory there is a way up. -/
def walk (done : List String) : List String → FileTree → Option FileTree
  | [], tree => tree.find? done.reverse
  | ".." :: rest, tree =>
      if (tree.find? done.reverse).any isDirectory then walk done.tail rest tree else none
  | name :: rest, tree => walk (name :: done) rest tree

/-- What a path leads to, unless it is a link to nothing. -/
def follow? (path : Path) (tree : FileTree) : Option FileTree :=
  match tree.walk [] path.names with
  | some .deadLink => none
  | found => found

/-- Whether a path leads to something. -/
def exists? (path : Path) (tree : FileTree) : Bool :=
  (tree.follow? path).isSome

/-- Whether names lead to one that is too long, before one that is not there; `done` holds the names
before, the last one first. -/
def meetsLongName (done : List String) : List String → FileTree → Bool
  | [], _ => false
  | name :: rest, tree =>
      (tree.find? done.reverse).any isDirectory &&
        (Path.isLongName name ||
          meetsLongName (if name = ".." then done.tail else name :: done) rest tree)

/-- What a path leads to, when it can be looked at. -/
def look (path : Path) (tree : FileTree) : Except FileError (Option FileTree) :=
  if path.hasNull then .ok none
  else if path.isLong || tree.meetsLongName [] path.names then .error .nameTooLong
  else .ok (tree.follow? path)

/-- Whether a path leads to a directory. -/
def isDirectoryAt (path : Path) (tree : FileTree) : Except FileError Bool := do
  return (← tree.look path).any isDirectory

/-- The content of a file. -/
def read (path : Path) (tree : FileTree) : Except FileError (List UInt8) :=
  match tree.follow? path with
  | some (.file content _) => .ok content
  | some (.directory _) => .error .isDirectory
  | _ => .error .notFound

/-- Makes the directories on the way along names that are not there; `done` holds the names
before, the last one first. -/
def makeAlong (done : List String) : List String → FileTree → Except FileError FileTree
  | [], tree => .ok tree
  | ".." :: rest, tree => makeAlong done.tail rest tree
  | name :: rest, tree =>
      let names := (name :: done).reverse
      match tree.find? names with
      | some (.directory _) => makeAlong (name :: done) rest tree
      | some (.file ..) => .error (if rest.isEmpty then .alreadyExists else .notDirectory)
      | some .deadLink => .error .alreadyExists
      | none =>
          if Path.isLongName name then .error .nameTooLong
          else makeAlong (name :: done) rest (tree.put names .empty)

/-- Makes a directory and those around it that are not there. -/
def makeDirectory (path : Path) (tree : FileTree) : Except FileError FileTree :=
  if path.hasNull then .error .nullCharacter
  else if path.isLong then .error .nameTooLong
  else makeAlong [] path.names tree

/-- What keeps a file from being made under a path in a directory that is there. -/
def nameError? (path : Path) : Option FileError :=
  if path.hasNull then some .nullCharacter
  else if path.isLong || Path.isLongName path.name then some .nameTooLong
  else none

/-- The path of the file that is written before it takes the place of another one, so long as its name
counts. -/
def draftOf (path : Path) : Path :=
  path.withName ("." ++ path.name ++ ".xxxxxxxx.tmp")

/-- Writes a text to a file as a whole, in a directory that is made when it is not there. What was
there before is replaced by a draft, unless it is a directory. -/
def write (path : Path) (text : String) (tree : FileTree) : FileTree × Except FileError Unit :=
  match tree.makeDirectory path.parent with
  | .error error => (tree, .error error)
  | .ok tree =>
      match nameError? (draftOf path) with
      | some error => (tree, .error error)
      | none =>
          if !path.isNamed then (tree, .error .busy)
          else
            match tree.find? (locate path) with
            | some (.directory _) => (tree, .error .isDirectory)
            | _ => (tree.put (locate path) (.file (Text.encode text) 0), .ok ())

mutual

/-- The paths of all files and links in a tree, by their names below it. -/
def paths (above : List String) : FileTree → List (List String)
  | .directory entries => entryPaths above entries
  | _ => [above]

/-- The paths of all files and links among entries. -/
def entryPaths (above : List String) : List (String × FileTree) → List (List String)
  | [] => []
  | (name, tree) :: rest => paths (above ++ [name]) tree ++ entryPaths above rest

end

end FileTree

/-- A change of one file: it has another content, or it is gone. -/
inductive FileChange
  | written (names : List String) (content : List UInt8)
  | removed (names : List String)
  deriving DecidableEq, Repr

namespace FileTree

/-- The content of the file at the end of names. -/
def content? (names : List String) (tree : FileTree) : Option (List UInt8) :=
  match tree.find? names with
  | some (.file content _) => some content
  | _ => none

/-- The changes that lead from one state of files to another, removals last. -/
def changes (before after : FileTree) : List FileChange :=
  let written := (after.paths []).filterMap fun names =>
    match after.content? names with
    | some content =>
        if before.content? names == some content then none else some (.written names content)
    | none => none
  let removed := (before.paths []).filterMap fun names =>
    if (after.find? names).isNone then some (.removed names) else none
  written ++ removed

end FileTree

end DocCompiler
