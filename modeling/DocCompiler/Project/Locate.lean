import DocCompiler.Project.Ignore
import DocCompiler.Project.Settings
import DocCompiler.Source.Diagnostic

/-!
The source files of a project: those under its source roots that are neither left out nor of a kind
that nothing reads.
-/

namespace DocCompiler

/-- A source file. Its identity is its path below the project, or its whole path if it is not below
it. -/
structure LocatedSource where
  identity : String
  path : Path
  deriving DecidableEq, Repr, Inhabited

/-- Directories that are never searched. -/
def excludedDirectories : List String :=
  [".git", ".hg", ".svn", ".venv", ".idea", ".apidocgen", "__pycache__", "node_modules", "vendor"]

/-- Files that are never sources. -/
def excludedFiles : List String :=
  [".DS_Store", "Thumbs.db"]

/-- What was found in a project. -/
structure Located where
  sources : List LocatedSource
  /-- The roots that are no directories. -/
  missing : List String
  /-- How many roots were searched. -/
  roots : Nat
  deriving Repr, Inhabited

/-- Why the sources of a project cannot be found. -/
inductive LocateError
  | noRoot (roots : List String)
  /-- The list of files to leave out is no text. -/
  | notText
  | file (error : FileError)
  deriving DecidableEq, Repr

/-- The wording of an error that is a fault of the settings. -/
def LocateError.message? : LocateError → Option String
  | .noRoot roots =>
      some ("No configured source root resolves: " ++
        (if roots.isEmpty then "<none>" else Text.joinWith ", " roots))
  | _ => none

/-- The warning about a root that is no directory. -/
def missingRoot (root : String) : Diagnostic :=
  .warning .locate ("source root '" ++ root ++ "' does not exist or is not a directory")
    (some ⟨root, none, none⟩)

namespace Locate

/-- The rules of the project for files that are left out. -/
def rulesOf (root : Path) (tree : FileTree) (settings : SourceSettings) :
    Except LocateError (List IgnoreRule) := do
  let file := root.child ".gitignore"
  let given := settings.excluded.filterMap fun pattern => IgnoreRule.ofText? pattern false
  if settings.respectGitignore && tree.exists? file then
    let content ← match tree.read file with
      | .ok content => pure content
      | .error error => throw (.file error)
    match Text.decode content with
    | .ok chars => return IgnoreRule.ofFile (String.ofList chars) ++ given
    | .error _ => throw .notText
  else return given

/-- Whether a root is a directory. -/
def isRoot (project : Path) (tree : FileTree) (text : String) : Except LocateError Bool :=
  let path := project.resolve (.ofText text)
  if path.hasNull then .error (.file .nullCharacter)
  else
    match tree.isDirectoryAt path with
    | .ok isDirectory => .ok isDirectory
    | .error error => .error (.file error)

mutual

/-- The files in a directory that are not left out, as names from the base of the rules on. `above`
leads to the directory. Directories that are left out are not searched. -/
def kept (rules : List IgnoreRule) (above : List String) : FileTree → List (List String)
  | .directory entries => keptEntries rules above entries
  | _ => []

/-- The files among the entries of a directory that are not left out. -/
def keptEntries (rules : List IgnoreRule) (above : List String) :
    List (String × FileTree) → List (List String)
  | [] => []
  | (name, tree) :: rest =>
      let names := above ++ [name]
      let path := Text.joinWith "/" names
      let here :=
        if tree.isDirectory then
          if excludedDirectories.contains name || IgnoreRule.ignores rules path true then []
          else kept rules names tree
        else if excludedFiles.contains name || IgnoreRule.ignores rules path false then []
        else [names]
      here ++ keptEntries rules above rest

end

/-- The identity of a file in a project. -/
def identityOf (root path : Path) : String :=
  match root.relativeTo? path with
  | some below => below.text
  | none => path.text

/-- The sources under one root. A root outside of the project is a base of its own for rules and
patterns. -/
def under (project : Path) (rules : List IgnoreRule) (patterns : List String)
    (supported : String → Bool) (tree : FileTree) (root : Path) : List LocatedSource :=
  let (base, above) :=
    match project.relativeTo? root with
    | some below => (project, below.names)
    | none => (root, [])
  match tree.follow? root with
  | none => []
  | some directory =>
      (kept rules above directory).filterMap fun names =>
        let path : Path := ⟨base.root, base.names ++ names⟩
        let identity := identityOf project path
        if isIncluded patterns (Text.joinWith "/" names) && supported identity then
          some { identity, path }
        else none

/-- Sources sorted by identity, each one once. -/
def sortSources (sources : List LocatedSource) : List LocatedSource :=
  let distinct := sources.foldl (fun found source =>
    if found.any (·.identity == source.identity) then found else found ++ [source]) []
  distinct.mergeSort fun a b => decide (a.identity ≤ b.identity)

end Locate

/-- Finds the sources of a project that `supported` holds of. -/
def locateSources (root : Path) (settings : SourceSettings) (supported : String → Bool)
    (tree : FileTree) : Except LocateError Located := do
  let rules ← Locate.rulesOf root tree settings
  let looked ← settings.roots.mapM fun text => return (text, ← Locate.isRoot root tree text)
  let (present, missing) := looked.partition (·.2)
  let (present, missing) := (present.map (·.1), missing.map (·.1))
  if present.isEmpty then throw (.noRoot settings.roots)
  let found := present.flatMap fun text =>
    Locate.under root rules settings.included supported tree (root.resolve (.ofText text))
  return { sources := Locate.sortSources found, missing, roots := present.length }

end DocCompiler
