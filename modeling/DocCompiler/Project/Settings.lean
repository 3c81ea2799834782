import DocCompiler.Data.OrderedMap
import DocCompiler.Document.Model
import DocCompiler.Document.Output
import DocCompiler.File.Tree
import DocCompiler.Yaml.Reader

/-!
The settings of a project: where its sources are, which constants annotations may use, what the
document is called and where it goes. They come from a file in the root of the project; what it does
not say has a default.
-/

namespace DocCompiler

/-- Where annotated sources are looked up. -/
structure SourceSettings where
  roots : List String := ["."]
  included : List String := []
  excluded : List String := []
  respectGitignore : Bool := true
  deriving DecidableEq, Repr, Inhabited

/-- Where the document goes and how it is written. -/
structure OutputSettings where
  path : Path
  format : OutputFormat := .json
  generateExamples : Bool := false
  deriving DecidableEq, Repr

/-- The cache of parsed annotations. -/
structure CacheSettings where
  enabled : Bool := true
  path : Path
  deriving DecidableEq, Repr

/-- The settings of a project. -/
structure Settings where
  root : Path
  sources : SourceSettings := {}
  constants : List (String × Datum) := []
  info : Overrides := {}
  output : OutputSettings
  cache : CacheSettings
  detectors : List String := []
  workers : Option Int := none
  deriving Repr

/-- Why there are no settings. -/
inductive SettingsError
  | notMapping
  | constantsNotMapping
  | unusableConstant (name kind : String)
  | unsupportedFormat (name : String)
  | badWorkers
  | unreadable (file : String)
  /-- A scalar of the file has no value. -/
  | badScalar (error : Yaml.ReadError)
  /-- A whole number that has no text because it is too long. -/
  | longNumber
  /-- A constant that contains itself. -/
  | endlessConstant
  /-- The file is no text. -/
  | notText
  | file (error : FileError)
  deriving DecidableEq, Repr

namespace Settings

/-- The name of the file that settings are read from. -/
def fileName : String :=
  ".apidocgen.yml"

end Settings

/-- The wording of an error that is a fault of the settings themselves. -/
def SettingsError.message? : SettingsError → Option String
  | .notMapping => some (Settings.fileName ++ " must contain a mapping at the root")
  | .constantsNotMapping => some "'constants' must be a mapping of names to values"
  | .unusableConstant name kind =>
      some ("constant '" ++ name ++
        "' must be a string, number, boolean, null, list or mapping (got " ++ kind ++ ")")
  | .unsupportedFormat name =>
      some ("Unsupported output format '" ++ name ++ "' (expected one of: " ++
        Text.joinWith ", " (OutputFormat.all.map OutputFormat.name) ++ ")")
  | .badWorkers => some "'workers' must be a positive integer"
  | .unreadable name => some ("Failed to parse " ++ name)
  | _ => none

namespace Settings

/-- The settings of a project without a file. -/
def standard (root : Path) : Settings :=
  { root
    output := { path := root.child "api-docs.json" }
    cache := { path := (root.child ".apidocgen").child "cache.json" } }

/-- A section of the file; what is no mapping counts as empty. -/
def asSection (value : Option Datum) : Datum :=
  match value with
  | some (.map entries) => Datum.opened (.map entries)
  | _ => .map []

/-- The text of a number, or of a key. -/
def textOf (value : Datum) : Except SettingsError String :=
  if value.isShowable then .ok value.display else .error .longNumber

/-- A value as text: texts and numbers, and truth values in lower case. -/
def asText : Option Datum → Except SettingsError (Option String)
  | some (.bool value) => .ok (some (if value then "true" else "false"))
  | some (.text value) => .ok (some value)
  | some (.number value) => do return some (← textOf (.number value))
  | _ => .ok none

/-- A value as a whole number, which may be written as text. -/
def asInt : Option Datum → Option Int
  | some (.number (.int value)) => some value
  | some (.text value) => (Number.readInt value).toOption
  | _ => none

/-- A value as a truth value, which may be written as text. -/
def asBool : Option Datum → Option Bool
  | some (.bool value) => some value
  | some (.text value) =>
      let word := Text.lower (Text.trimmed value)
      if ["true", "yes", "1"].contains word then some true
      else if ["false", "no", "0"].contains word then some false
      else none
  | _ => none

/-- Whether a value is one of a list of texts. -/
def isListed : Datum → Bool
  | .text _ | .number _ | .bool _ => true
  | _ => false

/-- A value as a list of texts; a single text is a list of one. -/
def asTexts : Option Datum → Except SettingsError (List String)
  | some (.text value) => .ok [value]
  | some (.list items) => (items.filter isListed).mapM textOf
  | some (.bytes content) => .ok (content.map fun byte => toString byte.toNat)
  | _ => .ok []

/-- Why a value cannot be a constant. -/
inductive Unfit
  /-- It is of another kind, or something in it is. -/
  | kind
  /-- It contains itself. -/
  | endless
  deriving DecidableEq, Repr, Inhabited

mutual

/-- What keeps a value from being a constant: the first thing in it that does. -/
def unfit? : Datum → Option Unfit
  | .null | .text _ | .codes _ | .number _ | .bool _ => none
  | .list items => itemsUnfit? items
  | .map entries => entriesUnfit? entries
  | .again _ => some .endless
  | _ => some .kind

/-- What keeps items from being constants. -/
def itemsUnfit? : List Datum → Option Unfit
  | [] => none
  | item :: rest => (unfit? item).or (itemsUnfit? rest)

/-- What keeps the values of entries from being constants. -/
def entriesUnfit? : List (Datum × Datum) → Option Unfit
  | [] => none
  | (_, item) :: rest => (unfit? item).or (entriesUnfit? rest)

end

/-- The table of constants; names are the texts of keys, and of two equal names the later value
counts. -/
def constantsOf (value : Option Datum) : Except SettingsError (List (String × Datum)) :=
  match value with
  | none | some .null => .ok []
  | some (.map entries) => do
      let named ← entries.mapM fun (key, value) => return (← textOf key, value)
      let table := named.foldl (fun table (name, value) => OrderedMap.put name value table) []
      match table.find? fun entry => (unfit? entry.2).isSome with
      | none => return table
      | some (name, value) =>
          if unfit? value = some .endless then throw .endlessConstant
          else throw (.unusableConstant name value.kindName)
  | some _ => .error .constantsNotMapping

/-- The settings for sources. -/
def sourcesOf (part : Datum) : Except SettingsError SourceSettings := do
  let roots ← asTexts (part.field? "roots")
  return {
    roots := if roots.isEmpty then ["."] else roots
    included := ← asTexts (part.field? "include")
    excluded := ← asTexts (part.field? "exclude")
    respectGitignore := (asBool (part.field? "respect_gitignore")).getD true }

/-- What the settings say about the document. -/
def infoOf (part : Datum) : Except SettingsError Overrides := do
  return {
    title := ← asText (part.field? "title")
    version := ← asText (part.field? "version")
    description := ← asText (part.field? "description")
    baseUrl := ← asText (part.field? "base_url") }

/-- The settings for the output. -/
def outputOf (root : Path) (part : Datum) : Except SettingsError OutputSettings := do
  let name := Text.lower ((given? (← asText (part.field? "format"))).getD "json")
  match OutputFormat.ofName? name with
  | none => throw (.unsupportedFormat name)
  | some format =>
      let standardName := if format = .yaml then "api-docs.yaml" else "api-docs.json"
      let file := (given? (← asText (part.field? "path"))).getD standardName
      return {
        path := root.join (.ofText file)
        format
        generateExamples := (asBool (part.field? "generate_examples")).getD false }

/-- The settings for the cache. -/
def cacheOf (root : Path) (part : Datum) : Except SettingsError CacheSettings := do
  let path := match given? (← asText (part.field? "path")) with
    | some file => root.join (.ofText file)
    | none => (standard root).cache.path
  return { enabled := (asBool (part.field? "enabled")).getD true, path }

/-- The settings that a value gives to a project. -/
def ofDatum (root : Path) (value : Datum) : Except SettingsError Settings := do
  if !value.isMap then throw .notMapping
  let value := value.opened
  let sources ← sourcesOf (asSection (value.field? "sources"))
  let constants ← constantsOf (value.field? "constants")
  let info ← infoOf (asSection (value.field? "info"))
  let output ← outputOf root (asSection (value.field? "output"))
  let cache ← cacheOf root (asSection (value.field? "cache"))
  let workers := asInt (value.field? "workers")
  if workers.any (· < 1) then throw .badWorkers
  let detectors ← asTexts (value.field? "detectors")
  return { root, sources, constants, info, output, cache, detectors, workers }

/-- The suffixes of files that may hold settings. -/
def settingsSuffixes : List String :=
  [".yml", ".yaml"]

/-- The file that holds the settings for a path: the path itself if it is named like one, else the
one in the directory that the path is or is in. -/
def fileFor (directory : Path) (tree : FileTree) (path : Path) : Except FileError Path := do
  let path := directory.join path
  let file :=
    if ← tree.isDirectoryAt path then path.child fileName
    else if path.name != fileName && !(settingsSuffixes.contains path.suffix) then
      path.parent.child fileName
    else path
  if file.hasNull then throw .nullCharacter
  return directory.resolve file

/-- The settings in the content of a file. -/
def ofContent (root : Path) (file : String) (content : List UInt8) :
    Except SettingsError Settings := do
  let chars ← match Text.decode content with
    | .ok chars => pure (Text.unifyNewlines chars)
    | .error _ => throw .notText
  if (Text.trim chars).isEmpty then return ← ofDatum root (.map [])
  match Yaml.read (String.ofList chars) with
  | .ok .null => ofDatum root (.map [])
  | .ok value => ofDatum root value
  | .error .malformed => throw (.unreadable file)
  | .error error => throw (.badScalar error)

/-- Loads the settings for a path; a project without a file for them has the standard ones. -/
def load (directory : Path) (tree : FileTree) (path : Path) : Except SettingsError Settings := do
  let found : Except FileError (Path × Option FileTree) := do
    let file ← fileFor directory tree path
    return (file, ← tree.look file)
  match found with
  | .error error => throw (.file error)
  | .ok (file, none) => return standard file.parent
  | .ok (file, some _) =>
      match tree.read file with
      | .ok content => ofContent file.parent file.name content
      | .error error => throw (.file error)

end Settings

end DocCompiler
