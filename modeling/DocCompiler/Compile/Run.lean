import DocCompiler.Build.Document
import DocCompiler.Compile.Pool
import DocCompiler.Document.Resolve
import DocCompiler.Document.Rule
import DocCompiler.File.Lock
import DocCompiler.Project.Settings

/-!
A run: the document of a project, or the diagnostics that refuse it. A run loads the settings, locates
the sources, reads their units through the cache, and builds, resolves, checks and writes the document.
It changes the files that it is given as a value, and writes a log.
-/

namespace DocCompiler.Compile

open Annotation

/-- What is asked of a run. What is not said here comes from the settings of the project. -/
structure Request where
  /-- The directory that relative paths start from. -/
  directory : Path
  /-- The project. -/
  path : Path
  writes : Bool := true
  useCache : Option Bool := none
  format : Option String := none
  output : Option Path := none
  detectors : Option (List Detector) := none
  plugins : List Plugin := []
  rules : Option (List Rule) := none
  incident : String → Incident := fun _ => {}
  workers : Workers := .inTurn
  /-- The time that is noted in the cache. -/
  time : String := ""

/-- Why a run ends without a result. -/
inductive RunError
  | settings (error : SettingsError)
  | detectors (error : DiscoveryError)
  | sources (error : LocateError)
  /-- The cache has a path without a name. -/
  | namelessCache
  | lock (error : FileError)
  | signature (error : Json.WriteError)
  | cache (error : CacheError)
  | persist (error : PersistError)
  | cancelled
  /-- A stored unit has a shape that no document can be made of. -/
  | model (error : ShapeError)
  | output (error : OutputError)
  | file (error : FileError)
  /-- The path starts at the home of a user that is not known. -/
  | unknownHome
  /-- The number of workers is asked for, but not given. -/
  | noWorkers
  /-- A diagnostic of a stored unit has no text. -/
  | unshown (error : ShapeError)
  deriving Repr

/-- The wording of an error that is a fault of the settings of the project. -/
def RunError.settingsMessage? : RunError → Option String
  | .settings error => error.message?
  | .detectors error => some error.message
  | .sources error => error.message?
  | _ => none

/-- What a run counts. -/
structure Counts where
  units : Nat := 0
  hits : Nat := 0
  misses : Nat := 0
  blocks : Nat := 0
  operations : Nat := 0
  schemas : Nat := 0
  deriving DecidableEq, Repr, Inhabited

/-- The result of a run. The text is absent when the document is refused, and the path when it is not
written. -/
structure Compiled where
  text : Option String
  diagnostics : List Diagnostic
  output : Option Path
  counts : Counts
  model : Model

namespace Compiled

/-- Whether there is a document. -/
def isAccepted (result : Compiled) : Bool :=
  result.text.isSome

/-- The diagnostics that refuse the document. -/
def errors (result : Compiled) : List Diagnostic :=
  result.diagnostics.filter Diagnostic.fatal

/-- The wording of the refusal of a document. -/
def refusal? (result : Compiled) : Option String :=
  if result.isAccepted then none
  else
    let count := result.errors.length
    some ("document refused: " ++ toString count ++ (if count = 1 then " error" else " errors"))

end Compiled

/-- What a run acts on: the files, and the log as far as it is written. -/
structure Scene where
  files : FileTree
  log : List LogLine := []
  deriving Inhabited

/-- A part of a run. What it has done stays done when it ends with an error. -/
abbrev Run := EStateM RunError Scene

/-- Writes lines to the log. -/
def tell (lines : List LogLine) : Run Unit :=
  modify fun scene => { scene with log := scene.log ++ lines }

/-- Writes a line to the log. -/
def note (level : LogLevel) (source message : String) : Run Unit :=
  tell [⟨level, source, message⟩]

/-- Goes on with a value, or ends with its error. -/
def orEnd {ε α : Type} (cause : ε → RunError) (result : Except ε α) : Run α :=
  match result with
  | .ok value => pure value
  | .error error => throw (cause error)

/-- Changes the files, and goes on with what comes of it. -/
def act {ε α : Type} (cause : ε → RunError) (action : FileTree → FileTree × Except ε α) : Run α := do
  let scene ← get
  let (files, result) := action scene.files
  set { scene with files }
  orEnd cause result

/-- The detectors of a run. -/
def detectorsOf (request : Request) (settings : Settings) :
    Except DiscoveryError (List Detector) :=
  match request.detectors with
  | some detectors => .ok detectors
  | none => Detector.discover settings.detectors request.plugins

/-- What is told about roots that are no directories. -/
def rootLines (roots : List String) : List LogLine :=
  roots.map fun root => ⟨.warning, "locator", "Source root not found: " ++ root⟩

/-- Locates the sources that one of the detectors reads. -/
def locate (settings : Settings) (detectors : List Detector) : Run Located := do
  let supported (identity : String) : Bool := (Detector.find? detectors identity).isSome
  match locateSources settings.root settings.sources supported (← get).files with
  | .ok located =>
      tell (rootLines located.missing)
      note .debug "locator" ("Located " ++ toString located.sources.length ++
        " source units under " ++ toString located.roots ++ " root(s)")
      return located
  | .error error =>
      match error with
      | .noRoot roots => tell (rootLines roots)
      | _ => pure ()
      throw (.sources error)

/-- The lock of the cache of a project. -/
def lockOf (settings : Settings) : Lock :=
  let path := settings.cache.path
  { path := path.withName (path.name ++ ".lock") }

/-- Whether a run uses the cache of the project. -/
def usesCache (request : Request) (settings : Settings) : Bool :=
  request.useCache.getD settings.cache.enabled

/-- Takes the lock of the cache and loads the cache, if one is used and no other run holds it. When
the cache cannot be loaded the lock is not given back. -/
def openCache (request : Request) (settings : Settings) (detectors : List Detector) :
    Run (Option (Lock × Cache)) := do
  if !usesCache request settings then return none
  if settings.cache.path.names.isEmpty then throw .namelessCache
  let lock ← act .lock (lockOf settings).acquire
  if !lock.held then
    note .warning "compiler" "Cache is locked by another run; continuing without it"
    return none
  let signature ← orEnd .signature (Cache.signatureOf detectors settings.constants)
  let cache ← orEnd .cache (Cache.load (some settings.cache.path) signature (← get).files)
  return some (lock, cache)

/-- Gives a lock back. -/
def release (lock : Lock) : Run Unit :=
  modify fun scene => { scene with files := (lock.release scene.files).1 }

/-- Takes a step and gives a lock back, also when the step ends with an error. -/
def releasing {α : Type} (lock : Lock) (step : Run α) : Run α := do
  let value ← tryCatch step fun error => do
    release lock
    throw error
  release lock
  return value

/-- Reads the units of sources, and puts them in the order of their identities. -/
def readAll (workers : Workers) (reader : Reader) (cache : Option Cache)
    (sources : List LocatedSource) : Run (List UnitReading × Option Cache) := do
  let (readings, cache) := workers.read reader cache sources
  let readings := arrange readings
  tell (readings.flatMap (·.log))
  if readings.any (·.cancels) then throw .cancelled
  return (readings, cache)

/-- The cache with the units of a run and no others. Units that could not be processed are not
stored. -/
def updated (cache : Cache) (units : List AnnotatedUnit) (sources : List LocatedSource)
    (time : String) : Cache :=
  let kept := units.filter fun unit => !unit.fingerprint.isEmpty
  (kept.foldl (fun cache unit => cache.store unit time) cache).prune (sources.map (·.identity))

/-- Stores the units of a run in the cache and writes it. -/
def keep (cache : Cache) (units : List AnnotatedUnit) (sources : List LocatedSource)
    (time : String) : Run Unit := do
  let cache ← act .persist (updated cache units sources time).persist
  note .debug "compiler" ("Annotation cache: " ++ toString cache.entries.length ++ " entries, " ++
    toString cache.hits ++ " hits, " ++ toString cache.misses ++ " misses")

/-- Reads the units of sources through the cache of the project. -/
def readCached (request : Request) (settings : Settings) (detectors : List Detector)
    (sources : List LocatedSource) : Run (List UnitReading) := do
  let opened ← openCache request settings detectors
  let reader : Reader :=
    { files := (← get).files, detectors, constants := settings.constants
      incident := request.incident }
  match opened with
  | none => return (← readAll request.workers reader none sources).1
  | some (lock, cache) =>
      releasing lock do
        let (readings, cache) ← readAll request.workers reader (some cache) sources
        keep (cache.getD {}) (readings.map (·.unit)) sources request.time
        return readings

/-- The number of annotations in units. -/
def nodeCount (units : List AnnotatedUnit) : Nat :=
  (units.flatMap fun unit => unit.blocks.flatMap (·.nodes)).length

/-- The model that units describe, with its diagnostics. -/
def describe (request : Request) (settings : Settings) (units : List AnnotatedUnit) :
    Run (Model × List Diagnostic) := do
  let context ← orEnd .model (Build.build units)
  note .debug "builder" ("Folded " ++ toString (nodeCount units) ++ " annotation trees into " ++
    toString context.model.paths.length ++ " paths and " ++
    toString context.model.components.schemas.length ++ " schemas")
  let (model, resolved) := (context.model.applyOverrides settings.info).1.freeze.resolve
  let resolved ← orEnd .model resolved
  let parts ← orEnd .model model.parts
  let links := parts.references.map (·.2)
  note .debug "resolver" ("Resolved " ++ toString (links.filter (·.isBound)).length ++
    " references (" ++ toString (links.filter (·.recursive.isTruthy)).length ++ " recursive, " ++
    toString resolved.length ++ " errors)")
  let breaches ← orEnd .model (model.breaches (request.rules.getD Rule.all))
  return (model, context.diagnostics ++ resolved ++ breaches.map Breach.diagnostic)

/-- The suffixes of files that hold documents. -/
def documentSuffixes : List String :=
  [".json", ".yaml", ".yml"]

/-- The file that a document in a format is written to: a suffix of another format is replaced. -/
def targetOf (path : Path) (format : String) : Path :=
  let suffix := Text.lower path.suffix
  match OutputFormat.ofName? format with
  | none => path
  | some format =>
      let own := "." ++ format.name
      if !documentSuffixes.contains suffix || suffix == own then path
      else if format = .yaml && suffix == ".yml" then path
      else path.withSuffix own

/-- The version of the form of documents. -/
def documentVersion : String :=
  "3.0.3"

/-- The text of a document. -/
def textOf (settings : Settings) (model : Model) (format : String) : Run String := do
  let attached ← orEnd .output (model.emit documentVersion settings.output.generateExamples)
  if settings.output.generateExamples then
    note .debug "serializer"
      ("Synthesized " ++ toString attached.samples.length ++ " media type examples")
  orEnd .output (attached.renderAs format)

/-- Writes the text of a document to a file. -/
def publish (request : Request) (target : Path) (text : String) : Run Unit := do
  if !target.isNamed then throw (.file .busy)
  act .file fun files => files.write (request.directory.join target) text
  note .info "compiler" ("Wrote " ++ target.text)

/-- What a run goes by: the settings of the project, the detectors, and the sources. -/
structure Plan where
  settings : Settings
  detectors : List Detector
  located : Located

/-- Finds out what a run goes by. -/
def plan (request : Request) : Run Plan := do
  if request.path.startsAtUser then throw .unknownHome
  if request.path.hasNull then throw (.settings (.file .nullCharacter))
  let path := request.directory.resolve request.path
  let settings ← orEnd .settings (Settings.load request.directory (← get).files path)
  note .info "compiler" ("Compiling API documentation for " ++ settings.root.text)
  let detectors ← orEnd .detectors (detectorsOf request settings)
  let located ← locate settings detectors
  return { settings, detectors, located }

/-- The format of the document of a run. -/
def formatOf (request : Request) (settings : Settings) : String :=
  Text.lower ((given? request.format).getD settings.output.format.name)

/-- The file of the document of a run. -/
def outputOf (request : Request) (settings : Settings) : Path :=
  targetOf (request.output.getD settings.output.path) (formatOf request settings)

/-- Makes the document of the units that were read, unless it is refused. -/
def conclude (request : Request) (plan : Plan) (readings : List UnitReading) : Run Compiled := do
  let settings := plan.settings
  let located := plan.located
  let units := readings.map (·.unit)
  let (model, described) ← describe request settings units
  let diagnostics :=
    located.missing.map missingRoot ++ units.flatMap (·.diagnostics) ++ described
  let hits := (readings.filter (·.fromCache)).length
  let counts : Counts :=
    { units := located.sources.length, hits, misses := readings.length - hits
      blocks := (units.flatMap (·.blocks)).length
      operations := model.endpoints.length
      schemas := model.components.schemas.length }
  let errors := diagnostics.filter Diagnostic.fatal
  if !errors.isEmpty then
    note .error "compiler" ("Document refused: " ++ toString errors.length ++ " error(s)")
    return { text := none, diagnostics, output := none, counts, model }
  let text ← textOf settings model (formatOf request settings)
  let target := outputOf request settings
  if request.writes then publish request target text
  note .debug "compiler" ("Compiled " ++ toString counts.units ++ " units (" ++
    toString hits ++ " from cache) into " ++ toString counts.operations ++ " operations and " ++
    toString counts.schemas ++ " schemas")
  return { text := some text, diagnostics
           output := if request.writes then some target else none, counts, model }

/-- Compiles a project. -/
def compile (request : Request) : Run Compiled := do
  let plan ← plan request
  let readings ← readCached request plan.settings plan.detectors plan.located.sources
  conclude request plan readings

/-- Runs a compilation on files. -/
def run (request : Request) (files : FileTree) : Scene × Except RunError Compiled :=
  match (compile request).run { files } with
  | .ok result scene => (scene, .ok result)
  | .error error scene => (scene, .error error)

end DocCompiler.Compile
