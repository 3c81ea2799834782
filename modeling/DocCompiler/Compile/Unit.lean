import DocCompiler.Annotation.Parse
import DocCompiler.Cache.Store
import DocCompiler.Log
import DocCompiler.Project.Locate
import DocCompiler.Source.Comment
import DocCompiler.Source.Discovery

/-!
The annotations of the source files of a project, one file after the other. Whatever is wrong with a
file is reported as a diagnostic of its unit and concerns no other file. A unit that the cache holds for
the content of its file is taken from there.
-/

namespace DocCompiler.Compile

open Annotation

/-- What befalls a run from outside while it reads a unit: it may be cancelled, and what reads the unit
may fail with an error of some kind. -/
structure Incident where
  cancels : Bool := false
  crash : Option (String × String) := none
  deriving DecidableEq, Repr, Inhabited

/-- What units are read with. -/
structure Reader where
  files : FileTree
  detectors : List Detector
  constants : Constants
  incident : String → Incident := fun _ => {}

/-- Why a unit cannot be processed. -/
inductive UnitFault
  /-- The unit holds or uses a whole number of more digits than are read or written. -/
  | longNumber (number : LongNumber)
  /-- The cache holds something else than a unit. -/
  | badRecord (error : ShapeError)
  | crash (kind message : String)
  deriving DecidableEq, Repr

/-- The kind and wording of a fault. -/
def UnitFault.text : UnitFault → String
  | .longNumber (.numeral digits) => "ValueError: " ++ Number.tooLongMessage digits
  | .longNumber .key => "ValueError: " ++ Number.longTextMessage
  | .badRecord (.noFields kind) => "AttributeError: '" ++ kind ++ "' object has no attribute 'get'"
  | .badRecord _ => "OverflowError: cannot convert float infinity to integer"
  | .crash kind message => kind ++ ": " ++ message

/-- A unit that was read, whether it came from the cache, whether the run was cancelled meanwhile, and
what is told about it. -/
structure UnitReading where
  unit : AnnotatedUnit
  fromCache : Bool := false
  cancels : Bool := false
  log : List LogLine := []
  deriving Inhabited

/-- A unit of which nothing but an error is known. -/
def blankUnit (identity fingerprint message : String) (line : Option Int) : AnnotatedUnit :=
  { identity, fingerprint
    diagnostics := [.error .extract message (some ⟨identity, line, none⟩)] }

/-- The unit of a file that cannot be read. -/
def unreadableUnit (source : LocatedSource) (error : FileError) : AnnotatedUnit :=
  blankUnit source.identity ""
    ("cannot read source unit: " ++ error.message ++ ": " ++ Text.quoted source.path.text) none

/-- The unit of a file that is no text. The place of the error is the line of the first bad byte. -/
def undecodableUnit (identity digest : String) (content : List UInt8) (error : Text.Utf8Error) :
    AnnotatedUnit :=
  blankUnit identity digest
    ("source unit is not valid UTF-8 (" ++ error.reason.message ++ "); skipped")
    (some ((content.take error.offset).count 10 + 1))

/-- The reading of a unit that cannot be processed. Its fingerprint is empty, so that it is not kept. -/
def faultyReading (identity : String) (fault : UnitFault) (cancels : Bool) : UnitReading :=
  { unit := blankUnit identity "" ("cannot process source unit: " ++ fault.text) none
    cancels
    log := [⟨.error, "compiler", "Failed to process " ++ identity⟩] }

/-- The annotations of a block, and the errors in it. -/
def annotateBlock (constants : Constants) (block : Block) :
    Except UnitFault (AnnotatedBlock × List Diagnostic) :=
  match parse constants block with
  | .ok (nodes, errors) => .ok (⟨block.symbol, nodes⟩, errors.map ParseError.diagnostic)
  | .error number => .error (.longNumber number)

/-- The unit of a text. Blocks without annotations are left out. -/
def annotate (reader : Reader) (identity digest : String) (text : List Char) :
    Except UnitFault AnnotatedUnit := do
  let (blocks, diagnostics) :=
    extractBlocks identity text (Detector.find? reader.detectors identity)
  let parsed ← blocks.mapM (annotateBlock reader.constants)
  return {
    identity
    fingerprint := digest
    blocks := (parsed.map (·.1)).filter fun block => !block.nodes.isEmpty
    diagnostics := diagnostics ++ parsed.flatMap (·.2) }

/-- Reads a unit afresh. -/
def readContent (reader : Reader) (identity digest : String) (content : List UInt8) : UnitReading :=
  match Text.decode content with
  | .error error => { unit := undecodableUnit identity digest content error }
  | .ok text =>
      let incident := reader.incident identity
      let result : Except UnitFault AnnotatedUnit :=
        match incident.crash with
        | some (kind, message) => .error (.crash kind message)
        | none => annotate reader identity digest text
      match result with
      | .ok unit => { unit, cancels := incident.cancels }
      | .error fault => faultyReading identity fault incident.cancels

/-- Reads a unit whose file has a content, from the cache if it is there. -/
def readThrough (reader : Reader) (cache : Cache) (identity : String) (content : List UInt8) :
    UnitReading × Cache :=
  let digest := fingerprint content
  match cache.get identity digest with
  | .error error => (faultyReading identity (.badRecord error) false, cache)
  | .ok (some unit, cache) =>
      ({ unit, fromCache := true
         log := [⟨.debug, "compiler", "Using cached annotations for " ++ identity⟩] }, cache)
  | .ok (none, cache) => (readContent reader identity digest content, cache)

/-- Reads the unit of a source file. -/
def readUnit (reader : Reader) (cache : Option Cache) (source : LocatedSource) :
    UnitReading × Option Cache :=
  match reader.files.read source.path with
  | .error error => ({ unit := unreadableUnit source error }, cache)
  | .ok content =>
      match cache with
      | none => (readContent reader source.identity (fingerprint content) content, none)
      | some cache =>
          let (reading, cache) := readThrough reader cache source.identity content
          (reading, some cache)

/-- Reads units one after the other, in any order of their source files. -/
def readUnits (reader : Reader) (cache : Option Cache) :
    List LocatedSource → List UnitReading × Option Cache
  | [] => ([], cache)
  | source :: rest =>
      let (reading, cache) := readUnit reader cache source
      let (readings, cache) := readUnits reader cache rest
      (reading :: readings, cache)

/-- Readings in the order of the identities of their units. -/
def arrange (readings : List UnitReading) : List UnitReading :=
  readings.mergeSort fun a b => decide (a.unit.identity ≤ b.unit.identity)

end DocCompiler.Compile
