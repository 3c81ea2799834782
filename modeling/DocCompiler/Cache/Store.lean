import DocCompiler.Hash.Sha256
import DocCompiler.Json.Writer
import DocCompiler.Source.Detector
import DocCompiler.Annotation.Record
import DocCompiler.File.Tree
import DocCompiler.Json.Reader

/-!
The cache of annotated units. An entry is found by the identity of a unit and counts only for the
fingerprint it was stored with. Entries are kept as they were read, and decoded when they are asked
for; one that cannot be decoded is dropped. The signature of a cache covers all that changes the
annotations of a unit besides its content: entries that were kept under another one do not count.
-/

namespace DocCompiler.Cache

/-- The number of the form that caches are kept in. -/
def formNumber : Int := 2

/-- A detector as it counts in a signature. -/
def detectorMark (detector : Detector) : String :=
  detector.name ++ ":" ++ detector.implementation ++ ":1"

/-- What a signature covers: the form of the cache, the detectors in any order, and the table of
constants. -/
def signed (detectors : List Detector) (constants : List (String × Datum)) : Datum :=
  let marks := (detectors.map detectorMark).mergeSort fun a b => decide (a ≤ b)
  .record [
    ("format", .int formNumber),
    ("detectors", .list (marks.map .text)),
    ("constants", .record constants)]

/-- The text that is hashed for a signature. It does not depend on the order of entries, so there is
none for a mapping whose keys have no common order. -/
def signedText (detectors : List Detector) (constants : List (String × Datum)) :
    Except Json.WriteError String :=
  Json.write { ascii := true, sorted := true, lenient := true } (signed detectors constants)

/-- The signature for detectors and constants. -/
def signatureOf (detectors : List Detector) (constants : List (String × Datum)) :
    Except Json.WriteError String := do
  return fingerprint (Text.encode (← signedText detectors constants))

end DocCompiler.Cache

namespace DocCompiler

open Annotation

/-- A cache, kept in a file or only in memory. It is dirty when the file, if there is one, does not
hold its entries. -/
structure Cache where
  path : Option Path := none
  signature : String := ""
  entries : List (Datum × Datum) := []
  dirty : Bool := false
  hits : Nat := 0
  misses : Nat := 0
  deriving Repr, Inhabited

/-- Why a cache cannot be loaded. -/
inductive CacheError
  /-- The file is no text. -/
  | notText
  /-- The file holds a whole number that is too long. -/
  | tooLong
  /-- The values in the file are nested too deep. -/
  | tooDeep
  deriving DecidableEq, Repr, Inhabited

/-- Why a cache cannot be written. -/
inductive PersistError
  | text (error : Json.WriteError)
  | file (error : FileError)
  deriving DecidableEq, Repr

namespace Cache

/-- Whether a value is the number of the form that caches are kept in. -/
def isForm (value : Option Datum) : Bool :=
  value.any fun value => Datum.sameKey value (.int formNumber)

/-- Whether a value has what an entry must have. -/
def isEntry (value : Datum) : Bool :=
  (value.field? "fingerprint").isSome && (value.field? "unit").isSome

/-- The entries in the content of a file that was written under a signature, and whether some of what
it holds are none. -/
def entriesOf? (signature : String) (content : Datum) : Option (List (Datum × Datum) × Bool) :=
  let signed := (content.field? "signature").any (·.isText signature)
  if isForm (content.field? "version") && signed then
    match content.field? "entries" with
    | some (.map raw) =>
        let entries := raw.filter fun entry => isEntry entry.2
        some (entries, entries.length != raw.length)
    | _ => none
  else none

/-- A cache from the content of its file. What is not written as caches are, or under another
signature, is dropped as a whole. -/
def ofContent (path : Path) (signature : String) (content : List UInt8) :
    Except CacheError Cache := do
  let dropped : Cache := { path := some path, signature, dirty := true }
  let chars ← match Text.decode content with
    | .ok chars => pure chars
    | .error _ => throw .notText
  match Json.read chars with
  | .error .tooLong => throw .tooLong
  | .error .tooDeep => throw .tooDeep
  | .error .malformed => return dropped
  | .ok value =>
      match entriesOf? signature value with
      | some (entries, dirty) => return { path := some path, signature, entries, dirty }
      | none => return dropped

/-- Loads a cache. Without a file it is empty. -/
def load (path : Option Path) (signature : String) (tree : FileTree) : Except CacheError Cache :=
  match path with
  | none => .ok { signature }
  | some path =>
      match tree.read path with
      | .ok content => ofContent path signature content
      | .error .notFound => .ok { path := some path, signature }
      | .error _ => .ok { path := some path, signature, dirty := true }

/-- Whether what is wrong with a record makes its entry worthless; anything else stops the one who
asks for it. -/
def isDamage : ShapeError → Bool
  | .noEntry | .wrongKind | .badValue => true
  | .noFields _ | .outOfRange => false

/-- The cache after a miss. -/
def missed (cache : Cache) : Cache :=
  { cache with misses := cache.misses + 1 }

/-- The record of a unit in the entry for a fingerprint. -/
def record? (cache : Cache) (identity fingerprint : String) : Option Datum :=
  match Datum.lookup (.text identity) cache.entries with
  | none => none
  | some entry =>
      if (entry.field? "fingerprint").any (·.isText fingerprint) then
        (entry.field? "unit").filter Datum.isMap
      else none

/-- The cache without the entry of a unit. -/
def without (cache : Cache) (identity : String) : Cache :=
  { cache with
    entries := cache.entries.filter fun entry => !entry.1.isText identity
    dirty := true }

/-- Looks for a unit. An entry that is damaged is dropped. -/
def get (cache : Cache) (identity fingerprint : String) :
    Except ShapeError (Option AnnotatedUnit × Cache) :=
  match cache.record? identity fingerprint with
  | none => .ok (none, cache.missed)
  | some record =>
      match AnnotatedUnit.ofRecord identity record with
      | .ok unit => .ok (some unit, { cache with hits := cache.hits + 1 })
      | .error error =>
          if isDamage error then .ok (none, cache.missed.without identity)
          else .error error

/-- The entry for a unit that is stored at a time. -/
def entryOf (unit : AnnotatedUnit) (time : String) : Datum :=
  .record [
    ("fingerprint", .text unit.fingerprint),
    ("unit", unit.record),
    ("updated_at", .text time)]

/-- Stores a unit under its identity. -/
def store (cache : Cache) (unit : AnnotatedUnit) (time : String) : Cache :=
  { cache with
    entries := Datum.insertEntry (.text unit.identity) (entryOf unit time) cache.entries
    dirty := true }

/-- Drops the entries of all units but some. -/
def prune (cache : Cache) (identities : List String) : Cache :=
  let isKept (entry : Datum × Datum) : Bool := entry.1.isAmong identities
  if cache.entries.all isKept then cache
  else { cache with entries := cache.entries.filter isKept, dirty := true }

/-- What the file of a cache holds. -/
def content (cache : Cache) : Datum :=
  .record [
    ("version", .int formNumber),
    ("signature", .text cache.signature),
    ("entries", .map cache.entries)]

/-- The text of the file of a cache. -/
def text (cache : Cache) : Except Json.WriteError String :=
  Json.write { indent := some 2, ascii := true, sorted := true } cache.content

/-- Writes a cache to its file, when it is dirty. -/
def persist (cache : Cache) (tree : FileTree) : FileTree × Except PersistError Cache :=
  match cache.dirty, cache.path with
  | true, some path =>
      match cache.text with
      | .error error => (tree, .error (.text error))
      | .ok text =>
          match tree.write path text with
          | (tree, .ok ()) => (tree, .ok { cache with dirty := false })
          | (tree, .error error) => (tree, .error (.file error))
  | _, _ => (tree, .ok cache)

end Cache

end DocCompiler
