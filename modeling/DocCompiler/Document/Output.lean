import DocCompiler.Document.Example
import DocCompiler.Document.Layout
import DocCompiler.Json.Writer
import DocCompiler.Yaml.Writer

/-!
The text of a document in one of the formats it is published in.
-/

namespace DocCompiler

/-- The formats of documents. -/
inductive OutputFormat
  | json
  | yaml
  deriving DecidableEq, Repr, Inhabited

namespace OutputFormat

/-- The name of a format. -/
def name : OutputFormat → String
  | .json => "json"
  | .yaml => "yaml"

/-- All formats. -/
def all : List OutputFormat :=
  [.json, .yaml]

/-- The format with a given name. -/
def ofName? (name : String) : Option OutputFormat :=
  all.find? fun format => format.name == name

end OutputFormat

/-- Why a document has no text. -/
inductive OutputError
  | unsupportedFormat (name : String)
  /-- A model has no document. -/
  | layout (error : ShapeError)
  /-- No example can be made for a schema. -/
  | sample (error : ShapeError)
  | json (error : Json.WriteError)
  | yaml (error : Yaml.WriteError)
  deriving DecidableEq, Repr

/-- Whether two paths are the same. -/
def samePath : DatumPath → DatumPath → Bool
  | [], [] => true
  | a :: as, b :: bs => Datum.sameKey a b && samePath as bs
  | _, _ => false

/-- What is shared in a document: the places whose values stand elsewhere too, and the examples by the
places where they stand. All paths lead from the place to the root. -/
structure Sharing where
  origins : List DatumPath := []
  samples : List (DatumPath × Sample) := []

namespace Sharing

mutual

/-- The places that an example takes values from. -/
def originsOf : Sample → List DatumPath
  | .borrowed origin _ => [origin.reverse]
  | .plain _ => []
  | .object fields => originsOfFields fields
  | .array items => originsOfItems items

/-- The places that fields take values from. -/
def originsOfFields : List (Datum × Sample) → List DatumPath
  | [] => []
  | (_, item) :: rest => originsOf item ++ originsOfFields rest

/-- The places that items take values from. -/
def originsOfItems : List Sample → List DatumPath
  | [] => []
  | item :: rest => originsOf item ++ originsOfItems rest

end

/-- What is shared in a document with examples. -/
def of (attached : Attached) : Sharing :=
  { origins := attached.samples.flatMap fun (_, sample) => originsOf sample
    samples := attached.samples.map fun (place, sample) =>
      ((place ++ [Datum.text "example"]).reverse, sample) }

/-- The label of the value at a place, when it stands elsewhere too. -/
def label? (sharing : Sharing) (here : DatumPath) : Option Nat :=
  sharing.origins.findIdx? (samePath here)

mutual

/-- The value at a place with its labels. -/
def labelled (sharing : Sharing) (here : DatumPath) : Datum → Yaml.Shared
  | .list items => .list (sharing.label? here) (labelledItems sharing here 0 items)
  | .map entries => .map (sharing.label? here) (labelledEntries sharing here entries)
  | value => .leaf (sharing.label? here) value

/-- Items at a place with their labels. -/
def labelledItems (sharing : Sharing) (here : DatumPath) (index : Nat) :
    List Datum → List Yaml.Shared
  | [] => []
  | item :: rest =>
      labelled sharing (.int index :: here) item :: labelledItems sharing here (index + 1) rest

/-- Entries at a place with their labels. -/
def labelledEntries (sharing : Sharing) (here : DatumPath) :
    List (Datum × Datum) → List (Datum × Yaml.Shared)
  | [] => []
  | (key, item) :: rest =>
      (key, labelled sharing (key :: here) item) :: labelledEntries sharing here rest

end

mutual

/-- An example with its labels. -/
def labelledSample (sharing : Sharing) : Sample → Yaml.Shared
  | .borrowed origin value => labelled sharing origin.reverse value
  | .plain value => .ofDatum value
  | .object fields => .map none (labelledFields sharing fields)
  | .array items => .list none (labelledSamples sharing items)

/-- Fields of an example with their labels. -/
def labelledFields (sharing : Sharing) : List (Datum × Sample) → List (Datum × Yaml.Shared)
  | [] => []
  | (key, item) :: rest => (key, labelledSample sharing item) :: labelledFields sharing rest

/-- Items of an example with their labels. -/
def labelledSamples (sharing : Sharing) : List Sample → List Yaml.Shared
  | [] => []
  | item :: rest => labelledSample sharing item :: labelledSamples sharing rest

end

mutual

/-- The document from a place on, with its labels; examples have the labels of what they take over. -/
def document (sharing : Sharing) (here : DatumPath) : Datum → Yaml.Shared
  | .map entries => .map (sharing.label? here) (documentEntries sharing here entries)
  | value => labelled sharing here value

/-- Entries of the document with their labels. -/
def documentEntries (sharing : Sharing) (here : DatumPath) :
    List (Datum × Datum) → List (Datum × Yaml.Shared)
  | [] => []
  | (key, item) :: rest =>
      let place := key :: here
      let written :=
        match sharing.samples.find? fun entry => samePath entry.1 place with
        | some (_, sample) => labelledSample sharing sample
        | none => document sharing place item
      (key, written) :: documentEntries sharing here rest

end

end Sharing

/-- The text of a document in a format. JSON text ends with a line feed. -/
def Attached.render (attached : Attached) : OutputFormat → Except OutputError String
  | .json =>
      match Json.write { indent := some 2 } attached.document with
      | .ok text => .ok (text ++ "\n")
      | .error error => .error (.json error)
  | .yaml =>
      match Yaml.write ((Sharing.of attached).document [] attached.document) with
      | .ok text => .ok text
      | .error error => .error (.yaml error)

/-- The text of a document in a format given by its name. -/
def Attached.renderAs (attached : Attached) (format : String) : Except OutputError String :=
  match OutputFormat.ofName? format with
  | none => .error (.unsupportedFormat format)
  | some format => attached.render format

/-- The document of a model, with examples on demand. -/
def Model.emit (model : Model) (version : String) (examples : Bool) :
    Except OutputError Attached := do
  let document ←
    match Layout.document model version with
    | .ok document => pure document
    | .error error => throw (.layout error)
  if examples then
    match attachExamples document with
    | .ok attached => return attached
    | .error error => throw (.sample error)
  else return { document }

/-- The wording of an error that has one. -/
def OutputError.message? : OutputError → Option String
  | .unsupportedFormat name => some ("Unsupported output format '" ++ name ++ "'")
  | _ => none

end DocCompiler
