import DocCompiler.Data.Shape
import DocCompiler.Number.Numeral
import DocCompiler.Text.Split

/-!
Examples made up for schemas of a written document, and media types filled with them. An example may
be taken over from the document as it stands; its origin is kept, since a writer may show that two
places hold the same value.
-/

namespace DocCompiler

/-- The way from the root of a document to a place in it: keys of mappings and indexes of lists. -/
abbrev DatumPath := List Datum

/-- An example: a value of the document itself, or one that is made up. -/
inductive Sample
  | borrowed (origin : DatumPath) (value : Datum)
  | plain (value : Datum)
  | object (fields : List (Datum × Sample))
  | array (items : List Sample)
  deriving Repr, Inhabited

namespace Sample

mutual

/-- The value of an example. -/
def value : Sample → Datum
  | .borrowed _ value => value
  | .plain value => value
  | .object fields => .map (fieldValues fields)
  | .array items => .list (itemValues items)

/-- The values of fields. -/
def fieldValues : List (Datum × Sample) → List (Datum × Datum)
  | [] => []
  | (key, item) :: rest => (key, value item) :: fieldValues rest

/-- The values of items. -/
def itemValues : List Sample → List Datum
  | [] => []
  | item :: rest => value item :: itemValues rest

end

end Sample

/-- The value that a local pointer addresses. -/
def resolvePointer (document : Datum) (pointer : String) : Option Datum :=
  if Text.startsWith "#/" pointer then
    (Text.splitOn '/' (String.ofList (pointer.toList.drop 2))).foldl
      (fun here name => here.bind (Datum.field? name)) (some document)
  else none

/-- The path that a local pointer spells. -/
def pointerPath (pointer : String) : DatumPath :=
  (Text.splitOn '/' (String.ofList (pointer.toList.drop 2))).map .text

/-- Examples of texts by their format. -/
def formatExample (format : String) : String :=
  match format with
  | "date" => "2024-01-01"
  | "date-time" => "2024-01-01T00:00:00Z"
  | "email" => "user@example.com"
  | "uuid" => "00000000-0000-0000-0000-000000000000"
  | "uri" => "https://example.com"
  | "url" => "https://example.com"
  | _ => "string"

/-- An example of a text. Formats that are lists or mappings do not serve. -/
def textExample (format : Option Datum) : Except ShapeError Datum :=
  match format with
  | some (.text format) => .ok (.text (formatExample format))
  | some (.list (_ :: _)) | some (.map (_ :: _)) => .error .wrongKind
  | _ => .ok (.text "string")

/-- The whole number that the least value of a schema gives: zero when there is none. -/
def integerExample (minimum : Option Datum) : Except ShapeError Datum :=
  match minimum.filter Datum.isTruthy with
  | none => .ok (.int 0)
  | some (.bool _) => .ok (.int 1)
  | some (.number (.int value)) => .ok (.int value)
  | some (.number (.float .nan)) => .error .badValue
  | some (.number (.float (.infinite _))) => .error .outOfRange
  | some (.number (.float (.finite negative significand exponent))) =>
      .ok (.int (Binary64.truncate negative significand exponent))
  | some (.text text) =>
      match Number.readInt text with
      | .ok value => .ok (.int value)
      | .error _ => .error .badValue
  | some _ => .error .wrongKind

/-- The double-precision number that the least value of a schema gives: zero when there is none. -/
def numberExample (minimum : Option Datum) : Except ShapeError Datum :=
  let float (value : Binary64) : Datum := .number (.float value)
  match minimum.filter Datum.isTruthy with
  | none => .ok (float (.zero false))
  | some (.bool _) => .ok (float (.ofInt 1))
  | some (.number (.int value)) =>
      match Binary64.ofInt value with
      | .infinite _ => .error .outOfRange
      | value => .ok (float value)
  | some (.number (.float value)) => .ok (float value)
  | some (.text text) =>
      match Number.readFloat text with
      | some value => .ok (float value)
      | none => .error .badValue
  | some _ => .error .wrongKind

/-- The first of the values that a schema allows. -/
def firstChoice (path : DatumPath) (choices : Datum) : Except ShapeError Sample :=
  let here := path ++ [.text "enum", .int 0]
  match choices with
  | .list (first :: _) => .ok (.borrowed here first)
  | .text text => .ok (.plain (.text (String.ofList (text.toList.take 1))))
  | .map entries =>
      match Datum.lookup (.int 0) entries with
      | some value => .ok (.borrowed here value)
      | none => .error .noEntry
  | _ => .error .wrongKind

/-- An example unless it is the absent value. -/
def Sample.present? (sample : Sample) : Option Sample :=
  match sample with
  | .borrowed _ .null | .plain .null => none
  | sample => some sample

/-- The entries of the properties of a schema. -/
def propertyEntries (schema : List (Datum × Datum)) :
    Except ShapeError (List (Datum × Datum)) :=
  match (Datum.lookup (.text "properties") schema).filter Datum.isTruthy with
  | none => .ok []
  | some (.map entries) => .ok entries
  | some value => .error (.noFields value.kindName)

/-- An example for the schema at a path, given how examples for nested schemas and for references are
made. -/
def exampleBody (nested : DatumPath → List (Datum × Datum) → Except ShapeError (Option Sample))
    (path : DatumPath) (schema : List (Datum × Datum)) : Except ShapeError (Option Sample) := do
  let get (name : String) : Option Datum := Datum.lookup (.text name) schema
  let plain (value : Datum) : Option Sample := some (.plain value)
  if let some value := get "example" then
    return (Sample.borrowed (path ++ [.text "example"]) value).present?
  if let some value := (get "default").filter (!·.isNull) then
    return some (.borrowed (path ++ [.text "default"]) value)
  if let some choices := (get "enum").filter Datum.isTruthy then
    return (← firstChoice path choices).present?
  let isKind (name : String) : Bool :=
    match get "type" with
    | some (.text type) => type == name
    | _ => false
  if isKind "object" || (get "properties").isSome then
    let fields ← (← propertyEntries schema).filterMapM fun (key, property) =>
      match property with
      | .map entries => do
          let sample ← nested (path ++ [.text "properties", key]) entries
          return sample.map fun sample => (key, sample)
      | _ => return none
    return some (.object fields)
  if isKind "array" then
    match get "items" with
    | some (.map entries) =>
        let item ← nested (path ++ [.text "items"]) entries
        return some (.array item.toList)
    | _ => return some (.array [])
  if isKind "string" then return plain (← textExample (get "format"))
  if isKind "integer" then return plain (← integerExample (get "minimum"))
  if isKind "number" then return plain (← numberExample (get "minimum"))
  if isKind "boolean" then return plain (.bool true)
  return none

/-- An example for the schema at a path of a document. A reference is followed unless it has been
followed on the way; `fuel` bounds the steps. -/
def exampleAt (document : Datum) :
    (fuel : Nat) → (seen : List String) → DatumPath → List (Datum × Datum) →
      Except ShapeError (Option Sample)
  | 0, _, _, _ => .ok none
  | fuel + 1, seen, path, schema =>
      match Datum.lookup (.text "$ref") schema with
      | some (.text pointer) =>
          if seen.contains pointer then .ok none
          else
            match resolvePointer document pointer with
            | some (.map target) =>
                exampleAt document fuel (pointer :: seen) (pointerPath pointer) target
            | _ => .ok none
      | _ => exampleBody (exampleAt document fuel seen) path schema

mutual

/-- The pointers of the references in a value. -/
def Datum.pointers : Datum → List String
  | .list items => itemPointers items
  | .map entries => entryPointers entries
  | _ => []

/-- The pointers in items. -/
def Datum.itemPointers : List Datum → List String
  | [] => []
  | item :: rest => pointers item ++ itemPointers rest

/-- The pointers in entries. -/
def Datum.entryPointers : List (Datum × Datum) → List String
  | [] => []
  | (key, item) :: rest =>
      let here :=
        match key, item with
        | .text "$ref", .text pointer => [pointer]
        | _, _ => []
      here ++ pointers item ++ entryPointers rest

end

/-- A bound on the steps of making an example: every reference is followed at most once, and between
two of them the way only leads deeper into a schema. -/
def exampleFuel (schema document : Datum) : Nat :=
  ((schema.pointers ++ document.pointers).length + 1) *
    (max schema.height document.height + 1)

/-- An example for a schema of a document. -/
def exampleFor (path : DatumPath) (schema document : Datum) : Except ShapeError (Option Sample) :=
  match schema with
  | .map entries => exampleAt document (exampleFuel schema document) [] path entries
  | value => .error (.noFields value.kindName)

/-- The value at a path. -/
def Datum.at? (value : Datum) (path : DatumPath) : Option Datum :=
  path.foldl
    (fun here key =>
      match here with
      | some (.map entries) => Datum.lookup key entries
      | _ => none)
    (some value)

/-- Entries with the one under a key changed. -/
def Datum.changeEntry (key : Datum) (change : Datum → Datum) :
    List (Datum × Datum) → List (Datum × Datum)
  | [] => []
  | (k, v) :: rest =>
      if Datum.sameKey k key then (k, change v) :: rest
      else (k, v) :: Datum.changeEntry key change rest

/-- A value with the part at a path of keys changed. -/
def Datum.changeAt (change : Datum → Datum) : DatumPath → Datum → Datum
  | [], value => change value
  | key :: path, .map entries => .map (Datum.changeEntry key (Datum.changeAt change path) entries)
  | _ :: _, value => value

/-- Places met one after the other, up to an error. -/
structure Places where
  found : List DatumPath := []
  error : Option ShapeError := none
  deriving Inhabited

namespace Places

/-- Goes on with further places, unless there was an error. -/
def andThen (first : Places) (second : Places) : Places :=
  match first.error with
  | some _ => first
  | none => { found := first.found ++ second.found, error := second.error }

/-- The places that each of several values gives. -/
def each {α : Type} (values : List α) (places : α → Places) : Places :=
  values.foldr (fun value rest => (places value).andThen rest) {}

/-- The places that the values of a mapping give, with the paths to these values. What is absent or
empty has none. -/
def inside (path : DatumPath) (value : Option Datum) (places : DatumPath → Datum → Places) :
    Places :=
  match value.filter Datum.isTruthy with
  | none => {}
  | some (.map entries) => each entries fun (key, item) => places (path ++ [key]) item
  | some value => { error := some (.noFields value.kindName) }

/-- The places that a field of a mapping gives. -/
def field (path : DatumPath) (value : Datum) (name : String)
    (places : DatumPath → Option Datum → Places) : Places :=
  match value with
  | .map entries => places (path ++ [.text name]) (Datum.lookup (.text name) entries)
  | value => { error := some (.noFields value.kindName) }

/-- The media types in the content of something. -/
def ofContent (path : DatumPath) (value : Datum) : Places :=
  field path value "content" fun path content =>
    inside path content fun path _ => { found := [path] }

/-- The media types of an operation: those of its request body, then those of its responses. -/
def ofOperation (path : DatumPath) (operation : Datum) : Places :=
  let body := field path operation "requestBody" fun path body =>
    match body.filter Datum.isTruthy with
    | none => {}
    | some body => ofContent path body
  body.andThen (field path operation "responses" fun path responses =>
    inside path responses ofContent)

/-- The media types of a document: those of its operations, then those of its components. -/
def ofDocument (document : Datum) : Places :=
  let operations := field [] document "paths" fun path paths =>
    inside path paths fun path methods =>
      match methods with
      | .map _ => inside path (some methods) ofOperation
      | value => { error := some (.noFields value.kindName) }
  let components := field [] document "components" fun path components =>
    match components.filter Datum.isTruthy with
    | none => {}
    | some components =>
        each ["requestBodies", "responses"] fun name =>
          field path components name fun path entries => inside path entries ofContent
  operations.andThen components

end Places

/-- A document with examples put in, the places that got one, and the examples. -/
structure Attached where
  document : Datum
  samples : List (DatumPath × Sample) := []
  deriving Inhabited

/-- Whether a media type is to get an example: it has none, and it has a schema. -/
def wantsExample (media : Datum) : Except ShapeError (Option Datum) :=
  match media with
  | .map entries =>
      if (Datum.lookup (.text "example") entries).isSome then .ok none
      else .ok ((Datum.lookup (.text "schema") entries).filter Datum.isMap)
  | .list items =>
      if items.any (Datum.sameKey (.text "example")) then .ok none else .error (.noFields media.kindName)
  | .text text =>
      if (Text.indexOf? "example".toList text.toList).isSome then .ok none else .error (.noFields media.kindName)
  | _ => .error .wrongKind

/-- Gives the media type at a place an example when it is to get one and there is one. -/
def attachAt (attached : Attached) (place : DatumPath) : Except ShapeError Attached := do
  let some media := attached.document.at? place | return attached
  let some schema ← wantsExample media | return attached
  match ← exampleFor (place ++ [.text "schema"]) schema attached.document with
  | none => return attached
  | some sample =>
      let put (media : Datum) : Datum :=
        match media with
        | .map entries => .map (Datum.insertEntry (.text "example") sample.value entries)
        | media => media
      return { document := attached.document.changeAt put place
               samples := attached.samples ++ [(place, sample)] }

/-- Fills every media type of a document that has a schema and no example. -/
def attachExamples (document : Datum) : Except ShapeError Attached := do
  let places := Places.ofDocument document
  let attached ← places.found.foldlM attachAt { document }
  match places.error with
  | some error => throw error
  | none => return attached

end DocCompiler
