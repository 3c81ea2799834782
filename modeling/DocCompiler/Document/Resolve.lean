import DocCompiler.Document.Walk
import DocCompiler.Source.Diagnostic

/-!
References bound to the components they name: dangling and misdirected ones are reported, as are
cycles of aliases; references that close a cycle of schemas are marked.
-/

namespace DocCompiler

/-- Why a reference or an alias is refused. -/
inductive ResolutionError
  | unknownCollection (pointer path collection : String)
  | unexpectedCollection (pointer path collection expected : String)
  | dangling (pointer path : String)
  | aliasCycle (collection : Collection) (cycle : List String) (following : String)
  deriving DecidableEq, Repr, Inhabited

namespace ResolutionError

/-- The wording of an error. -/
def message : ResolutionError → String
  | unknownCollection pointer path collection =>
      "reference " ++ pointer ++ " at " ++ path ++ " names unknown collection '" ++ collection ++ "'"
  | unexpectedCollection pointer path collection expected =>
      "reference " ++ pointer ++ " at " ++ path ++ " points into " ++ collection ++ ", expected " ++
        expected
  | dangling pointer path => "dangling reference " ++ pointer ++ " at " ++ path
  | aliasCycle collection cycle following =>
      collection.name ++ " aliases form a cycle: " ++ " -> ".intercalate (cycle ++ [following])

/-- The path of the part that an error is about. -/
def entity : ResolutionError → String
  | unknownCollection _ path _ | unexpectedCollection _ path _ _ | dangling _ path => path
  | aliasCycle collection cycle _ => "components." ++ collection.name ++ "." ++ cycle.headD ""

/-- The pointer that an error is about. -/
def target : ResolutionError → String
  | unknownCollection pointer _ _ | unexpectedCollection pointer _ _ _ | dangling pointer _ =>
      pointer
  | aliasCycle collection _ following => "#/components/" ++ collection.name ++ "/" ++ following

/-- The diagnostic for an error at a place. -/
def diagnostic (error : ResolutionError) (place : Option Location) : Diagnostic :=
  { phase := .resolve, severity := .error, message := error.message, place := place.map .ofLocation
    entity := .text error.entity, target := .text error.target }

end ResolutionError

namespace Reference

/-- Whether the name of a reference is the marker of a constant; such a reference is left alone. -/
def isMarked (link : Reference) : Bool :=
  match link.name with
  | .unresolved _ => true
  | _ => false

/-- What is wrong with a reference at a path. Nothing is said about a name that is a marker; a name
that cannot be a key stops the search. -/
def error? (components : Components) (path : String) (link : Reference) :
    Except ShapeError (Option ResolutionError) :=
  if link.isMarked then .ok none
  else
    match Collection.ofDatum? link.collection with
    | none => .ok (some (.unknownCollection link.pointer path link.collection.display))
    | some collection =>
        if !link.expected.isText collection.name then
          .ok (some
            (.unexpectedCollection link.pointer path collection.name link.expected.display))
        else if !link.name.isHashable then .error .wrongKind
        else if (components.get? collection link.name).isSome then .ok none
        else .ok (some (.dangling link.pointer path))

/-- A reference bound to the component it names, when that is right. -/
def bind (components : Components) (link : Reference) : Reference :=
  match link.isMarked, link.error? components "" with
  | false, .ok none => { link with binding := .component }
  | _, _ => link

end Reference

namespace Model

/-- What is found at the references of a model and at the obstacles of its walk, in order. -/
def findings (model : Model) : List (Except ShapeError (Option Diagnostic)) :=
  model.walk.filterMap fun
    | .error error => some (.error error)
    | .ok (path, .reference link) =>
        some ((link.error? model.components path).map fun error =>
          error.map fun error => error.diagnostic link.location)
    | .ok _ => none

/-- The errors of references, in document order, unless something stops the search. -/
def referenceErrors (model : Model) : Except ShapeError (List Diagnostic) :=
  (model.findings.mapM id).map fun findings => findings.filterMap id

/-- The model with its references bound. -/
def bindReferences (model : Model) : Model :=
  model.mapReferences (m := Id) fun link => link.bind model.components

/-- The model with some number of its references bound, the first ones of its walk. -/
def bindFirst (model : Model) (count : Nat) : Model :=
  let step (link : Reference) : StateM Nat Reference := fun left =>
    if left = 0 then (link, 0) else (link.bind model.components, left - 1)
  ((model.mapReferences step).run count).1

end Model

/-- The name that a bound alias leads to. -/
def Part.following? : Part → Option String
  | .reference link => if link.isBound then some link.name.display else none
  | _ => none

/-- The component that an alias leads to. -/
def Components.next? (components : Components) : Part → Option Part
  | .reference link => components.target? link
  | _ => none

/-- The cycle that following aliases from the end of a chain of names leads into, with the name that
closes it; `fuel` bounds the chain. -/
def Components.aliasCycle? (components : Components) :
    (fuel : Nat) → (chain : List Datum) → (last : Part) → Option (List Datum × String)
  | 0, _, _ => none
  | fuel + 1, chain, last =>
      match last.following? with
      | none => none
      | some following =>
          if chain.any (·.isText following) then
            some (chain.dropWhile (!·.isText following), following)
          else
            match components.next? last with
            | none => none
            | some next => components.aliasCycle? fuel (chain ++ [.text following]) next

/-- The cycles of aliases that the entries of a collection lead into, each reported from where it is
entered first; `reported` holds the names on cycles found before. A cycle whose first name is none of
the collection stops the search. -/
def Components.aliasCycles (components : Components) (collection : Collection)
    (reported : List Datum) : Registry → Except ShapeError (List Diagnostic)
  | [] => .ok []
  | (name, part) :: rest =>
      match components.aliasCycle? (components.size + 2) [name] part with
      | none => components.aliasCycles collection reported rest
      | some (cycle, following) =>
          if cycle.any fun name => reported.any (Datum.sameKey name) then
            components.aliasCycles collection (cycle ++ reported) rest
          else do
            let first := cycle.headD .null
            let some entry := components.get? collection first | throw .noEntry
            let error : ResolutionError :=
              .aliasCycle collection (cycle.map Datum.display) following
            let later ← components.aliasCycles collection (cycle ++ reported) rest
            return error.diagnostic entry.place :: later

/-- The errors of cycles of aliases. Schemas may refer to each other in cycles. -/
def Components.aliasErrors (components : Components) : Except ShapeError (List Diagnostic) := do
  let found ← [Collection.parameters, .requestBodies, .responses].mapM fun collection =>
    components.aliasCycles collection [] (components.entries collection)
  return found.flatten

/-- A component by its collection and name. -/
abbrev ComponentKey := Collection × Datum

/-- Whether two components are the same. -/
def ComponentKey.same (a b : ComponentKey) : Bool :=
  a.1 == b.1 && a.2.sameKey b.2

/-- Where the search for cycles of schemas is: the components as far as their references are marked,
those that the search is inside of, and those it is through with. -/
structure CycleSearch where
  components : Components
  inside : List ComponentKey := []
  done : List ComponentKey := []
  deriving Inhabited

/-- The component that a reference is bound to. -/
def Reference.key? (link : Reference) : Option ComponentKey :=
  if link.binding = .component then
    (Collection.ofDatum? link.collection).map fun collection => (collection, link.name)
  else none

namespace CycleSearch

/-- Whether the search is inside a component. -/
def isInside (search : CycleSearch) (key : ComponentKey) : Bool :=
  search.inside.any key.same

/-- Whether the search is through with a component. -/
def isDone (search : CycleSearch) (key : ComponentKey) : Bool :=
  search.done.any key.same

/-- Marks a reference that leads back inside; else goes on at the component it names. -/
def follow (visit : ComponentKey → CycleSearch → CycleSearch) (link : Reference)
    (search : CycleSearch) : Reference × CycleSearch :=
  match link.key? with
  | none => (link, search)
  | some key =>
      if search.isInside key then ({ link with recursive := .bool true }, search)
      else (link, visit key search)

mutual

/-- Marks the references in a part, as far as they stand in schemas. -/
def mark (visit : ComponentKey → CycleSearch → CycleSearch) :
    Part → CycleSearch → Part × CycleSearch
  | .reference link, search =>
      let (link, search) := follow visit link search
      (.reference link, search)
  | .schema facets properties items, search =>
      let (properties, search) := markProperties visit properties search
      let (items, search) := markItems visit items search
      (.schema facets properties items, search)
  | part, search => (part, search)

/-- Marks the references in properties. -/
def markProperties (visit : ComponentKey → CycleSearch → CycleSearch) :
    Registry → CycleSearch → Registry × CycleSearch
  | [], search => ([], search)
  | (name, part) :: rest, search =>
      let (part, search) := mark visit part search
      let (rest, search) := markProperties visit rest search
      ((name, part) :: rest, search)

/-- Marks the references in the schema of items. -/
def markItems (visit : ComponentKey → CycleSearch → CycleSearch) :
    Option Part → CycleSearch → Option Part × CycleSearch
  | none, search => (none, search)
  | some part, search =>
      let (part, search) := mark visit part search
      (some part, search)

end

/-- Goes through a component unless the search is inside it or through with it; `fuel` bounds how deep
the search gets. -/
def visit : (fuel : Nat) → ComponentKey → CycleSearch → CycleSearch
  | 0, _, search => search
  | fuel + 1, key, search =>
      if search.isInside key || search.isDone key then search
      else
        match search.components.get? key.1 key.2 with
        | none => search
        | some part =>
            let (part, after) := mark (visit fuel) part { search with inside := key :: search.inside }
            { components := after.components.put key.1 key.2 part
              inside := search.inside
              done := key :: after.done }

end CycleSearch

/-- Components in which the references that close a cycle of schemas are marked. -/
def Components.markCycles (components : Components) : Components :=
  let search := components.schemas.foldl
    (fun search (name, _) => CycleSearch.visit (components.size + 1) (.schemas, name) search)
    { components }
  search.components

/-- Binds the references of a model and reports those that cannot be bound, then cycles of aliases;
references that close a cycle of schemas are marked. What stops it leaves the model as far as its
references are bound. -/
def Model.resolve (model : Model) : Model × Except ShapeError (List Diagnostic) :=
  match model.referenceErrors with
  | .error error =>
      let count := (model.findings.takeWhile (·.isOk)).length
      let bound := model.bindFirst count
      ({ bound with linked := bound.components }, .error error)
  | .ok errors =>
      let bound := model.bindReferences
      match bound.components.aliasErrors with
      | .error error => ({ bound with linked := bound.components }, .error error)
      | .ok cycles =>
          let components := bound.components.markCycles
          ({ bound with components, linked := components }, .ok (errors ++ cycles))

end DocCompiler
