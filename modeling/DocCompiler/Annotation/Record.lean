import DocCompiler.Annotation.Tree
import DocCompiler.Data.Shape
import DocCompiler.Number.Numeral

/-!
Annotated units as plain values, the form in which they are kept between runs, and the way back.
-/

namespace DocCompiler.Annotation

mutual

/-- A value of an attribute as a plain value. -/
def Value.record : Value → Datum
  | .leaf kind data => kinded (.leaf kind) data
  | .array items => kinded .array (.list (recordItems items))
  | .mapping entries => kinded .mapping (.list (recordEntries entries))
  | .tag node => kinded .tag (Node.record node)
where
  /-- A kind with its data. -/
  kinded (kind : ValueKind) (data : Datum) : Datum :=
    .record [("kind", .text kind.name), ("data", data)]

/-- Values as plain values. -/
def recordItems : List Value → List Datum
  | [] => []
  | item :: rest => Value.record item :: recordItems rest

/-- Names with values as plain values. -/
def recordEntries : List (Datum × Value) → List Datum
  | [] => []
  | (name, item) :: rest => .list [name, Value.record item] :: recordEntries rest

/-- An annotation as a plain value. -/
def Node.record : Node → Datum
  | ⟨tag, attributes, children, line, column⟩ =>
      .record [
        ("tag", tag),
        ("line", .int line),
        ("column", .int column),
        ("attributes", .list (recordEntries attributes)),
        ("children", .list (recordNodes children))]

/-- Annotations as plain values. -/
def recordNodes : List Node → List Datum
  | [] => []
  | node :: rest => Node.record node :: recordNodes rest

end

/-- A symbol as a plain value. -/
def symbolRecord (symbol : Symbol) : Datum :=
  .record [
    ("kind", .text symbol.kind.name),
    ("name", symbol.name),
    ("qualified_name", symbol.qualifiedName),
    ("parent", symbol.parent),
    ("declared_type", symbol.declaredType)]

/-- A place as a plain value. -/
def placeRecord (place : Place) : Datum :=
  .record [("path", .text place.path), ("line", place.line), ("column", place.column)]

/-- A diagnostic as a plain value. -/
def diagnosticRecord (diagnostic : Diagnostic) : Datum :=
  .record [
    ("phase", .text diagnostic.phase.name),
    ("severity", .text diagnostic.severity.name),
    ("message", .text diagnostic.message),
    ("location", diagnostic.place.elim .null placeRecord),
    ("rule", diagnostic.rule),
    ("entity", diagnostic.entity),
    ("target", diagnostic.target)]

/-- A unit as a plain value; its identity is kept elsewhere. -/
def AnnotatedUnit.record (unit : AnnotatedUnit) : Datum :=
  .record [
    ("fingerprint", .text unit.fingerprint),
    ("blocks", .list (unit.blocks.map fun block =>
      .record [
        ("symbol", symbolRecord block.symbol),
        ("nodes", .list (block.nodes.map Node.record))])),
    ("diagnostics", .list (unit.diagnostics.map diagnosticRecord))]

/-- A whole number, from a number or from its text. -/
def readInt (value : Datum) : Except ShapeError Int :=
  match value with
  | .number (.int value) => .ok value
  | .number (.float (.finite negative significand exponent)) =>
      .ok (Binary64.truncate negative significand exponent)
  | .number (.float (.infinite _)) => .error .outOfRange
  | .number (.float .nan) => .error .badValue
  | .bool value => .ok (if value then 1 else 0)
  | .text text =>
      match Number.readInt text with
      | .ok value => .ok value
      | .error _ => .error .badValue
  | _ => .error .wrongKind

/-- Something with a name among those of an enumeration. -/
def readNamed {α : Type} (ofName? : String → Option α) (value : Datum) : Except ShapeError α :=
  match value with
  | .text name =>
      match ofName? name with
      | some value => .ok value
      | none => .error .badValue
  | _ => .error .badValue

/-- The value of an entry, absent when the entry is missing. -/
def optional (value : Datum) (name : String) : Except ShapeError Datum := do
  return (← value.entry? name).getD .null

/-- The members of an entry, none when the entry is missing. -/
def several (value : Datum) (name : String) : Except ShapeError (List Datum) := do
  ((← value.entry? name).getD (.list [])).members

/-- A name with a value from a plain value, given how values are read. -/
def readEntry (read : Datum → Except ShapeError Value) (member : Datum) :
    Except ShapeError (Datum × Value) := do
  let (name, item) ← member.twoMembers
  return (name, ← read item)

mutual

/-- The value of an attribute from a plain value; `depth` bounds its levels. -/
def readValue : (depth : Nat) → Datum → Except ShapeError Value
  | 0, _ => .error .wrongKind
  | depth + 1, value => do
      let kind ← readNamed ValueKind.ofName? (← value.entry "kind")
      let data ← optional value "data"
      match kind with
      | .leaf kind => return .leaf kind data
      | .array => return .array (← (← data.members).mapM (readValue depth))
      | .mapping => return .mapping (← (← data.members).mapM (readEntry (readValue depth)))
      | .tag => return .tag (← readNode depth data)

/-- An annotation from a plain value; `depth` bounds its levels. -/
def readNode : (depth : Nat) → Datum → Except ShapeError Node
  | 0, _ => .error .wrongKind
  | depth + 1, value => do
      let tag ← value.entry "tag"
      let attributes ← (← several value "attributes").mapM (readEntry (readValue depth))
      let children ← (← several value "children").mapM (readNode depth)
      let line ← readInt ((← value.entry? "line").getD (.int 0))
      let column ← readInt ((← value.entry? "column").getD (.int 0))
      return { tag, attributes, children, line, column }

end

/-- A symbol from a plain value. -/
def readSymbol (value : Datum) : Except ShapeError Symbol := do
  let kind ← readNamed SymbolKind.ofName? (← value.entry "kind")
  let name ← value.entry "name"
  let qualifiedName ← value.entry "qualified_name"
  return { kind, name, qualifiedName, parent := ← optional value "parent"
           declaredType := ← optional value "declared_type" }

/-- A place from a plain value; anything but a mapping is no place. -/
def readPlace? (value : Datum) : Except ShapeError (Option Place) :=
  if value.isMap then do
    let path ← ((← value.entry? "path").getD (.text "")).shown
    return some { path, line := ← optional value "line", column := ← optional value "column" }
  else return none

/-- A diagnostic from a plain value. -/
def readDiagnostic (value : Datum) : Except ShapeError Diagnostic := do
  let location ← optional value "location"
  let phase ← readNamed Phase.ofName? (← value.entry "phase")
  let severity ← readNamed Severity.ofName? (← value.entry "severity")
  let message ← (← value.entry "message").shown
  let place ← readPlace? location
  return { phase, severity, message, place, rule := ← optional value "rule"
           entity := ← optional value "entity", target := ← optional value "target" }

/-- The annotations of a doc comment from a plain value. -/
def readBlock (value : Datum) : Except ShapeError AnnotatedBlock := do
  let symbol ← readSymbol (← value.entry "symbol")
  let nodes ← (← several value "nodes").mapM (readNode value.height)
  return { symbol, nodes }

/-- A unit with a given identity from a plain value. -/
def AnnotatedUnit.ofRecord (identity : String) (value : Datum) : Except ShapeError AnnotatedUnit := do
  let fingerprint ← (← value.entry "fingerprint").shown
  let blocks ← (← several value "blocks").mapM readBlock
  let diagnostics ← (← several value "diagnostics").mapM readDiagnostic
  return { identity, fingerprint, blocks, diagnostics }

end DocCompiler.Annotation
