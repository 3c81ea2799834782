import DocCompiler.Data.Datum
import DocCompiler.Source.Location
import DocCompiler.Text.Split

/-!
The declarations that doc comments belong to, doc comments without their decoration, and the way from
their text back to the source.
-/

namespace DocCompiler

/-- What a doc comment documents. -/
inductive SymbolKind
  | file
  | type
  | method
  | field
  deriving DecidableEq, Repr, Inhabited

namespace SymbolKind

/-- The name of a kind. -/
def name : SymbolKind → String
  | .file => "file"
  | .type => "type"
  | .method => "method"
  | .field => "field"

/-- The kind with a given name. -/
def ofName? : String → Option SymbolKind
  | "file" => some .file
  | "type" => some .type
  | "method" => some .method
  | "field" => some .field
  | _ => none

end SymbolKind

/-- A declaration, or the file as a whole. What is found in a source has texts as names; the parent
and the declared type are absent when they are not known. A stored unit may hold any other values. -/
structure Symbol where
  kind : SymbolKind
  name : Datum
  qualifiedName : Datum
  parent : Datum := .null
  declaredType : Datum := .null
  deriving Repr, Inhabited

/-- The symbol of a whole unit. -/
def Symbol.ofFile (identity : String) : Symbol :=
  { kind := .file, name := .text identity, qualifiedName := .text identity }

/-- The cleaned text of a doc comment. `lineColumns` holds, line by line, the source column that the
first character of the line came from. -/
structure Block where
  source : String
  symbol : Symbol
  startLine : Int
  startColumn : Int
  endLine : Int
  text : String
  lineColumns : List Int := []
  deriving Repr, Inhabited

/-- The place in the source of an offset of a text that starts at `startLine`. A line without a known
column starts at its first one, the first line behind the three characters that open the comment. -/
def locate (source : String) (startLine startColumn : Int) (lineColumns : List Int)
    (text : List Char) (offset : Nat) : Location :=
  let line := (text.take offset).count '\n'
  let within : Int := (Text.columnOf text offset : Int) - 1
  let first :=
    match lineColumns[line]? with
    | some column => column
    | none => if line = 0 then startColumn + 3 else 1
  { path := source, line := some (startLine + line), column := some (within + first) }

/-- The place in the source of an offset of the text of a block. -/
def Block.location (block : Block) (offset : Nat) : Location :=
  locate block.source block.startLine block.startColumn block.lineColumns block.text.toList offset

end DocCompiler
