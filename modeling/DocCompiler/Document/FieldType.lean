import DocCompiler.Data.Datum
import DocCompiler.Text.Blank
import DocCompiler.Text.LetterCase
import DocCompiler.Text.Split

/-!
The type of a property, as far as the declared type of its field or its example tells.
-/

namespace DocCompiler

open Text

/-- The type in a document for the name of a type in a program. -/
def documentType? : String → Option String
  | "int" | "integer" | "long" | "short" | "byte" | "bigint" | "biginteger" => some "integer"
  | "float" | "double" | "number" | "decimal" | "bigdecimal" => some "number"
  | "string" | "char" | "character" | "uuid" => some "string"
  | "bool" | "boolean" => some "boolean"
  | "array" | "list" | "set" | "collection" | "iterable" => some "array"
  | "object" | "map" | "stdclass" => some "object"
  | _ => none

/-- The type of an example. -/
def exampleType? : Datum → Option String
  | .bool _ => some "boolean"
  | .number (.int _) => some "integer"
  | .number (.float _) => some "number"
  | .text _ | .codes _ => some "string"
  | .list _ => some "array"
  | .map _ => some "object"
  | _ => none

/-- The bare name of a type: without its arguments, its namespace and its package, in lower case. -/
def bareTypeName (type : String) : String :=
  lower (afterLast '.' (afterLast '\\' (beforeFirst '<' type)))

/-- The type of a declared type, and whether it admits the absent value: a question mark in front or
the alternative `null` says so. -/
def declaredType? (declared : String) : Option String × Bool :=
  let parts := ((splitOn '|' declared).map trimmed).filter (!·.isEmpty)
  let isNull (part : String) : Bool := lower part == "null"
  let first := ((parts.filter (!isNull ·)).head?).getD ""
  let marked := startsWith "?" first
  let nullable := parts.any isNull || marked
  let type := if marked then String.ofList (first.toList.drop 1) else first
  (if endsWith "[]" type then some "array" else documentType? (bareTypeName type), nullable)

/-- The type of a property, and whether it admits the absent value. -/
def inferType (declared : Option String) (sample : Datum) : Option String × Bool :=
  match declared.filter (!·.isEmpty) with
  | none => (exampleType? sample, false)
  | some declared =>
      let (type, nullable) := declaredType? declared
      (type.or (exampleType? sample), nullable)

end DocCompiler
