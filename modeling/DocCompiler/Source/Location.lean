/-!
Places in source units, and the markers of constants whose value is not known.
-/

namespace DocCompiler

/-- A place in a source unit: the unit, or a line of it, or a column of that line. -/
structure Location where
  path : String
  line : Option Int := none
  column : Option Int := none
  deriving DecidableEq, Repr, Inhabited

/-- The text of a place: path, line and column separated by colons, as far as they are known. -/
def Location.text (place : Location) : String :=
  match place.line, place.column with
  | none, _ => place.path
  | some line, none => place.path ++ ":" ++ toString line
  | some line, some column => place.path ++ ":" ++ toString line ++ ":" ++ toString column

/-- The place of an annotation. A line or column of zero is not known. -/
def Location.ofPosition (path : String) (line column : Int) : Location :=
  { path
    line := if line = 0 then none else some line
    column := if column = 0 then none else some column }

/-- A constant that the table of constants does not define, and where it is used. -/
structure Marker where
  name : String
  location : Option Location := none
  deriving DecidableEq, Repr, Inhabited

/-- The text that stands for a marker. -/
def Marker.text (marker : Marker) : String :=
  "<unresolved constant " ++ marker.name ++ ">"

end DocCompiler
