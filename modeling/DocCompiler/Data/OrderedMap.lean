/-!
Maps from names to values that keep the order in which names were first put in.
-/

namespace DocCompiler

/-- Entries with distinct names, oldest first. -/
abbrev OrderedMap (α : Type) := List (String × α)

namespace OrderedMap

variable {α : Type}

/-- The value under a name. -/
def get? (map : OrderedMap α) (name : String) : Option α :=
  List.lookup name map

/-- Whether a name is present. -/
def has (map : OrderedMap α) (name : String) : Bool :=
  List.any map fun entry => entry.1 == name

/-- Puts a value under a name: in the place of the old value, else at the end. -/
def put (name : String) (value : α) : OrderedMap α → OrderedMap α
  | [] => [(name, value)]
  | (n, v) :: rest => if n == name then (n, value) :: rest else (n, v) :: put name value rest

/-- Takes a name out. -/
def erase (map : OrderedMap α) (name : String) : OrderedMap α :=
  List.filter (fun entry => entry.1 != name) map

/-- The names in order. -/
def names (map : OrderedMap α) : List String :=
  List.map (·.1) map

/-- The values in order. -/
def values (map : OrderedMap α) : List α :=
  List.map (·.2) map

end OrderedMap

end DocCompiler
