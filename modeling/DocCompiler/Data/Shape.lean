import DocCompiler.Data.Datum

/-!
Plain values that are expected to have a certain shape: the size of a value, its fields and items, and
what may be wrong with them.
-/

namespace DocCompiler

/-- What is wrong with the shape of a value. -/
inductive ShapeError
  /-- A value of some kind, which has no fields, stands where a mapping is expected. -/
  | noFields (kind : String)
  /-- A value of a kind that does not serve. -/
  | wrongKind
  /-- A mapping lacks an entry. -/
  | noEntry
  /-- A value of the right kind that is none of those allowed. -/
  | badValue
  /-- A number that is too large. -/
  | outOfRange
  deriving DecidableEq, Repr, Inhabited

namespace Datum

mutual

/-- The number of levels of a value. -/
def height : Datum → Nat
  | .list items => 1 + itemsHeight items
  | .map entries => 1 + entriesHeight entries
  | _ => 1

/-- The greatest number of levels among items. -/
def itemsHeight : List Datum → Nat
  | [] => 0
  | item :: rest => max (height item) (itemsHeight rest)

/-- The greatest number of levels among entries. -/
def entriesHeight : List (Datum × Datum) → Nat
  | [] => 0
  | (_, item) :: rest => max (height item) (entriesHeight rest)

end

/-- The text of a value. A number that is too long has none. -/
def shown (value : Datum) : Except ShapeError String :=
  if value.isShowable then .ok value.display else .error .badValue

/-- The value of an entry that must be there. -/
def entry (value : Datum) (name : String) : Except ShapeError Datum :=
  match value with
  | .map entries =>
      match lookup (.text name) entries with
      | some item => .ok item
      | none => .error .noEntry
  | _ => .error .wrongKind

/-- The value of an entry that may be missing. -/
def entry? (value : Datum) (name : String) : Except ShapeError (Option Datum) :=
  match value with
  | .map entries => .ok (lookup (.text name) entries)
  | value => .error (.noFields value.kindName)

/-- The members of a value one after the other: items, keys, or the characters of a text. -/
def members (value : Datum) : Except ShapeError (List Datum) :=
  match value with
  | .list items | .set items => .ok items
  | .map entries => .ok (entries.map (·.1))
  | .text chars => .ok (chars.toList.map fun c => .text (String.singleton c))
  | .codes points => .ok (points.map fun code => ofCodes [code])
  | .bytes content => .ok (content.map fun byte => .int byte.toNat)
  | .pair first second => .ok [first, second]
  | _ => .error .wrongKind

/-- The two members of a value that has two. -/
def twoMembers (value : Datum) : Except ShapeError (Datum × Datum) := do
  match ← members value with
  | [first, second] => return (first, second)
  | _ => throw .badValue

end Datum

end DocCompiler
