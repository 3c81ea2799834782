import DocCompiler.Number.Basic
import DocCompiler.Source.Location
import DocCompiler.Text.Printable

/-!
Plain values: what a constant may hold, what an annotation gives as an example, and what documents
and configurations consist of. Mappings keep the order of their entries.
-/

namespace DocCompiler

/-- A calendar day. -/
structure Date where
  year : Nat
  month : Nat
  day : Nat
  deriving DecidableEq, Repr, Inhabited

/-- A number in decimal, padded with zeros on the left. -/
def padded (width number : Nat) : String :=
  let digits := Nat.toDigits 10 number
  String.ofList (List.replicate (width - digits.length) '0' ++ digits)

/-- Year, month and day with hyphens. -/
def Date.text (date : Date) : String :=
  padded 4 date.year ++ "-" ++ padded 2 date.month ++ "-" ++ padded 2 date.day

/-- A time of a day, with the distance in seconds to universal time when it is known. -/
structure Moment where
  date : Date
  hour : Nat
  minute : Nat
  second : Nat
  microsecond : Nat
  offset : Option Int
  deriving DecidableEq, Repr, Inhabited

/-- Day and time, with the fraction of the second and the offset where there is one. -/
def Moment.text (moment : Moment) : String :=
  let clock := padded 2 moment.hour ++ ":" ++ padded 2 moment.minute ++ ":" ++ padded 2 moment.second
  let fraction := if moment.microsecond = 0 then "" else "." ++ padded 6 moment.microsecond
  let zone :=
    match moment.offset with
    | none => ""
    | some offset =>
        let size := offset.natAbs
        let rest := if size % 60 = 0 then "" else ":" ++ padded 2 (size % 60)
        (if offset < 0 then "-" else "+") ++ padded 2 (size / 3600) ++ ":" ++
          padded 2 (size / 60 % 60) ++ rest
  moment.date.text ++ " " ++ clock ++ fraction ++ zone

/-- The moment in universal time, as a day with the number of its seconds, which may lie before or
behind the day; `none` when the distance to universal time is not known. -/
def Moment.universal? (moment : Moment) : Option Int :=
  moment.offset.map fun offset =>
    ((moment.hour * 60 + moment.minute) * 60 + moment.second : Nat) - offset

/-- The number of days from the first of March of the year zero to a day. -/
def Date.number (date : Date) : Nat :=
  let year := if date.month ≤ 2 then date.year - 1 else date.year
  let month := if date.month ≤ 2 then date.month + 9 else date.month - 3
  365 * year + year / 4 - year / 100 + year / 400 + (153 * month + 2) / 5 + (date.day - 1)

/-- Whether two times are the same: at the same instant when both have an offset, else with the same
clock and no offset. -/
def Moment.same (a b : Moment) : Bool :=
  match a.universal?, b.universal? with
  | some x, some y =>
      a.microsecond == b.microsecond &&
        (a.date.number : Int) * 86400 + x == (b.date.number : Int) * 86400 + y
  | _, _ => a == b

/-- A plain value. A mapping lists its entries in order, with distinct keys. A list or mapping that
contains itself has a leaf in its own place. -/
inductive Datum
  | null
  | bool (value : Bool)
  | number (value : Number)
  | text (value : String)
  /-- A text with code points that are no characters. -/
  | codes (points : List Nat)
  | list (items : List Datum)
  | map (entries : List (Datum × Datum))
  | date (value : Date)
  | moment (value : Moment)
  | bytes (value : List UInt8)
  | set (items : List Datum)
  | pair (first second : Datum)
  | unresolved (marker : Marker)
  /-- The list or mapping that stands the given number of lists and mappings further up. -/
  | again (levels : Nat)
  deriving Repr, Inhabited

namespace Datum

/-- A whole number as a value. -/
abbrev int (value : Int) : Datum := .number (.int value)

/-- The text with given code points. -/
def ofCodes (points : List Nat) : Datum :=
  if points.all fun code => decide code.isValidChar then
    .text (String.ofList (points.map Char.ofNat))
  else .codes points

/-- A mapping with text keys. -/
def record (fields : List (String × Datum)) : Datum :=
  .map (fields.map fun field => (.text field.1, field.2))

/-- The number that a value counts as where keys are compared. -/
def keyNumber? : Datum → Option Number
  | .bool value => some (.int (if value then 1 else 0))
  | .number value => some value
  | _ => none

/-- Whether two values are the same key of a mapping. Truth values count as zero and one. -/
def sameKey (a b : Datum) : Bool :=
  match a, b with
  | .null, .null => true
  | .text a, .text b => a == b
  | .codes a, .codes b => a == b
  | .date a, .date b => a == b
  | .moment a, .moment b => a.same b
  | .bytes a, .bytes b => a == b
  | .unresolved a, .unresolved b => a == b
  | a, b =>
      match keyNumber? a, keyNumber? b with
      | some a, some b => a.equals b
      | _, _ => false

/-- Whether a value may be a key: everything but collections that change. -/
def isHashable : Datum → Bool
  | .list _ | .map _ | .set _ | .again _ => false
  | .pair first second => isHashable first && isHashable second
  | _ => true

/-- What stands under a key among entries. -/
def lookup {α : Type} (key : Datum) : List (Datum × α) → Option α
  | [] => none
  | (k, v) :: rest => if sameKey k key then some v else lookup key rest

/-- Entries with something put under a key: in the place of an equal key, else at the end. -/
def insertEntry {α : Type} (key : Datum) (value : α) : List (Datum × α) → List (Datum × α)
  | [] => [(key, value)]
  | (k, v) :: rest =>
      if sameKey k key then (k, value) :: rest else (k, v) :: insertEntry key value rest

/-- Entries with distinct keys from entries in the order they were given. -/
def distinctEntries {α : Type} (entries : List (Datum × α)) : List (Datum × α) :=
  entries.foldl (fun done entry => insertEntry entry.1 entry.2 done) []

/-- The value of a field of a mapping. -/
def field? (name : String) : Datum → Option Datum
  | .map entries => lookup (.text name) entries
  | _ => none

/-- The text that a value is. -/
def text? : Datum → Option String
  | .text value => some value
  | _ => none

/-- The code points of a text. -/
def codes? : Datum → Option (List Nat)
  | .text value => some (value.toList.map Char.toNat)
  | .codes points => some points
  | _ => none

/-- Whether a value is a given text. -/
def isText (value : Datum) (name : String) : Bool :=
  value.text? == some name

/-- Whether a value is one of some texts. -/
def isAmong (value : Datum) (names : List String) : Bool :=
  value.text?.any names.contains

/-- Whether a value is a mapping. -/
def isMap : Datum → Bool
  | .map _ => true
  | _ => false

/-- Whether a value is absent. -/
def isNull : Datum → Bool
  | .null => true
  | _ => false

/-- Whether a value counts as given: absent values, false, zeros and empty values do not. -/
def isTruthy : Datum → Bool
  | .null => false
  | .bool value => value
  | .number value => !value.isZero
  | .text value => !value.isEmpty
  | .list items => !items.isEmpty
  | .map entries => !entries.isEmpty
  | .bytes value => !value.isEmpty
  | .set items => !items.isEmpty
  | _ => true

/-- The name of the kind of a value in messages. -/
def kindName : Datum → String
  | .null => "NoneType"
  | .bool _ => "bool"
  | .number (.int _) => "int"
  | .number (.float _) => "float"
  | .text _ | .codes _ => "str"
  | .list _ => "list"
  | .map _ => "dict"
  | .date _ => "date"
  | .moment _ => "datetime"
  | .bytes _ => "bytes"
  | .set _ => "set"
  | .pair _ _ => "tuple"
  | .unresolved _ => "UnresolvedConstant"
  | .again _ => "dict"

/-- A byte between quotes. -/
def escapeByte (quote : Char) (byte : UInt8) : List Char :=
  let c := Char.ofNat byte.toNat
  if c == quote || c == '\\' then ['\\', c]
  else if c == '\n' then ['\\', 'n']
  else if c == '\r' then ['\\', 'r']
  else if c == '\t' then ['\\', 't']
  else if 32 ≤ byte.toNat && byte.toNat < 127 then [c]
  else '\\' :: 'x' :: Text.hexPadded 2 byte.toNat

/-- Bytes in quotes. -/
def quotedBytes (content : List UInt8) : String :=
  let quote := if content.contains 39 && !content.contains 34 then '"' else '\''
  "b" ++ String.ofList (quote :: content.flatMap (escapeByte quote) ++ [quote])

/-- Code points in quotes. Those that are no characters are escaped. -/
def quotedCodes (points : List Nat) : String :=
  let shown (code : Nat) : List Char :=
    if code.isValidChar then Text.escapeIn '\'' (Char.ofNat code)
    else '\\' :: 'u' :: Text.hexPadded 4 code
  "'" ++ String.ofList (points.flatMap shown) ++ "'"

/-- A day inside another value. -/
def inspectDate (date : Date) : String :=
  "datetime.date(" ++ toString date.year ++ ", " ++ toString date.month ++ ", " ++
    toString date.day ++ ")"

/-- An offset to universal time inside another value. -/
def inspectOffset (offset : Int) : String :=
  if offset = 0 then "datetime.timezone.utc"
  else
    let days := if offset < 0 then "days=-1, " else ""
    let seconds := if offset < 0 then 86400 + offset else offset
    "datetime.timezone(datetime.timedelta(" ++ days ++ "seconds=" ++ toString seconds ++ "))"

/-- A time of a day inside another value. Seconds and their fraction are left out when they are
zero. -/
def inspectMoment (moment : Moment) : String :=
  let fields := [moment.date.year, moment.date.month, moment.date.day, moment.hour, moment.minute] ++
    (if moment.microsecond ≠ 0 then [moment.second, moment.microsecond]
     else if moment.second ≠ 0 then [moment.second]
     else [])
  let zone := moment.offset.elim "" fun offset => ", tzinfo=" ++ inspectOffset offset
  "datetime.datetime(" ++ ", ".intercalate (fields.map toString) ++ zone ++ ")"

/-- A marker inside another value. -/
def inspectMarker (marker : Marker) : String :=
  let number (value : Option Int) : String := value.elim "None" toString
  let place := marker.location.elim "None" fun place =>
    "SourceLocation(path=" ++ Text.quoted place.path ++ ", line=" ++ number place.line ++
      ", column=" ++ number place.column ++ ")"
  "UnresolvedConstant(name=" ++ Text.quoted marker.name ++ ", location=" ++ place ++ ")"

mutual

/-- A value as it stands inside another one: texts are quoted. -/
def inspect : Datum → String
  | .null => "None"
  | .bool value => if value then "True" else "False"
  | .number value => value.text
  | .text value => Text.quoted value
  | .codes points => quotedCodes points
  | .list items => "[" ++ inspectItems items ++ "]"
  | .map entries => "\x7b" ++ inspectEntries entries ++ "\x7d"
  | .date value => inspectDate value
  | .moment value => inspectMoment value
  | .bytes value => quotedBytes value
  | .set [] => "set()"
  | .set items => "\x7b" ++ inspectItems items ++ "\x7d"
  | .pair first second => "(" ++ inspect first ++ ", " ++ inspect second ++ ")"
  | .unresolved marker => inspectMarker marker
  | .again _ => "..."

/-- Items separated by commas. -/
def inspectItems : List Datum → String
  | [] => ""
  | [item] => inspect item
  | item :: rest => inspect item ++ ", " ++ inspectItems rest

/-- Entries separated by commas. -/
def inspectEntries : List (Datum × Datum) → String
  | [] => ""
  | [(key, value)] => inspect key ++ ": " ++ inspect value
  | (key, value) :: rest => inspect key ++ ": " ++ inspect value ++ ", " ++ inspectEntries rest

end

/-- The text of a value: texts, days, times and markers stand for themselves, everything else is shown
as inside a list. -/
def display : Datum → String
  | .text value => value
  | .codes points => String.ofList (points.map Char.ofNat)
  | .date value => value.text
  | .moment value => value.text
  | .unresolved marker => marker.text
  | value => inspect value

/-- A value as a text. -/
def asText : Datum → Datum
  | .codes points => .codes points
  | value => .text value.display

mutual

/-- Whether a value has a text: no whole number in it is too long. -/
def isShowable : Datum → Bool
  | .number value => value.isWritable
  | .list items | .set items => areShowable items
  | .map entries => haveShowable entries
  | .pair first second => isShowable first && isShowable second
  | _ => true

/-- Whether all items have a text. -/
def areShowable : List Datum → Bool
  | [] => true
  | item :: rest => isShowable item && areShowable rest

/-- Whether all keys and values of entries have a text. -/
def haveShowable : List (Datum × Datum) → Bool
  | [] => true
  | (key, item) :: rest => isShowable key && isShowable item && haveShowable rest

end

mutual

/-- A value with a whole in place of the leaves that stand for it, `levels` further up. -/
def plug (whole : Datum) (levels : Nat) : Datum → Datum
  | .again count => if count = levels then whole else .again count
  | .list items => .list (plugItems whole (levels + 1) items)
  | .map entries => .map (plugEntries whole (levels + 1) entries)
  | .pair first second => .pair (plug whole levels first) (plug whole levels second)
  | value => value

/-- Items with a whole in place of the leaves that stand for it. -/
def plugItems (whole : Datum) (levels : Nat) : List Datum → List Datum
  | [] => []
  | item :: rest => plug whole levels item :: plugItems whole levels rest

/-- The values of entries with a whole in place of the leaves that stand for it. -/
def plugEntries (whole : Datum) (levels : Nat) :
    List (Datum × Datum) → List (Datum × Datum)
  | [] => []
  | (key, item) :: rest => (key, plug whole levels item) :: plugEntries whole levels rest

end

/-- A list or mapping whose members contain it in full where they stood for it, so that they can be
taken out. -/
def opened (value : Datum) : Datum :=
  match value with
  | .list items => .list (plugItems value 0 items)
  | .map entries => .map (plugEntries value 0 entries)
  | value => value

end Datum

end DocCompiler
