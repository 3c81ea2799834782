import DocCompiler.Data.Datum

/-!
Plain values as JSON text.
-/

namespace DocCompiler.Json

/-- How a value is laid out. Without `indent` the text is one line; with `ascii` other characters are
escaped; with `sorted` the entries of mappings are sorted by key; with `lenient` a value that JSON has
no form for is written as its text. -/
structure Style where
  indent : Option Nat := none
  ascii : Bool := false
  sorted : Bool := false
  lenient : Bool := false

/-- Why a value has no JSON text. -/
inductive WriteError
  | unsupportedValue (kind : String)
  | unsupportedKey (kind : String)
  /-- Keys of different kinds cannot be sorted. -/
  | mixedKeys
  /-- A whole number with more digits than are written. -/
  | tooLong
  deriving DecidableEq, Repr, Inhabited

/-- A UTF-16 unit as an escape. -/
def escapeUnit (unit : Nat) : List Char :=
  '\\' :: 'u' :: Text.hexPadded 4 unit

/-- A character as it stands in a JSON string. -/
def escapeChar (ascii : Bool) (c : Char) : List Char :=
  if c == '"' || c == '\\' then ['\\', c]
  else if c == '\n' then ['\\', 'n']
  else if c == '\r' then ['\\', 'r']
  else if c == '\t' then ['\\', 't']
  else if c == '\x08' then ['\\', 'b']
  else if c == '\x0c' then ['\\', 'f']
  else if c.toNat < 32 then escapeUnit c.toNat
  else if ascii && 126 < c.toNat then
    if c.toNat < 0x10000 then escapeUnit c.toNat
    else
      let code := c.toNat - 0x10000
      escapeUnit (0xD800 + code / 0x400) ++ escapeUnit (0xDC00 + code % 0x400)
  else [c]

/-- A text as a JSON string. -/
def writeString (ascii : Bool) (text : String) : String :=
  String.ofList ('"' :: text.toList.flatMap (escapeChar ascii) ++ ['"'])

/-- A code point as it stands in a JSON string. One that is no character is escaped. -/
def escapeCode (ascii : Bool) (code : Nat) : List Char :=
  if code.isValidChar then escapeChar ascii (Char.ofNat code) else escapeUnit code

/-- Code points as a JSON string. -/
def writeCodes (ascii : Bool) (points : List Nat) : String :=
  String.ofList ('"' :: points.flatMap (escapeCode ascii) ++ ['"'])

/-- A number as JSON text; the infinities and the undefined number have names of their own. -/
def writeNumber (number : Number) : Except WriteError String :=
  match number with
  | .float .nan => .ok "NaN"
  | .float (.infinite negative) => .ok (if negative then "-Infinity" else "Infinity")
  | number => if number.isWritable then .ok number.text else .error .tooLong

/-- A key as a JSON string. Numbers, truth values and the absent value are written as text. -/
def writeKey (ascii : Bool) : Datum → Except WriteError String
  | .text value => .ok (writeString ascii value)
  | .codes points => .ok (writeCodes ascii points)
  | .number number => do return writeString ascii (← writeNumber number)
  | .bool value => .ok (writeString ascii (if value then "true" else "false"))
  | .null => .ok (writeString ascii "null")
  | key => .error (.unsupportedKey key.kindName)

/-- Whether a key comes before another one or is the same. -/
def keyLe (a b : Datum) : Bool :=
  match a, b with
  | .text a, .text b => decide (a ≤ b)
  | a, b =>
      match a.keyNumber?, b.keyNumber?, a.codes?, b.codes? with
      | some a, some b, _, _ => !b.less a
      | _, _, some a, some b => (compare a b).isLE
      | _, _, _, _ => true

/-- Whether keys can be sorted: they are all texts or all numbers. -/
def sortable (keys : List Datum) : Bool :=
  keys.length ≤ 1 || keys.all (fun key => key.keyNumber?.isSome) ||
    keys.all fun key => key.codes?.isSome

/-- A line break and the indentation of a level, or nothing in a text of one line. -/
def Style.newline (style : Style) (level : Nat) : String :=
  match style.indent with
  | none => ""
  | some width => "\n" ++ String.ofList (List.replicate (width * level) ' ')

/-- The mark between two members of a list or mapping. -/
def Style.separator (style : Style) (level : Nat) : String :=
  match style.indent with
  | none => ", "
  | some _ => "," ++ style.newline level

/-- The members of a list or mapping between their brackets. -/
def Style.enclose (style : Style) (level : Nat) (opening closing : String) (members : List String) :
    String :=
  if members.isEmpty then opening ++ closing
  else
    opening ++ style.newline (level + 1) ++ (style.separator (level + 1)).intercalate members ++
      style.newline level ++ closing

/-- Written entries with their keys, in the order of the style. -/
def Style.arrange (style : Style) (entries : List (Datum × String)) :
    Except WriteError (List String) :=
  if !style.sorted then .ok (entries.map (·.2))
  else if sortable (entries.map (·.1)) then
    .ok ((entries.mergeSort fun a b => keyLe a.1 b.1).map (·.2))
  else .error .mixedKeys

mutual

/-- A value as JSON text, at a level of nesting. -/
def writeAt (style : Style) (level : Nat) : Datum → Except WriteError String
  | .null => .ok "null"
  | .bool value => .ok (if value then "true" else "false")
  | .number number => writeNumber number
  | .text value => .ok (writeString style.ascii value)
  | .codes points => .ok (writeCodes style.ascii points)
  | .list items => do
      let members ← writeItems style (level + 1) items
      return style.enclose level "[" "]" members
  | .map entries => do
      let members ← style.arrange (← writeEntries style (level + 1) entries)
      return style.enclose level "\x7b" "\x7d" members
  | .pair first second => do
      let first ← writeAt style (level + 1) first
      let second ← writeAt style (level + 1) second
      return style.enclose level "[" "]" [first, second]
  | value =>
      if style.lenient then .ok (writeString style.ascii value.display)
      else .error (.unsupportedValue value.kindName)

/-- The members of a list. -/
def writeItems (style : Style) (level : Nat) : List Datum → Except WriteError (List String)
  | [] => .ok []
  | item :: rest => do
      let member ← writeAt style level item
      let members ← writeItems style level rest
      return member :: members

/-- The members of a mapping with their keys. -/
def writeEntries (style : Style) (level : Nat) :
    List (Datum × Datum) → Except WriteError (List (Datum × String))
  | [] => .ok []
  | (key, item) :: rest => do
      let name ← writeKey style.ascii key
      let value ← writeAt style level item
      let members ← writeEntries style level rest
      return (key, name ++ ": " ++ value) :: members

end

/-- A value as JSON text. -/
def write (style : Style) (value : Datum) : Except WriteError String :=
  writeAt style 0 value

end DocCompiler.Json
