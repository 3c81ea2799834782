import DocCompiler.Data.Datum
import DocCompiler.Number.Binary64
import DocCompiler.Number.Numeral
import DocCompiler.Text.LetterCase
import DocCompiler.Yaml.Node

/-!
The values of scalars: numbers in bases two, eight, ten, sixteen and sixty, truth values, days and
times, and bytes.
-/

namespace DocCompiler.Yaml

/-- A scalar without a value of its kind. -/
def noValue {α : Type} : Except ReadError α :=
  .error (.value .badValue)

/-- The value of a digit or letter in bases up to sixteen. -/
def baseDigit? (c : Char) : Option Nat :=
  if 'a' ≤ c.toLower && c.toLower ≤ 'f' then some (c.toLower.toNat - 87) else Text.digitValue? c

/-- The letter that may stand behind a zero in front of a number in a base. -/
def baseLetter? (base : Nat) : Option Char :=
  [(2, 'b'), (8, 'o'), (16, 'x')].lookup base

/-- The digits of a number in a base, without the zero and the letter that may stand in front. -/
def afterBase (base : Nat) (text : List Char) : List Char :=
  match text with
  | zero :: letter :: rest =>
      if Text.digitValue? zero = some 0 && baseLetter? base = some letter.toLower then rest else text
  | text => text

/-- A whole number in a base that is a power of two. -/
def readBase (base : Nat) (text : List Char) : Except ReadError Int :=
  let (negative, body) := Number.takeSign (Number.trimNumeral text)
  match (afterBase base body).mapM baseDigit? with
  | some (first :: rest) =>
      if (first :: rest).all (· < base) then
        let size := (first :: rest).foldl (fun value digit => value * base + digit) 0
        .ok (if negative then -(size : Int) else size)
      else noValue
  | _ => noValue

/-- A whole number in base ten. -/
def readTen (text : List Char) : Except ReadError Int :=
  match Number.readInt (String.ofList text) with
  | .ok value => .ok value
  | .error _ => noValue

/-- A double-precision number in base ten. -/
def readPoint (text : List Char) : Except ReadError Binary64 :=
  match Number.readFloat (String.ofList text) with
  | some value => .ok value
  | none => noValue

/-- A sign and what follows it; something must be there. -/
def signed (text : List Char) : Except ReadError (Bool × List Char) :=
  match text with
  | [] => .error .emptyNumeral
  | text => .ok (Number.takeSign text)

/-- A whole number. Underscores do not count. -/
def readInt (text : String) : Except ReadError Int := do
  let (negative, body) ← signed (text.toList.filter (· != '_'))
  let size ← match body with
    | [] => throw .emptyNumeral
    | ['0'] => pure 0
    | '0' :: 'b' :: digits => readBase 2 digits
    | '0' :: 'x' :: digits => readBase 16 digits
    | '0' :: _ => readBase 8 body
    | _ =>
        if body.contains ':' then do
          let parts ← (body.splitOn ':').mapM readTen
          pure (parts.foldl (fun value part => value * 60 + part) 0)
        else readTen body
  return if negative then -size else size

/-- The sum of numbers, each sixty times as heavy as the one before. -/
def sumSixty (value : Binary64) (weight : Nat) : List Binary64 → Binary64
  | [] => value
  | part :: rest =>
      sumSixty (value.plus (part.times (.ofInt weight))) (weight * 60) rest

/-- A double-precision number. Underscores do not count. -/
def readFloat (text : String) : Except ReadError Binary64 := do
  let plain := (Text.lower text).toList.filter (· != '_')
  let (negative, body) ← signed plain
  let size ←
    if body == ".inf".toList then pure (.infinite false)
    else if body == ".nan".toList then pure .nan
    else if body.contains ':' then do
      let parts ← (body.splitOn ':').mapM readPoint
      pure (sumSixty (.zero false) 1 parts.reverse)
    else readPoint body
  return if negative then size.negate else size

/-- The number that one or two digits at the start of a text spell, and the rest. -/
def takeShort (text : List Char) : Option (Nat × List Char) :=
  match (text.take 2).takeWhile Char.isDigit with
  | [] => none
  | digits => some (Text.digitsValue digits, text.drop digits.length)

/-- The number that a count of digits at the start of a text spell, and the rest. -/
def takeExact (count : Nat) (text : List Char) : Option (Nat × List Char) :=
  let digits := text.take count
  if digits.length = count && digits.all Char.isDigit then
    some (Text.digitsValue digits, text.drop count)
  else none

/-- The rest of a text behind a character. -/
def takeChar (c : Char) : List Char → Option (List Char)
  | d :: rest => if c == d then some rest else none
  | [] => none

/-- A time of day with its fraction and its distance to universal time. -/
structure Clock where
  hour : Nat
  minute : Nat
  second : Nat
  microsecond : Nat
  offset : Option Int
  deriving DecidableEq, Repr

/-- The zone at the end of a time: `some none` where there is none. -/
def readZone (text : List Char) : Option (Option Int) :=
  match text.dropWhile Text.isInlineBlank with
  | [] => if text.isEmpty then some none else none
  | ['Z'] => some (some 0)
  | c :: rest =>
      if c == '-' || c == '+' then do
        let (hours, rest) ← takeShort rest
        let minutes ← match rest with
          | [] => some 0
          | rest => do
              let (minutes, rest) ← takeExact 2 (← takeChar ':' rest)
              if rest.isEmpty then some minutes else none
        let size : Int := 3600 * hours + 60 * minutes
        return some (if c == '-' then -size else size)
      else none

/-- A time of day behind a day. -/
def readClock (text : List Char) : Option Clock := do
  let text ← match text with
    | c :: rest =>
        if c == 'T' || c == 't' then some rest
        else if Text.isInlineBlank c then some (rest.dropWhile Text.isInlineBlank)
        else none
    | [] => none
  let (hour, rest) ← takeShort text
  let (minute, rest) ← takeExact 2 (← takeChar ':' rest)
  let (second, rest) ← takeExact 2 (← takeChar ':' rest)
  let (fraction, rest) := match rest with
    | '.' :: rest => (rest.takeWhile Char.isDigit, rest.dropWhile Char.isDigit)
    | rest => ([], rest)
  let offset ← readZone rest
  let places := fraction.take 6
  let microsecond := Text.digitsValue places * tenTo (6 - places.length)
  return { hour, minute, second, microsecond, offset }

/-- The number of days of a month. -/
def monthDays (year month : Nat) : Nat :=
  if month = 2 then
    if year % 4 = 0 && (year % 100 != 0 || year % 400 = 0) then 29 else 28
  else if [4, 6, 9, 11].contains month then 30
  else 31

/-- Whether a day is one of the calendar. -/
def isDay (date : Date) : Bool :=
  1 ≤ date.year && 1 ≤ date.month && date.month ≤ 12 && 1 ≤ date.day &&
    date.day ≤ monthDays date.year date.month

/-- Whether a time is one of a day, with an offset of less than a day. -/
def Clock.isTime (clock : Clock) : Bool :=
  clock.hour < 24 && clock.minute < 60 && clock.second < 60 &&
    clock.offset.all (·.natAbs < 86400)

/-- A day, or a time of a day. A line feed may follow. -/
def readTimestamp (text : String) : Except ReadError Datum :=
  let chars := withoutLineEnd text.toList
  let day : Option (Date × List Char) := do
    let (year, rest) ← takeExact 4 chars
    let (month, rest) ← takeShort (← takeChar '-' rest)
    let (day, rest) ← takeShort (← takeChar '-' rest)
    return (⟨year, month, day⟩, rest)
  match day with
  | none => .error (.value (.noFields "NoneType"))
  | some (date, []) => if isDay date then .ok (.date date) else noValue
  | some (date, rest) =>
      match readClock rest with
      | none => .error (.value (.noFields "NoneType"))
      | some clock =>
          if isDay date && clock.isTime then
            .ok (.moment
              { date
                hour := clock.hour
                minute := clock.minute
                second := clock.second
                microsecond := clock.microsecond
                offset := clock.offset })
          else noValue

/-- The six bits that a character stands for in base sixty-four. -/
def sixBits? (c : Char) : Option Nat :=
  if 'A' ≤ c && c ≤ 'Z' then some (c.toNat - 65)
  else if 'a' ≤ c && c ≤ 'z' then some (c.toNat - 71)
  else if c.isDigit then some (c.toNat + 4)
  else if c == '+' then some 62
  else if c == '/' then some 63
  else none

/-- The bytes of a text in base sixty-four. `count` characters of the current group of four are read,
`left` holds the bits that are not in a byte yet, and `pads` counts the equals signs just passed.
Other characters are skipped. -/
def base64 (count left pads : Nat) : List Char → Option (List UInt8)
  | [] => if count = 0 then some [] else none
  | '=' :: rest =>
      if 2 ≤ count && 4 ≤ count + (pads + 1) then some []
      else base64 count left (if 2 ≤ count then pads + 1 else pads) rest
  | c :: rest =>
      match sixBits? c with
      | none => base64 count left pads rest
      | some bits =>
          match count with
          | 0 => base64 1 bits 0 rest
          | 1 => (base64 2 (bits % 16) 0 rest).map (UInt8.ofNat (left * 4 + bits / 16) :: ·)
          | 2 => (base64 3 (bits % 4) 0 rest).map (UInt8.ofNat (left * 16 + bits / 4) :: ·)
          | _ => (base64 0 0 0 rest).map (UInt8.ofNat (left * 64 + bits) :: ·)

/-- The value of a scalar with a tag of the language. -/
def scalarValue (tag text : String) : Except ReadError Datum :=
  if tag = standardTag "str" then .ok (.text text)
  else if tag = standardTag "null" then .ok .null
  else if tag = standardTag "bool" then
    match (truthValue? (Text.lower text)) with
    | some value => .ok (.bool value)
    | none => .error (.value .noEntry)
  else if tag = standardTag "int" then do return .int (← readInt text)
  else if tag = standardTag "float" then do return .number (.float (← readFloat text))
  else if tag = standardTag "timestamp" then readTimestamp text
  else if tag = standardTag "binary" then
    if text.toList.all (·.toNat < 128) then
      match base64 0 0 0 text.toList with
      | some bytes => .ok (.bytes bytes)
      | none => .error .malformed
    else .error .malformed
  else .error .malformed

end DocCompiler.Yaml
