import DocCompiler.Number.Basic
import DocCompiler.Text.Blank
import DocCompiler.Text.Word

/-!
Numbers read from text: decimal digits of any script, single underscores between digits, an optional
sign, and blanks around.
-/

namespace DocCompiler.Number

open Text

/-- Why a text is no number. -/
inductive NumeralError
  /-- The text is not written like a number. -/
  | malformed
  /-- A whole number with more digits than are read. -/
  | tooLong (digits : Nat)
  deriving DecidableEq, Repr

/-- The wording of the limit on digits where a number is read. -/
def tooLongMessage (digits : Nat) : String :=
  "Exceeds the limit (4300 digits) for integer string conversion: value has " ++ toString digits ++
    " digits; use sys.set_int_max_str_digits() to increase the limit"

/-- The wording of the limit on digits where a number is written. -/
def longTextMessage : String :=
  "Exceeds the limit (4300 digits) for integer string conversion; " ++
    "use sys.set_int_max_str_digits() to increase the limit"

/-- The digits that a text starts with, and the rest. A single underscore may stand between two
digits. -/
def takeDigits : List Char → List Char × List Char
  | [] => ([], [])
  | '_' :: c :: rest =>
      if isDecimal c then
        let (digits, rest) := takeDigits rest
        (c :: digits, rest)
      else ([], '_' :: c :: rest)
  | c :: rest =>
      if isDecimal c then
        let (digits, rest) := takeDigits rest
        (c :: digits, rest)
      else ([], c :: rest)

/-- The digits at the start of a text that must not start with an underscore. -/
def takeNumeral (text : List Char) : List Char × List Char :=
  match text with
  | '_' :: _ => ([], text)
  | _ => takeDigits text

/-- A blank that may stand around a numeral: white space other than the separators of files, groups,
records and units. -/
def isNumeralBlank (c : Char) : Bool :=
  isBlank c && !(28 ≤ c.toNat && c.toNat ≤ 31)

/-- Characters without the blanks around a numeral. -/
def trimNumeral (text : List Char) : List Char :=
  dropEndWhile isNumeralBlank (text.dropWhile isNumeralBlank)

/-- A sign, taken off the text; `true` means negative. -/
def takeSign : List Char → Bool × List Char
  | '-' :: rest => (true, rest)
  | '+' :: rest => (false, rest)
  | text => (false, text)

/-- A whole number from its digits. -/
def ofDigits (negative : Bool) (digits : List Char) : Except NumeralError Int :=
  if maxDigits < digits.length then .error (.tooLong digits.length)
  else
    let size := digitsValue digits
    .ok (if negative then -(size : Int) else size)

/-- Reads a whole number. -/
def readInt (text : String) : Except NumeralError Int :=
  let (negative, body) := takeSign (trimNumeral text.toList)
  match takeNumeral body with
  | ([], _) => .error .malformed
  | (digits, []) => ofDigits negative digits
  | _ => .error .malformed

/-- The exponent of a numeral, when the text is one or is empty. -/
def readExponent : List Char → Option Int
  | [] => some 0
  | c :: rest =>
      if c == 'e' || c == 'E' then
        let (negative, body) := takeSign rest
        match takeNumeral body with
        | ([], _) => none
        | (digits, []) =>
            let size := digitsValue digits
            some (if negative then -(size : Int) else size)
        | _ => none
      else none

/-- Reads the digits, point and exponent of a double-precision number. -/
def readDecimal (negative : Bool) (text : List Char) : Option Binary64 :=
  let (whole, rest) := takeNumeral text
  let (fraction, rest) :=
    match rest with
    | '.' :: rest => takeNumeral rest
    | rest => ([], rest)
  if whole.isEmpty && fraction.isEmpty then none
  else
    (readExponent rest).map fun exponent =>
      Binary64.ofDecimal negative (digitsValue (whole ++ fraction))
        (exponent - (fraction.length : Int))

/-- Reads a double-precision number, infinity and the undefined number included. -/
def readFloat (text : String) : Option Binary64 :=
  let (negative, body) := takeSign (trimNumeral text.toList)
  let word := String.ofList (body.map Char.toLower)
  if word == "inf" || word == "infinity" then some (.infinite negative)
  else if word == "nan" then some .nan
  else readDecimal negative body

end DocCompiler.Number
