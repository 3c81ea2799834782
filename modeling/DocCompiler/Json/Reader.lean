import DocCompiler.Data.Datum
import DocCompiler.Number.Numeral

/-!
Plain values read from JSON text. Of equal keys of an object the last one counts.
-/

namespace DocCompiler.Json

/-- Why a text is not read. -/
inductive ReadError
  | malformed
  /-- A whole number with more digits than are read. -/
  | tooLong
  /-- Lists and objects nested deeper than they are read. -/
  | tooDeep
  deriving DecidableEq, Repr, Inhabited

/-- Lists and objects are read up to this many levels. -/
def maxLevels : Nat := 985

/-- The text without the blanks it starts with. -/
def skipSpace (text : List Char) : List Char :=
  text.dropWhile fun c => c == ' ' || c == '\n' || c == '\t' || c == '\r'

/-- The value of a digit in base 16. -/
def hexValue? (c : Char) : Option Nat :=
  if c.isDigit then some (c.toNat - 48)
  else if 'a' ≤ c ∧ c ≤ 'f' then some (c.toNat - 87)
  else if 'A' ≤ c ∧ c ≤ 'F' then some (c.toNat - 55)
  else none

/-- A code of four digits in base 16. -/
def readUnit : List Char → Option (Nat × List Char)
  | a :: b :: c :: d :: rest => do
      let a ← hexValue? a
      let b ← hexValue? b
      let c ← hexValue? c
      let d ← hexValue? d
      return (((a * 16 + b) * 16 + c) * 16 + d, rest)
  | _ => none

/-- The code point of an escape and what follows it. Two escaped halves of a pair make one; a half on
its own is a code point that is no character. -/
def readEscape : List Char → Option (Nat × List Char)
  | '"' :: rest => some ('"'.toNat, rest)
  | '\\' :: rest => some ('\\'.toNat, rest)
  | '/' :: rest => some ('/'.toNat, rest)
  | 'b' :: rest => some (8, rest)
  | 'f' :: rest => some (12, rest)
  | 'n' :: rest => some (10, rest)
  | 'r' :: rest => some (13, rest)
  | 't' :: rest => some (9, rest)
  | 'u' :: rest => do
      let (unit, rest) ← readUnit rest
      if unit < 0xD800 ∨ 0xDC00 ≤ unit then return (unit, rest)
      match rest with
      | '\\' :: 'u' :: more =>
          match readUnit more with
          | some (low, more) =>
              if 0xDC00 ≤ low ∧ low < 0xE000 then
                return (0x10000 + (unit - 0xD800) * 0x400 + (low - 0xDC00), more)
              else return (unit, rest)
          | none => return (unit, rest)
      | _ => return (unit, rest)
  | _ => none

/-- The code points of a string up to its closing quote; `fuel` bounds its length. -/
def readBody : (fuel : Nat) → List Char → Except ReadError (List Nat × List Char)
  | 0, _ => .error .malformed
  | _ + 1, [] => .error .malformed
  | _ + 1, '"' :: rest => .ok ([], rest)
  | fuel + 1, '\\' :: rest =>
      match readEscape rest with
      | none => .error .malformed
      | some (code, rest) => do
          let (body, rest) ← readBody fuel rest
          return (code :: body, rest)
  | fuel + 1, c :: rest =>
      if c.toNat < 32 then .error .malformed
      else do
        let (body, rest) ← readBody fuel rest
        return (c.toNat :: body, rest)

/-- The digits of a number before its point. A zero is followed by no other one. -/
def wholeDigits (text : List Char) : List Char :=
  match text with
  | '0' :: _ => ['0']
  | text => text.takeWhile Char.isDigit

/-- The digits of a number behind its point. -/
def fractionDigits (text : List Char) : List Char :=
  match text with
  | '.' :: rest => rest.takeWhile Char.isDigit
  | _ => []

/-- The exponent of a number with its mark and its sign, if it has digits. -/
def powerPart (text : List Char) : List Char :=
  match text with
  | c :: rest =>
      if c == 'e' || c == 'E' then
        let sign := if rest.head? == some '-' || rest.head? == some '+' then rest.take 1 else []
        let digits := (rest.drop sign.length).takeWhile Char.isDigit
        if digits.isEmpty then [] else c :: sign ++ digits
      else []
  | [] => []

/-- A number. -/
def readNumber (text : List Char) : Except ReadError (Number × List Char) :=
  let negative := text.head? == some '-'
  let body := if negative then text.drop 1 else text
  let whole := wholeDigits body
  if whole.isEmpty then .error .malformed
  else
    let rest := body.drop whole.length
    let fraction := fractionDigits rest
    let rest := if fraction.isEmpty then rest else rest.drop (fraction.length + 1)
    let power := powerPart rest
    let rest := rest.drop power.length
    if fraction.isEmpty && power.isEmpty then
      match Number.ofDigits negative whole with
      | .ok value => .ok (.int value, rest)
      | .error _ => .error .tooLong
    else
      let exponent := ((Number.readExponent power).getD 0) - (fraction.length : Int)
      let digits := Text.digitsValue (whole ++ fraction)
      .ok (.float (Binary64.ofDecimal negative digits exponent), rest)

/-- A word at the start of a text, taken off. -/
def dropWord? (word : String) (text : List Char) : Option (List Char) :=
  let word := word.toList
  if word.isPrefixOf text then some (text.drop word.length) else none

/-- A name of a value, or a number. -/
def readSimple (text : List Char) : Except ReadError (Datum × List Char) :=
  if let some rest := dropWord? "null" text then .ok (.null, rest)
  else if let some rest := dropWord? "true" text then .ok (.bool true, rest)
  else if let some rest := dropWord? "false" text then .ok (.bool false, rest)
  else if let some rest := dropWord? "NaN" text then .ok (.number (.float .nan), rest)
  else if let some rest := dropWord? "Infinity" text then
    .ok (.number (.float (.infinite false)), rest)
  else if let some rest := dropWord? "-Infinity" text then
    .ok (.number (.float (.infinite true)), rest)
  else do
    let (number, rest) ← readNumber text
    return (.number number, rest)

mutual

/-- A value at the start of a text, with the given number of lists and objects around it, of which there
are at most `limit`; `fuel` bounds the steps. -/
def readValue (limit : Nat) : (fuel level : Nat) → List Char → Except ReadError (Datum × List Char)
  | 0, _, _ => .error .malformed
  | fuel + 1, level, text =>
      match text with
      | '"' :: rest => do
          let (body, rest) ← readBody (rest.length + 1) rest
          return (.ofCodes body, rest)
      | '[' :: rest =>
          if limit ≤ level then .error .tooDeep
          else
            match skipSpace rest with
            | ']' :: rest => .ok (.list [], rest)
            | rest => do
                let (items, rest) ← readItems limit fuel (level + 1) rest
                return (.list items, rest)
      | '\x7b' :: rest =>
          if limit ≤ level then .error .tooDeep
          else
            match skipSpace rest with
            | '\x7d' :: rest => .ok (.map [], rest)
            | rest => do
                let (entries, rest) ← readEntries limit fuel (level + 1) rest
                return (.map (Datum.distinctEntries entries), rest)
      | text => readSimple text

/-- The items of a list up to its closing bracket. -/
def readItems (limit : Nat) :
    (fuel level : Nat) → List Char → Except ReadError (List Datum × List Char)
  | 0, _, _ => .error .malformed
  | fuel + 1, level, text => do
      let (item, rest) ← readValue limit fuel level text
      match skipSpace rest with
      | ']' :: rest => return ([item], rest)
      | ',' :: rest =>
          let (items, rest) ← readItems limit fuel level (skipSpace rest)
          return (item :: items, rest)
      | _ => throw .malformed

/-- The entries of an object up to its closing brace. -/
def readEntries (limit : Nat) :
    (fuel level : Nat) → List Char → Except ReadError (List (Datum × Datum) × List Char)
  | 0, _, _ => .error .malformed
  | fuel + 1, level, text =>
      match text with
      | '"' :: rest => do
          let (key, rest) ← readBody (rest.length + 1) rest
          match skipSpace rest with
          | ':' :: rest =>
              let (item, rest) ← readValue limit fuel level (skipSpace rest)
              let entry := (Datum.ofCodes key, item)
              match skipSpace rest with
              | '\x7d' :: rest => return ([entry], rest)
              | ',' :: rest =>
                  let (entries, rest) ← readEntries limit fuel level (skipSpace rest)
                  return (entry :: entries, rest)
              | _ => throw .malformed
          | _ => throw .malformed
      | _ => .error .malformed

end

/-- Reads a text that is one JSON value, with lists and objects up to a number of levels. A byte order
mark is refused. -/
def readWithin (limit : Nat) (text : List Char) : Except ReadError Datum := do
  let (value, rest) ← readValue limit (2 * text.length + 2) 0 (skipSpace text)
  if (skipSpace rest).isEmpty then return value else throw .malformed

/-- Reads a text that is one JSON value. -/
def read (text : List Char) : Except ReadError Datum :=
  readWithin maxLevels text

end DocCompiler.Json
