import DocCompiler.Text.Pattern

/-!
The kinds of values that unquoted scalars of YAML 1.1 stand for, told from their text.
-/

namespace DocCompiler.Yaml

open Pattern

/-- The kind of a scalar. -/
inductive ScalarKind
  | bool
  | float
  | int
  | merge
  | null
  | timestamp
  /-- The key of the default value of a mapping. -/
  | defaultValue
  /-- A lone mark of the language. -/
  | mark
  | text
  deriving DecidableEq, Repr, Inhabited

/-- A digit. -/
def digit : Pattern :=
  one Char.isDigit

/-- A digit or an underscore. -/
def digitOrBar (c : Char) : Bool :=
  c.isDigit || c == '_'

/-- A sign, which may be missing. -/
def sign : Pattern :=
  optional (one fun c => c == '-' || c == '+')

/-- One of two to one digits. -/
def oneOrTwoDigits : Pattern :=
  follow digit (optional digit)

/-- The parts of a number in base sixty behind its first one. -/
def sexagesimalParts : Pattern :=
  let part := sequence [literal ":", optional (one fun c => '0' ≤ c && c ≤ '5'), digit]
  follow part (many part true)

/-- Whole numbers: in base two, eight, ten, sixteen and sixty. -/
def intPattern : Pattern :=
  sequence [sign, choice [
    sequence [literal "0b", Pattern.some fun c => c == '0' || c == '1' || c == '_'],
    sequence [literal "0", Pattern.some fun c => ('0' ≤ c && c ≤ '7') || c == '_'],
    literal "0",
    sequence [literal "0x", Pattern.some fun c =>
      c.isDigit || ('a' ≤ c && c ≤ 'f') || ('A' ≤ c && c ≤ 'F') || c == '_'],
    sequence [one (fun c => '1' ≤ c && c ≤ '9'), any digitOrBar, optional sexagesimalParts]]]

/-- Numbers with a point, infinities and the undefined number. -/
def floatPattern : Pattern :=
  let exponent := optional (sequence [
    one (fun c => c == 'e' || c == 'E'), one (fun c => c == '-' || c == '+'),
    Pattern.some Char.isDigit])
  choice [
    sequence [sign, digit, any digitOrBar, literal ".", any digitOrBar, exponent],
    sequence [literal ".", digit, any digitOrBar, exponent],
    sequence [sign, digit, any digitOrBar, sexagesimalParts, literal ".", any digitOrBar],
    sequence [sign, literal ".", word ["inf", "Inf", "INF"]],
    sequence [literal ".", word ["nan", "NaN", "NAN"]]]

/-- Days, and times of days. -/
def timestampPattern : Pattern :=
  let blank (c : Char) : Bool := c == ' ' || c == '\t'
  let twoDigits := follow digit digit
  let year := follow twoDigits twoDigits
  let zone := sequence [
    any blank,
    either (literal "Z") (sequence [
      one (fun c => c == '-' || c == '+'), oneOrTwoDigits,
      optional (sequence [literal ":", twoDigits])])]
  either
    (sequence [year, literal "-", twoDigits, literal "-", twoDigits])
    (sequence [
      year, literal "-", oneOrTwoDigits, literal "-", oneOrTwoDigits,
      either (one fun c => c == 'T' || c == 't') (Pattern.some blank),
      oneOrTwoDigits, literal ":", twoDigits, literal ":", twoDigits,
      optional (follow (literal ".") (any Char.isDigit)), optional zone])

/-- The truth value that a word stands for, in any of its three spellings. -/
def truthValue? (word : String) : Option Bool :=
  if ["yes", "Yes", "YES", "true", "True", "TRUE", "on", "On", "ON"].contains word then
    Option.some true
  else if ["no", "No", "NO", "false", "False", "FALSE", "off", "Off", "OFF"].contains word then
    Option.some false
  else none

/-- A text without the line feed that it may end with. -/
def withoutLineEnd (text : List Char) : List Char :=
  if text.getLast? = Option.some '\n' then text.dropLast else text

/-- The kind of an unquoted scalar, or of a text that is read like one. A line feed at its end does not
count, unless there is nothing else. -/
def ScalarKind.of (scalar : String) : ScalarKind :=
  let text := if scalar == "\n" then ['\n'] else withoutLineEnd scalar.toList
  let scalar := String.ofList text
  if (truthValue? scalar).isSome then .bool
  else if ["", "~", "null", "Null", "NULL"].contains scalar then .null
  else if scalar == "<<" then .merge
  else if scalar == "=" then .defaultValue
  else if ["!", "&", "*"].contains scalar then .mark
  else
    match text with
    | c :: _ =>
        if c.isDigit || c == '-' || c == '+' || c == '.' then
          if floatPattern.matchesWhole text then .float
          else if intPattern.matchesWhole text then .int
          else if timestampPattern.matchesWhole text then .timestamp
          else .text
        else .text
    | [] => .text

end DocCompiler.Yaml
