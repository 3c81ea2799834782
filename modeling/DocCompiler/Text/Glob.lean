/-!
Patterns for paths: an asterisk stands for any characters, a question mark for one, and brackets for
one character of a set. A bracket that is not closed stands for itself.
-/

namespace DocCompiler.Text

/-- A part of a pattern. -/
inductive GlobPart
  /-- Any characters, also none. -/
  | star
  | anyChar
  | char (c : Char)
  /-- A character of one of the ranges, or of none of them. -/
  | range (negated : Bool) (ranges : List (Char × Char))
  deriving DecidableEq, Repr

namespace Glob

/-- The runs of a set between the hyphens that make ranges. At least `least` characters of a run
come before its hyphen. -/
def runs : Nat → Nat → List Char → List (List Char)
  | 0, _, chars => [chars]
  | fuel + 1, least, chars =>
      let later := chars.drop least
      let run := chars.take least ++ later.takeWhile (· != '-')
      match later.dropWhile (· != '-') with
      | _ :: rest => run :: runs fuel 2 rest
      | [] => [chars]

/-- Runs in which a hyphen at the end stands for itself. -/
def closeRuns : List (List Char) → List (List Char)
  | [run, []] => [run ++ ['-']]
  | run :: rest => run :: closeRuns rest
  | [] => []

/-- Runs without ranges that hold no character. -/
def dropEmpty : List (List Char) → List (List Char)
  | [] => []
  | run :: rest =>
      match dropEmpty rest with
      | next :: later =>
          match run.getLast?, next with
          | some low, high :: after =>
              if high < low then (run.dropLast ++ after) :: later else run :: next :: later
          | _, _ => run :: next :: later
      | [] => [run]

/-- A set as single characters and the hyphens of ranges. -/
def marks : List (List Char) → List (Option Char)
  | [] => []
  | [run] => run.map some
  | run :: rest => run.map some ++ none :: marks rest

/-- The ranges of a set. A hyphen that has no characters on both sides stands for itself. -/
def rangesOf : List (Option Char) → List (Char × Char)
  | some low :: none :: some high :: rest => (low, high) :: rangesOf rest
  | some c :: rest => (c, c) :: rangesOf rest
  | none :: rest => ('-', '-') :: rangesOf rest
  | [] => []

/-- The part of a pattern for what stands between brackets. -/
def bracketPart (chars : List Char) : GlobPart :=
  let least := if chars.head? = some '!' then 2 else 1
  let set :=
    if chars.contains '-' then
      marks (dropEmpty (closeRuns (runs chars.length least chars)))
    else chars.map some
  match set with
  | some '!' :: rest => if rest.isEmpty then .anyChar else .range true (rangesOf rest)
  | set => .range false (rangesOf set)

/-- What stands between brackets, from behind the opening one, and what follows. A closing bracket
in first place, or behind a leading exclamation mark, belongs to the set. -/
def takeBracket (chars : List Char) : Option (List Char × List Char) :=
  let (mark, rest) :=
    match chars with
    | '!' :: rest => (['!'], rest)
    | rest => ([], rest)
  let (first, rest) :=
    match rest with
    | ']' :: rest => ([']'], rest)
    | rest => ([], rest)
  match rest.dropWhile (· != ']') with
  | _ :: after => some (mark ++ first ++ rest.takeWhile (· != ']'), after)
  | [] => none

/-- The parts of a pattern. -/
def parts : Nat → List Char → List GlobPart
  | 0, _ => []
  | _ + 1, [] => []
  | fuel + 1, c :: rest =>
      if c == '*' then .star :: parts fuel rest
      else if c == '?' then .anyChar :: parts fuel rest
      else if c == '[' then
        match takeBracket rest with
        | some (chars, after) => bracketPart chars :: parts fuel after
        | none => .char '[' :: parts fuel rest
      else .char c :: parts fuel rest

/-- Whether a part other than an asterisk stands for a character. -/
def accepts (part : GlobPart) (c : Char) : Bool :=
  match part with
  | .star | .anyChar => true
  | .char d => c == d
  | .range negated ranges => ranges.any (fun (low, high) => low ≤ c && c ≤ high) != negated

/-- Which of the longer and longer starts of a row of parts match no characters, given whether the parts
before do. -/
def start (before : Bool) : List GlobPart → List Bool
  | [] => []
  | part :: rest =>
      let here := before && part == .star
      here :: start here rest

/-- Which starts of a row of parts match a text with one more character, given which match the text
without it. `old` and `new` tell whether the parts before match the one and the other text. -/
def advance (c : Char) (old new : Bool) : List GlobPart → List Bool → List Bool
  | part :: parts, matched :: row =>
      let here := if part == .star then matched || new else old && accepts part c
      here :: advance c matched here parts row
  | _, _ => []

/-- Which starts of a row of parts match a text. `empty` and `row` tell of no parts at all, and of longer
and longer starts, whether they match what was read before. -/
def matchRow (parts : List GlobPart) (empty : Bool) (row : List Bool) : List Char → Bool
  | [] => row.getLastD empty
  | c :: text => matchRow parts false (advance c empty false parts row) text

/-- Whether parts match a whole text. -/
def matchParts (parts : List GlobPart) (text : List Char) : Bool :=
  matchRow parts true (start true parts) text

end Glob

/-- Whether a pattern matches a whole text. -/
def globMatches (pattern text : String) : Bool :=
  let chars := pattern.toList
  Glob.matchParts (Glob.parts chars.length chars) text.toList

end DocCompiler.Text
