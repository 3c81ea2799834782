import DocCompiler.Yaml.Spot

/-!
The texts of scalars in each of their styles: plain, in quotes, and in blocks of lines. A single line
break inside plain and quoted scalars counts as a space, and of several the first one is dropped.
-/

namespace DocCompiler.Yaml

/-- The characters that stand for one behind a backslash. -/
def shortEscapes : List (Char × Char) :=
  [('0', '\x00'), ('a', '\x07'), ('b', '\x08'), ('t', '\t'), ('\t', '\t'), ('n', '\n'),
    ('v', '\x0b'), ('f', '\x0c'), ('r', '\r'), ('e', '\x1b'), (' ', ' '), ('"', '"'),
    ('\\', '\\'), ('/', '/'), ('N', '\u0085'), ('_', '\u00a0'), ('L', '\u2028'), ('P', '\u2029')]

/-- How many digits in base sixteen follow an escape by number. -/
def escapeLength? : Char → Option Nat
  | 'x' => some 2
  | 'u' => some 4
  | 'U' => some 8
  | _ => none

/-- The value of digits in base sixteen. -/
def hexValue (digits : List Char) : Nat :=
  digits.foldl (fun value c =>
    value * 16 + (if c.isDigit then c.toNat - 48 else c.toLower.toNat - 87)) 0

/-- The character with a number. -/
def charOf (code : Nat) : Except ReadError Char :=
  if code < 0x110000 then .ok (if code.isValidChar then Char.ofNat code else '\ufffd')
  else if code < 0x80000000 then .error (.value .badValue)
  else .error (.value .outOfRange)

/-- The blank lines inside a quoted scalar; the mark of a document must not stand in one. -/
def quotedBreaks : Nat → List Char → Except ReadError (List Char × List Char)
  | 0, rest => .ok ([], rest)
  | fuel + 1, rest =>
      if atDocumentMark rest then .error .malformed
      else
        match rest.dropWhile Text.isInlineBlank with
        | c :: rest =>
            if isBreak c then do
              let (breaks, rest) ← quotedBreaks fuel rest
              return (breakChar c :: breaks, rest)
            else .ok ([], c :: rest)
        | [] => .ok ([], [])

/-- What a line break and the blank lines behind it count as. -/
def foldedBreak (first : Char) (breaks : List Char) : List Char :=
  if first != '\n' then first :: breaks
  else if breaks.isEmpty then [' ']
  else breaks

/-- The characters of a quoted scalar up to its closing quote, and what follows it. -/
def quotedText (quote : Char) : Nat → List Char → Except ReadError (List Char × List Char)
  | 0, _ => .error .malformed
  | _ + 1, [] => .error .malformed
  | fuel + 1, c :: rest =>
      let after (chars : List Char) (rest : List Char) : Except ReadError (List Char × List Char) := do
        let (later, rest) ← quotedText quote fuel rest
        return (chars ++ later, rest)
      if c == quote then
        match quote, rest with
        | '\'', '\'' :: rest => after ['\''] rest
        | _, rest => .ok ([], rest)
      else if c == '\\' && quote == '"' then
        match rest with
        | [] => .error .malformed
        | e :: rest =>
            match shortEscapes.lookup e, escapeLength? e with
            | some plain, _ => after [plain] rest
            | none, some length => do
                let digits := rest.take length
                if digits.length = length && digits.all isHexDigit then
                  after [← charOf (hexValue digits)] (rest.drop length)
                else throw .malformed
            | none, none =>
                if isBreak e then do
                  let (breaks, rest) ← quotedBreaks rest.length rest
                  after breaks rest
                else .error .malformed
      else if Text.isInlineBlank c then
        match rest.dropWhile Text.isInlineBlank with
        | [] => .error .malformed
        | d :: later =>
            if isBreak d then do
              let (breaks, rest) ← quotedBreaks later.length later
              after (foldedBreak (breakChar d) breaks) rest
            else after (c :: rest.takeWhile Text.isInlineBlank) (d :: later)
      else if isBreak c then do
        let (breaks, rest) ← quotedBreaks rest.length rest
        after (foldedBreak (breakChar c) breaks) rest
      else after [c] rest

/-- How many characters of a plain scalar follow before a blank, a line break or an indicator. -/
def plainLength (inFlow : Bool) : List Char → Nat
  | [] => 0
  | c :: rest =>
      let closes := rest.head?.any fun d => [',', '[', ']', '\x7b', '\x7d'].contains d
      if isSeparator c || (c == ':' && (endsWord rest || (inFlow && closes))) ||
          (inFlow && [',', '?', '[', ']', '\x7b', '\x7d'].contains c) then 0
      else plainLength inFlow rest + 1

/-- The blank lines inside a plain scalar, unless the mark of a document ends it. -/
def plainBreaks : Nat → Spot → Option (List Char) × Spot
  | 0, spot => (some [], spot)
  | fuel + 1, spot =>
      let spot := spot.skipSpaces
      match spot.takeBreak? with
      | some (c, spot) =>
          if atDocumentMark spot.rest then (none, spot)
          else
            let (breaks, spot) := plainBreaks fuel spot
            (breaks.map (c :: ·), spot)
      | none => (some [], spot)

/-- The blanks and line breaks between two words of a plain scalar, the place behind them, and
whether there was a line break. There are none where the scalar ends. -/
def plainSpaces (spot : Spot) : List Char × Spot × Bool :=
  let blanks := spot.rest.takeWhile (· == ' ')
  let spot := spot.skip blanks.length
  match spot.takeBreak? with
  | none => (blanks, spot, false)
  | some (first, spot) =>
      if atDocumentMark spot.rest then ([], spot, true)
      else
        match plainBreaks spot.rest.length spot with
        | (none, spot) => ([], spot, true)
        | (some breaks, spot) => (foldedBreak first breaks, spot, true)

/-- The characters of a plain scalar, the place behind it and the blanks that follow it, and whether
there is a line break among those. `spaces` stands before the next word. -/
def plainText (inFlow : Bool) (indent : Nat) : Nat → List Char → Bool → Spot →
    List Char × Spot × Bool
  | 0, _, broken, spot => ([], spot, broken)
  | fuel + 1, spaces, broken, spot =>
      let length := if spot.rest.head? = some '#' then 0 else plainLength inFlow spot.rest
      if length = 0 then ([], spot, broken)
      else
        let word := spaces ++ spot.rest.take length
        let (next, spot, broken) := plainSpaces (spot.skip length)
        if next.isEmpty || spot.rest.head? = some '#' || (!inFlow && spot.column < indent) then
          (word, spot, broken)
        else
          let (later, spot, broken) := plainText inFlow indent fuel next broken spot
          (word ++ later, spot, broken)

/-- What becomes of the line breaks at the end of a block scalar. -/
inductive Chomping
  | strip
  | clip
  | keep
  deriving DecidableEq, Repr

/-- The sign at the head of a block scalar. -/
def chomping? : Char → Option Chomping
  | '+' => some .keep
  | '-' => some .strip
  | _ => none

/-- The head of a block scalar: what becomes of its last line breaks, and how far it is indented,
in either order. -/
def blockHead (rest : List Char) : Except ReadError (Chomping × Option Nat × List Char) := do
  let takeSign (rest : List Char) : Option Chomping × List Char :=
    match rest with
    | c :: later => if (chomping? c).isSome then (chomping? c, later) else (none, rest)
    | [] => (none, rest)
  let takeIndent (rest : List Char) : Except ReadError (Option Nat × List Char) :=
    match rest with
    | c :: later =>
        if c == '0' then .error .malformed
        else if c.isDigit then .ok (some (c.toNat - 48), later)
        else .ok (none, rest)
    | [] => .ok (none, rest)
  let (first, rest) := takeSign rest
  let (indent, rest) ← takeIndent rest
  let (second, rest) := if first.isNone && indent.isSome then takeSign rest else (none, rest)
  if endsField rest then return ((first.or second).getD .clip, indent, rest) else throw .malformed

/-- The line breaks before the first line of a block scalar, the place behind them, and the widest
indentation among the lines. -/
def blockStart : Nat → Nat → Spot → List Char × Nat × Spot
  | 0, widest, spot => ([], widest, spot)
  | fuel + 1, widest, spot =>
      let spaced := spot.skipSpaces
      let widest := if spaced.index = spot.index then widest else max widest spaced.column
      match spaced.takeBreak? with
      | some (c, next) =>
          let (breaks, widest, spot) := blockStart fuel widest next
          (c :: breaks, widest, spot)
      | none => ([], widest, spaced)

/-- The place behind the spaces before a column. -/
def skipIndent (indent : Nat) (spot : Spot) : Spot :=
  spot.skip (min (indent - spot.column) (spot.rest.takeWhile (· == ' ')).length)

/-- The line breaks between two lines of a block scalar, and the place behind the indentation of
the next line. -/
def blockBreaks (indent : Nat) : Nat → Spot → List Char × Spot
  | 0, spot => ([], spot)
  | fuel + 1, spot =>
      let spot := skipIndent indent spot
      match spot.takeBreak? with
      | some (c, next) =>
          let (breaks, spot) := blockBreaks indent fuel next
          (c :: breaks, spot)
      | none => ([], spot)

/-- Whether a line starts with a blank. -/
def startsBlank (rest : List Char) : Bool :=
  rest.head?.any Text.isInlineBlank

/-- The lines of a block scalar from a place on: their characters, the last line break, the line
breaks behind that one, and the place behind them. `breaks` precede the first line. -/
def blockLines (folded : Bool) (indent : Nat) : Nat → List Char → Spot →
    List Char × List Char × List Char × Spot
  | 0, breaks, spot => ([], [], breaks, spot)
  | fuel + 1, breaks, spot =>
      if spot.column != indent || spot.rest.isEmpty then ([], [], breaks, spot)
      else
        let line := spot.rest.takeWhile (!isBreak ·)
        let solid := !startsBlank spot.rest
        let spot := spot.skip line.length
        let (last, spot) :=
          match spot.takeBreak? with
          | some (c, spot) => ([c], spot)
          | none => ([], spot)
        let (between, spot) := blockBreaks indent spot.rest.length.succ spot
        if spot.column == indent && !spot.rest.isEmpty then
          let joint :=
            if folded && last == ['\n'] && solid && !startsBlank spot.rest then
              if between.isEmpty then [' '] else []
            else last
          let (later, last, after, spot) := blockLines folded indent fuel between spot
          (breaks ++ line ++ joint ++ later, last, after, spot)
        else (breaks ++ line, last, between, spot)

/-- A block scalar whose lines are indented at least to the column `least`, from behind the sign
that starts it. -/
def blockText (folded : Bool) (least : Nat) (spot : Spot) : Except ReadError (List Char × Spot) := do
  let (chomping, given, rest) ← blockHead spot.rest
  let spot ← (spot.skipTo rest).finishLine
  let fuel := spot.rest.length + 1
  let (breaks, indent, spot) :=
    match given with
    | some given =>
        let indent := least + given - 1
        let (breaks, spot) := blockBreaks indent fuel spot
        (breaks, indent, spot)
    | none =>
        let (breaks, widest, spot) := blockStart fuel 0 spot
        (breaks, max least widest, spot)
  let (text, last, after, spot) := blockLines folded indent fuel breaks spot
  return (match chomping with
    | .strip => text
    | .clip => text ++ last
    | .keep => text ++ last ++ after, spot)

end DocCompiler.Yaml
