import DocCompiler.Text.Blank
import DocCompiler.Text.Word
import DocCompiler.Text.Split

/-!
The words of a command line: which of them are flags, and which values are written together with
them. A flag may be shortened as long as no other flag starts the same, and flags of one letter may be
written together.
-/

namespace DocCompiler.CommandLine

/-- What can be asked for by a flag. -/
inductive Flag
  | help
  | verbose
  | output
  | format
  | noCache
  | workers
  deriving DecidableEq, Repr, Inhabited

namespace Flag

/-- The names of a flag. -/
def names : Flag → List String
  | .help => ["-h", "--help"]
  | .verbose => ["-v", "--verbose"]
  | .output => ["-o", "--output"]
  | .format => ["--format"]
  | .noCache => ["--no-cache"]
  | .workers => ["--workers"]

/-- Whether a value belongs to a flag. -/
def takesValue : Flag → Bool
  | .output | .format | .workers => true
  | _ => false

/-- The flag with a given name, among some. -/
def ofName? (flags : List Flag) (name : String) : Option Flag :=
  flags.find? fun flag => flag.names.contains name

end Flag

/-- Why no command is run. -/
inductive Ending
  /-- Help was asked for. -/
  | help
  /-- The command line is not understood. -/
  | misuse
  deriving DecidableEq, Repr, Inhabited

/-- A flag with the value that belongs to it. -/
abbrev Use := Flag × Option String

/-- What is written together with a flag. -/
inductive Attached
  | nothing
  /-- A value behind the equality sign of a long name. -/
  | value (text : String)
  /-- What follows the letter of a flag, an equality sign next to it left out: its value, or letters
  of more flags. -/
  | letters (text : List Char)
  deriving DecidableEq, Repr, Inhabited

/-- A text behind an equality sign, as it belongs to the name before it. -/
def Attached.ofText (name text : String) : Attached :=
  if Text.startsWith "--" name then .value text else .letters text.toList

/-- A word of a command line. -/
inductive Word
  | plain (text : String)
  /-- The mark behind which all words are plain. -/
  | separator
  /-- A word that looks like a flag, but is none of those expected. -/
  | unknown
  | flagged (flag : Flag) (attached : Attached)
  deriving DecidableEq, Repr, Inhabited

namespace Word

/-- A text cut at its first equality sign. -/
def cut (text : String) : String × Option String :=
  let before := Text.beforeFirst '=' text
  if before.length = text.length then (text, none)
  else (before, some (String.ofList (text.toList.drop (before.length + 1))))

/-- Whether a text is a negative number in decimal. -/
def isNegativeNumber (text : String) : Bool :=
  match text.toList with
  | '-' :: rest =>
      let body := if rest.getLast? = some '\n' then rest.dropLast else rest
      let fraction := body.dropWhile Text.isDecimal
      match fraction with
      | [] => !body.isEmpty
      | '.' :: digits => !digits.isEmpty && digits.all Text.isDecimal
      | _ => false
  | _ => false

/-- The flags that a text may stand for: those whose name starts with it, or whose letter does. -/
def candidates (flags : List Flag) (text : String) : List Word :=
  if Text.startsWith "--" text then
    let (start, value) := cut text
    flags.flatMap fun flag =>
      (flag.names.filter (Text.startsWith start)).map fun _ =>
        .flagged flag (value.elim .nothing .value)
  else
    let letter := String.ofList (text.toList.take 2)
    (Flag.ofName? flags letter).toList.map fun flag =>
      .flagged flag (.letters (text.toList.drop 2))

/-- The word that a text is where some flags are expected. A text that may stand for several flags is
not understood. -/
def ofText (flags : List Flag) (text : String) : Except Ending Word :=
  if !Text.startsWith "-" text then .ok (.plain text)
  else
    match Flag.ofName? flags text with
    | some flag => .ok (.flagged flag .nothing)
    | none =>
        if text.length = 1 then .ok (.plain text)
        else
          let (name, value) := cut text
          match value, Flag.ofName? flags name with
          | some value, some flag => .ok (.flagged flag (.ofText name value))
          | _, _ =>
              match candidates flags text with
              | [word] => .ok word
              | [] =>
                  .ok (if isNegativeNumber text || text.toList.contains ' ' then .plain text
                    else .unknown)
              | _ => .error .misuse

/-- The words that texts are. -/
def ofTexts (flags : List Flag) : List String → Except Ending (List Word)
  | [] => .ok []
  | "--" :: rest => .ok (.separator :: rest.map .plain)
  | text :: rest => do
      let word ← ofText flags text
      return word :: (← ofTexts flags rest)

end Word

/-- The flags in a word, and whether the last flag has taken the next word as its value. -/
structure Uses where
  uses : List Use
  takesNext : Bool := false
  deriving DecidableEq, Repr, Inhabited

namespace Uses

/-- A use before others. -/
def after (use : Use) (uses : Uses) : Uses :=
  { uses with uses := use :: uses.uses }

/-- The use of a flag with nothing written together with it; its value is the next word, which must be
plain. -/
def ofFlag (flag : Flag) (words : List Word) : Except Ending Uses :=
  if flag.takesValue then
    match words with
    | .plain text :: _ => .ok { uses := [(flag, some text)], takesNext := true }
    | _ => .error .misuse
  else .ok { uses := [(flag, none)] }

/-- The use of a flag with a value written together with it. A separator is no value: it stands for
none. -/
def ofValue (flag : Flag) (value : String) : Except Ending Uses :=
  if flag.takesValue then
    .ok { uses := [(flag, if value == "--" then none else some value)] }
  else .error .misuse

/-- The uses of a flag and of the letters behind it. The first flag that takes a value takes all that
follows. -/
def ofLetters (flags : List Flag) (words : List Word) (flag : Flag) :
    List Char → Except Ending Uses
  | [] => ofValue flag ""
  | c :: rest =>
      if flag.takesValue then ofValue flag (String.ofList (c :: rest))
      else
        match Flag.ofName? flags (String.ofList ['-', c]) with
        | none => .error .misuse
        | some next =>
            after (flag, none) <$>
              (if rest.isEmpty then ofFlag next words else ofLetters flags words next rest)

/-- The uses in a word of a flag and what is written together with it, before other words. -/
def ofWord (flags : List Flag) (flag : Flag) (attached : Attached) (words : List Word) :
    Except Ending Uses :=
  match attached with
  | .nothing => ofFlag flag words
  | .value text => ofValue flag text
  | .letters text => ofLetters flags words flag text

end Uses

end DocCompiler.CommandLine
