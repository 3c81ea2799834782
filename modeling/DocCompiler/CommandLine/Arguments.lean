import DocCompiler.CommandLine.Word
import DocCompiler.Document.Output
import DocCompiler.Number.Numeral

/-!
What a command line asks for: one of the commands, with its flags and at most one path.
-/

namespace DocCompiler.CommandLine

/-- The commands. -/
inductive Command
  /-- Compiles a project and writes its document. -/
  | build
  /-- Compiles a project and tells what is wrong with it. -/
  | check
  deriving DecidableEq, Repr, Inhabited

namespace Command

/-- The name of a command. -/
def name : Command → String
  | .build => "build"
  | .check => "check"

/-- The command with a given name. -/
def ofName? : String → Option Command
  | "build" => some .build
  | "check" => some .check
  | _ => none

/-- The flags that may stand before a command. -/
def commonFlags : List Flag :=
  [.help, .verbose]

/-- The flags of a command. -/
def flags : Command → List Flag
  | .build => [.help, .verbose, .output, .format, .noCache, .workers]
  | .check => commonFlags

end Command

/-- How many workers are asked for. -/
inductive Workers
  | unset
  | count (number : Int)
  /-- The flag is there, but a separator stands where the number belongs. -/
  | void
  deriving DecidableEq, Repr, Inhabited

/-- A command with what is asked of it. -/
structure Arguments where
  command : Command
  verbose : Bool := false
  path : String := "."
  output : Option String := none
  format : Option OutputFormat := none
  noCache : Bool := false
  workers : Workers := .unset
  deriving DecidableEq, Repr, Inhabited

/-- Arguments as far as they are read: whether the path was given, and whether there were words that
have no place. -/
structure Reading where
  arguments : Arguments
  hasPath : Bool := false
  surplus : Bool := false
  deriving DecidableEq, Repr, Inhabited

namespace Reading

/-- Takes a flag into account. -/
def apply (reading : Reading) (use : Use) : Except Ending Reading :=
  let arguments := reading.arguments
  match use with
  | (.help, _) => .error .help
  | (.verbose, _) => .ok { reading with arguments := { arguments with verbose := true } }
  | (.noCache, _) => .ok { reading with arguments := { arguments with noCache := true } }
  | (.output, value) => .ok { reading with arguments := { arguments with output := value } }
  | (.format, none) => .ok { reading with arguments := { arguments with format := none } }
  | (.format, some value) =>
      match OutputFormat.ofName? value with
      | none => .error .misuse
      | some format =>
          .ok { reading with arguments := { arguments with format := some format } }
  | (.workers, none) => .ok { reading with arguments := { arguments with workers := .void } }
  | (.workers, some value) =>
      match Number.readInt value with
      | .error _ => .error .misuse
      | .ok count =>
          .ok { reading with arguments := { arguments with workers := .count count } }

/-- Takes the path into account. -/
def withPath (reading : Reading) (path : String) : Reading :=
  { reading with arguments := { reading.arguments with path }, hasPath := true }

/-- Reads the words behind a command. A separator belongs to the path next to it. -/
def read (flags : List Flag) (reading : Reading) : List Word → Except Ending Reading
  | [] => .ok reading
  | .unknown :: rest => read flags { reading with surplus := true } rest
  | .flagged flag attached :: rest => do
      let uses ← Uses.ofWord flags flag attached rest
      let reading ← uses.uses.foldlM apply reading
      match uses.takesNext, rest with
      | true, _ :: rest => read flags reading rest
      | _, rest => read flags reading rest
  | .plain text :: rest =>
      if reading.hasPath then read flags { reading with surplus := true } rest
      else
        match rest with
        | .separator :: rest => read flags (reading.withPath text) rest
        | rest => read flags (reading.withPath text) rest
  | .separator :: rest =>
      if reading.hasPath then read flags { reading with surplus := true } rest
      else
        match rest with
        | .plain text :: rest => read flags (reading.withPath text) rest
        | rest => read flags { reading with hasPath := true } rest

end Reading

/-- Reads the texts behind a command. -/
def readArguments (command : Command) (verbose : Bool) (texts : List String) :
    Except Ending Arguments := do
  let words ← Word.ofTexts command.flags texts
  let reading ← Reading.read command.flags { arguments := { command, verbose } } words
  if reading.surplus then throw .misuse
  return reading.arguments

/-- Reads words up to the command, with their texts. -/
def readCommand (verbose surplus : Bool) : List (String × Word) → Except Ending Arguments
  | [] => .error .misuse
  | (_, .unknown) :: rest => readCommand verbose true rest
  | (_, .separator) :: _ => .error .misuse
  | (_, .flagged flag attached) :: rest => do
      let uses ← Uses.ofWord Command.commonFlags flag attached []
      if uses.uses.any (·.1 == .help) then throw .help
      readCommand true surplus rest
  | (_, .plain name) :: rest =>
      match Command.ofName? name with
      | none => .error .misuse
      | some command => do
          let arguments ← readArguments command verbose (rest.map (·.1))
          if surplus then throw .misuse
          return arguments

/-- Reads a command line. -/
def Arguments.ofTexts (texts : List String) : Except Ending Arguments := do
  let words ← Word.ofTexts Command.commonFlags texts
  readCommand false false (texts.zip words)

end DocCompiler.CommandLine
