import DocCompiler.Text.Blank
import DocCompiler.Text.Glob
import DocCompiler.Text.Split

/-!
Rules for files that are left out: patterns one to a line, of which the last one that matches
decides.
-/

namespace DocCompiler

/-- A rule. A rule for directories matches no files; an anchored one, and one with a slash inside,
is held against the whole path, any other against each name of the path. A negated rule takes files
in again. -/
structure IgnoreRule where
  pattern : String
  directoryOnly : Bool
  anchored : Bool
  negated : Bool
  hasSlash : Bool
  deriving DecidableEq, Repr, Inhabited

namespace IgnoreRule

/-- Whether a rule matches a path below the project. -/
def matches? (rule : IgnoreRule) (path : String) (isDirectory : Bool) : Bool :=
  if rule.pattern.isEmpty || (rule.directoryOnly && !isDirectory) then false
  else if rule.anchored || rule.hasSlash then
    Text.globMatches rule.pattern path ||
      (rule.directoryOnly && Text.startsWith (rule.pattern ++ "/") path)
  else (Text.splitOn '/' path).any fun name => Text.globMatches rule.pattern name

/-- The rule that a text stands for; blanks make none. -/
def ofText? (text : String) (negated : Bool) : Option IgnoreRule :=
  match Text.trim text.toList with
  | [] => none
  | chars =>
      let (negated, chars) :=
        if chars.head? = some '!' then (!negated, chars.tail) else (negated, chars)
      let directoryOnly := chars.getLast? = some '/'
      let chars := if directoryOnly then chars.dropLast else chars
      let anchored := chars.head? = some '/'
      let chars := if anchored then chars.tail else chars
      some { pattern := String.ofList chars, directoryOnly, anchored, negated
             hasSlash := chars.contains '/' }

/-- The rules in the lines of a file; lines that start with a number sign are comments. -/
def ofFile (text : String) : List IgnoreRule :=
  (Text.lines text).filterMap fun line =>
    let line := Text.trimmed line
    if Text.startsWith "#" line then none else ofText? line false

/-- Whether a path is left out by rules. -/
def ignores (rules : List IgnoreRule) (path : String) (isDirectory : Bool) : Bool :=
  rules.foldl (fun ignored rule =>
    if rule.matches? path isDirectory then !rule.negated else ignored) false

end IgnoreRule

/-- Whether a path is among those that patterns take in: its name or the whole path matches one of
them. No patterns take in everything. -/
def isIncluded (patterns : List String) (path : String) : Bool :=
  patterns.isEmpty || patterns.any fun pattern =>
    Text.globMatches pattern path || Text.globMatches pattern (Text.afterLast '/' path)

end DocCompiler
