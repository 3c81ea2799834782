import DocCompiler.Text.Blank
import DocCompiler.Text.Word

/-!
Patterns of text: choices are tried in order, repetitions take as much as they can or as little, and
the first way to match the whole pattern counts.
-/

namespace DocCompiler

/-- The parts of a declaration that a pattern picks out. -/
inductive PatternGroup
  | name
  | type
  deriving DecidableEq, Repr, Inhabited

/-- A pattern of text. -/
inductive Pattern
  | nothing
  | one (accepts : Char → Bool)
  | text (literal : List Char)
  | follow (first second : Pattern)
  | either (first second : Pattern)
  | many (body : Pattern) (greedy : Bool)
  | group (group : PatternGroup) (body : Pattern)

/-- How far a match has come: what follows, how many characters were taken, and the parts picked
out, newest first. -/
structure MatchState where
  rest : List Char
  taken : Nat := 0
  groups : List (PatternGroup × List Char) := []
  deriving Repr, Inhabited

namespace MatchState

/-- The state behind the next `count` characters. -/
def take (state : MatchState) (count : Nat) : MatchState :=
  { state with rest := state.rest.drop count, taken := state.taken + count }

/-- The part picked out last under a group. -/
def part? (state : MatchState) (group : PatternGroup) : Option String :=
  (state.groups.lookup group).map String.ofList

end MatchState

namespace Pattern

/-- What a pattern does with a state: it hands each way to match, in order, to what follows it. -/
abbrev Step := MatchState → (MatchState → Option MatchState) → Option MatchState

/-- Repeats a step up to `fuel` times. -/
def iterate (step : Step) (greedy : Bool) : (fuel : Nat) → Step
  | 0, state, next => next state
  | fuel + 1, state, next =>
      if greedy then
        (step state fun state => iterate step greedy fuel state next).or (next state)
      else
        (next state).or (step state fun state => iterate step greedy fuel state next)

/-- The step of a pattern. -/
def step : Pattern → Step
  | nothing, state, next => next state
  | one accepts, state, next =>
      match state.rest with
      | c :: _ => if accepts c then next (state.take 1) else none
      | [] => none
  | text literal, state, next =>
      if literal.isPrefixOf state.rest then next (state.take literal.length) else none
  | follow first second, state, next => step first state fun state => step second state next
  | either first second, state, next => (step first state next).or (step second state next)
  | many body greedy, state, next => iterate (step body) greedy state.rest.length state next
  | group kind body, state, next =>
      step body state fun after =>
        let part := state.rest.take (after.taken - state.taken)
        next { after with groups := (kind, part) :: after.groups }

/-- The first way in which a text starts with a pattern. -/
def matchStart? (pattern : Pattern) (text : List Char) : Option MatchState :=
  step pattern { rest := text } some

/-- Whether a pattern matches a text as a whole. -/
def matchesWhole (pattern : Pattern) (text : List Char) : Bool :=
  (step pattern { rest := text } fun state =>
    if state.rest.isEmpty then some state else none).isSome

/-- Patterns one after the other. -/
def sequence : List Pattern → Pattern
  | [] => nothing
  | [pattern] => pattern
  | pattern :: rest => follow pattern (sequence rest)

/-- One of several patterns, the first that fits. -/
def choice : List Pattern → Pattern
  | [] => one fun _ => false
  | [pattern] => pattern
  | pattern :: rest => either pattern (choice rest)

/-- A pattern that may be left out. -/
def optional (pattern : Pattern) : Pattern :=
  either pattern nothing

/-- One or more characters of a class, as many as can be. -/
def some (accepts : Char → Bool) : Pattern :=
  follow (one accepts) (many (one accepts) true)

/-- One or more characters of a class, as few as can be. -/
def few (accepts : Char → Bool) : Pattern :=
  follow (one accepts) (many (one accepts) false)

/-- Any number of characters of a class, as many as can be. -/
def any (accepts : Char → Bool) : Pattern :=
  many (one accepts) true

/-- A fixed text. -/
def literal (value : String) : Pattern :=
  text value.toList

/-- One of several words. -/
def word (words : List String) : Pattern :=
  choice (words.map literal)

/-- One or more blanks. -/
def blanks : Pattern :=
  some Text.isBlank

/-- Blanks, or none. -/
def anyBlanks : Pattern :=
  any Text.isBlank

/-- Any number of words of a list, each with blanks behind it. -/
def modifiers (words : List String) : Pattern :=
  many (follow (word words) blanks) true

/-- A name that starts with a character of one class and goes on in another. -/
def identifier (start inside : Char → Bool) : Pattern :=
  follow (one start) (any inside)

end Pattern

end DocCompiler
