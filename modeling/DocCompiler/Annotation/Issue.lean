import DocCompiler.Annotation.Tree

/-!
What can be wrong with the text of an annotation.
-/

namespace DocCompiler.Annotation

/-- A fault in the text of an annotation. The faults up to `unsupportedConstant` make the rest of the
tag unreadable; the others leave its structure intact. -/
inductive Issue
  | nameExpected
  | unclosedArguments (tag : String)
  | argumentEndExpected (tag : String) (found : Char)
  | unclosedBraces
  | braceEndExpected (found : Char)
  | unclosedString
  | unexpectedEnd
  | unexpectedCharacter (found : Char)
  | nestedTooDeeply
  | unsupportedConstant (name kind : String)
  | unknownTag (tag : String)
  | nestedOnlyTag (tag : String)
  | duplicateAttribute (name tag : String)
  | positionalValue (tag : String)
  | mixedBraces
  deriving DecidableEq, Repr, Inhabited

/-- The wording of a fault. -/
def Issue.message : Issue → String
  | .nameExpected => "expected an annotation name after '@'"
  | .unclosedArguments tag => "unmatched '(' in @" ++ tag
  | .argumentEndExpected tag found =>
      "expected ',' or ')' in @" ++ tag ++ ", found " ++ Text.quotedChar found
  | .unclosedBraces => "unmatched '\x7b'"
  | .braceEndExpected found => "expected ',' or '\x7d', found " ++ Text.quotedChar found
  | .unclosedString => "unterminated string"
  | .unexpectedEnd => "unexpected end of annotation"
  | .unexpectedCharacter found => "unexpected character " ++ Text.quotedChar found
  | .nestedTooDeeply => "annotation nested too deeply"
  | .unsupportedConstant name kind =>
      "constant " ++ name ++ ": Unsupported constant value type: " ++ kind
  | .unknownTag tag => "unknown annotation @" ++ tag
  | .nestedOnlyTag tag => "@" ++ tag ++ " is only valid inside another annotation"
  | .duplicateAttribute name tag => "duplicate attribute '" ++ name ++ "' in @" ++ tag
  | .positionalValue tag => "positional values are not allowed in @" ++ tag ++ "; use name=value"
  | .mixedBraces => "cannot mix keyed and positional entries in braces"

/-- A fault and where it is. -/
structure ParseError where
  issue : Issue
  location : Location
  deriving DecidableEq, Repr, Inhabited

/-- The diagnostic for a fault. -/
def ParseError.diagnostic (error : ParseError) : Diagnostic :=
  .error .parse error.issue.message (some error.location)

end DocCompiler.Annotation
