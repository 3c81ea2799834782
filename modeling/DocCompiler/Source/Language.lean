import DocCompiler.Source.Detector

/-!
The detectors of the languages that are known without a plug-in.
-/

namespace DocCompiler.Detector

open Pattern Text

/-- A name of letters, digits and underscores. -/
def plainName : Pattern :=
  .group .name (identifier isNameStart isWord)

/-- Declarations of classes, interfaces, traits and enumerations, functions and properties in PHP. -/
def php : Detector where
  name := "php"
  suffixes := [".php"]
  typePattern := sequence [
    modifiers ["abstract", "final", "readonly"],
    word ["class", "interface", "trait", "enum"], blanks, plainName]
  methodPattern := sequence [
    modifiers ["public", "protected", "private", "static", "abstract", "final"],
    literal "function", blanks, optional (literal "&"), plainName, anyBlanks, literal "("]
  fieldPattern :=
    let marks := ["public", "protected", "private", "var", "static", "readonly"]
    let typeName := sequence [
      optional (literal "?"), one (fun c => isNameStart c || c == '\\'),
      any (fun c => isWord c || c == '\\' || c == '|')]
    sequence [
      word marks, blanks, modifiers marks,
      optional (sequence [.group .type typeName, blanks]), literal "$", plainName]
  decoration := some (literal "#[")
  implementation := "apidocgen.extraction.detectors.PhpDetector"

/-- The modifiers of declarations in Java. -/
def javaModifiers : Pattern :=
  modifiers ["public", "protected", "private", "static", "final", "abstract", "synchronized",
    "default", "transient", "volatile"]

/-- The characters of type expressions in Java. -/
def isJavaType (c : Char) : Bool :=
  isWord c || ['.', '<', '>', '[', ']', '?', ',', ' '].contains c

/-- Declarations of classes, interfaces, enumerations and records, methods and fields in Java. -/
def java : Detector where
  name := "java"
  suffixes := [".java"]
  typePattern := sequence [
    javaModifiers, word ["class", "interface", "enum", "record"], blanks, plainName]
  methodPattern := sequence [
    javaModifiers,
    optional (sequence [literal "<", Pattern.some (fun c => c != '>' && c != '\n'), literal ">",
      blanks]),
    optional (sequence [few isJavaType, blanks]), plainName, anyBlanks, literal "("]
  fieldPattern := sequence [
    javaModifiers, .group .type (few isJavaType), blanks, plainName, anyBlanks,
    one (fun c => c == '=' || c == ';')]
  decoration := some (sequence [
    literal "@", identifier isNameStart (fun c => isWord c || c == '.'),
    optional (sequence [anyBlanks, literal "("])])
  implementation := "apidocgen.extraction.detectors.JavaDetector"

/-- A character that may start a name in TypeScript. -/
def isScriptStart (c : Char) : Bool :=
  isNameStart c || c == '$'

/-- A name in TypeScript. -/
def scriptName : Pattern :=
  .group .name (identifier isScriptStart (fun c => isWord c || c == '$'))

/-- Declarations of classes and interfaces, functions and methods, and properties in TypeScript. -/
def typescript : Detector where
  name := "typescript"
  suffixes := [".ts", ".tsx", ".js", ".jsx", ".mjs"]
  typePattern :=
    let mark (value : String) := optional (sequence [literal value, blanks])
    sequence [
      mark "export", mark "default", mark "abstract", word ["class", "interface"], blanks,
      scriptName]
  methodPattern := sequence [
    optional (sequence [literal "export", blanks]),
    modifiers ["public", "protected", "private", "static", "async", "override"],
    optional (sequence [literal "function", anyBlanks, optional (literal "*"), anyBlanks]),
    scriptName, anyBlanks,
    optional (sequence [literal "<", any (fun c => c != '>' && c != '\n'), literal ">"]),
    anyBlanks, literal "("]
  fieldPattern :=
    let typeChar (c : Char) : Bool := c != ';' && c != '=' && c != '\n'
    sequence [
      modifiers ["public", "protected", "private", "static", "readonly", "declare", "override"],
      scriptName, anyBlanks, optional (one (fun c => c == '?' || c == '!')), anyBlanks,
      optional (sequence [literal ":", anyBlanks, .group .type (few typeChar)]),
      anyBlanks, one (fun c => c == ';' || c == '=' || c == '\n')]
  decoration := some (sequence [
    literal "@", identifier isScriptStart (fun c => isWord c || c == '$' || c == '.'),
    optional (sequence [anyBlanks, literal "("])])
  implementation := "apidocgen.extraction.detectors.TypeScriptDetector"

/-- All detectors that are known without a plug-in. -/
def builtin : List Detector :=
  [php, java, typescript]

end DocCompiler.Detector
