import DocCompiler.Number.Shortest

/-!
Numbers of annotations, configurations and documents: whole numbers of any size and double-precision
ones. Two numbers are the same when their values are, whatever their form.
-/

namespace DocCompiler

/-- A whole number or a double-precision one. -/
inductive Number
  | int (value : Int)
  | float (value : Binary64)
  deriving DecidableEq, Repr, Inhabited

namespace Number

/-- Equality of values. -/
def equals : Number → Number → Bool
  | .int a, .int b => a == b
  | .int a, .float b => b.equalsInt a
  | .float a, .int b => a.equalsInt b
  | .float a, .float b => a.equals b

/-- A finite number as a whole number of units of `2 ^ exponent`, with an exponent of at most zero;
infinities are beyond every finite number. -/
def parts : Number → Int × Int
  | .int value => (value, 0)
  | .float (.finite negative significand exponent) =>
      let size : Int := (significand * twoTo exponent.toNat : Nat)
      (if negative then -size else size, min exponent 0)
  | .float (.infinite negative) => (if negative then -(twoTo 2048 : Int) else (twoTo 2048 : Int), 0)
  | .float .nan => (0, 0)

/-- Whether a number is less than another. -/
def less (a b : Number) : Bool :=
  let (a, e) := a.parts
  let (b, f) := b.parts
  decide (a * (twoTo (-f).toNat : Int) < b * (twoTo (-e).toNat : Int))

/-- Whether a number is zero. -/
def isZero : Number → Bool
  | .int value => value == 0
  | .float value => value.isZero

/-- The text of a number. -/
def text : Number → String
  | .int value => toString value
  | .float value => value.text

/-- Decimal texts of whole numbers are neither read nor written beyond this many digits. -/
def maxDigits : Nat := 4300

/-- Whether a whole number has a decimal text of allowed length. -/
def isWritable : Number → Bool
  | .int value => value.natAbs < twoTo 64 || value.natAbs < tenTo maxDigits
  | .float _ => true

end Number

end DocCompiler
