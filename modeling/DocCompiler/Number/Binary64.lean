/-!
Double-precision numbers as exact values: a sign, a significand and a power of two. Rounding is to
the nearest number of the format, a tie to the even significand. Sums and products are the exact
result, rounded once.
-/

namespace DocCompiler

/-- A power of two. -/
def twoTo (exponent : Nat) : Nat :=
  Nat.pow 2 exponent

/-- A power of ten. -/
def tenTo (exponent : Nat) : Nat :=
  Nat.pow 10 exponent

/-- A power of two is positive. -/
theorem twoTo_pos (exponent : Nat) : 0 < twoTo exponent :=
  Nat.two_pow_pos exponent

/-- A double-precision number. In canonical form a finite significand is below `2 ^ 53`, and either
it is at least `2 ^ 52` or the exponent is `-1074`; zero has the exponent `-1074`. -/
inductive Binary64
  | nan
  | infinite (negative : Bool)
  | finite (negative : Bool) (significand : Nat) (exponent : Int)
  deriving DecidableEq, Repr, Inhabited

namespace Binary64

/-- The smallest exponent of the format. -/
def minExponent : Int := -1074

/-- The largest exponent of the format. -/
def maxExponent : Int := 971

/-- Zero with a sign. -/
def zero (negative : Bool) : Binary64 :=
  .finite negative 0 minExponent

/-- Whether a number is neither infinite nor undefined. -/
def isFinite : Binary64 → Bool
  | .finite .. => true
  | _ => false

/-- The whole number nearest to `num / den`, of two the even one. -/
def nearest (num den : Nat) : Nat :=
  let quotient := num / den
  let twice := 2 * (num % den)
  if twice < den then quotient
  else if den < twice then quotient + 1
  else quotient + quotient % 2

/-- The ratio `num / den` measured in units of `2 ^ exponent`, as a ratio again. -/
def inUnits (num den : Nat) (exponent : Int) : Nat × Nat :=
  if exponent < 0 then (num * twoTo exponent.natAbs, den)
  else (num, den * twoTo exponent.natAbs)

/-- The number nearest to `num / den`, with the given sign. -/
def ofRatio (negative : Bool) (num den : Nat) : Binary64 :=
  if num = 0 then zero negative
  else
    -- The quotient in these units has 53 or 54 bits.
    let guess : Int := max minExponent ((num.log2 : Int) - (den.log2 : Int) - 53)
    let (scaled, unit) := inUnits num den guess
    let exponent := if scaled / unit < twoTo 53 then guess else guess + 1
    let (scaled, unit) := inUnits num den exponent
    let significand := nearest scaled unit
    let (significand, exponent) :=
      if significand = twoTo 53 then (twoTo 52, exponent + 1) else (significand, exponent)
    if maxExponent < exponent then .infinite negative
    else if significand = 0 then zero negative
    else .finite negative significand exponent

/-- The number nearest to a whole number. -/
def ofInt (value : Int) : Binary64 :=
  ofRatio (value < 0) value.natAbs 1

/-- The number nearest to `digits * 10 ^ exponent`. The count of digits settles numbers far outside
the range of the format, so that no huge power is computed. -/
def ofDecimal (negative : Bool) (digits : Nat) (exponent : Int) : Binary64 :=
  if digits = 0 then zero negative
  else
    let magnitude : Int := exponent + ((Nat.toDigits 10 digits).length : Int)
    if 310 < magnitude then .infinite negative
    else if magnitude < -330 then zero negative
    else if exponent < 0 then ofRatio negative digits (tenTo exponent.natAbs)
    else ofRatio negative (digits * tenTo exponent.natAbs) 1

/-- The part of a finite number before its point. -/
def truncate (negative : Bool) (significand : Nat) (exponent : Int) : Int :=
  let size :=
    if exponent < 0 then significand / twoTo exponent.natAbs
    else significand * twoTo exponent.natAbs
  if negative then -(size : Int) else size

/-- Whether a number equals a whole number exactly. -/
def equalsInt (value : Int) : Binary64 → Bool
  | .finite negative significand exponent =>
      let signed : Int := if negative then -(significand : Int) else significand
      if exponent < 0 then signed == value * (twoTo exponent.natAbs : Int)
      else signed * (twoTo exponent.natAbs : Int) == value
  | _ => false

/-- Equality of numbers: the two zeros are equal, and no undefined number equals anything. -/
def equals : Binary64 → Binary64 → Bool
  | .nan, _ => false
  | _, .nan => false
  | .finite _ 0 _, .finite _ 0 _ => true
  | a, b => a == b

/-- Whether a number is one of the two zeros. -/
def isZero : Binary64 → Bool
  | .finite _ 0 _ => true
  | _ => false

/-- A finite number as a ratio. -/
def ratio? : Binary64 → Option (Int × Nat)
  | .finite negative significand exponent =>
      let size : Int := (significand * twoTo exponent.toNat : Nat)
      some (if negative then -size else size, twoTo (-exponent).toNat)
  | _ => none

/-- The number nearest to a ratio. -/
def ofSigned (num : Int) (den : Nat) : Binary64 :=
  ofRatio (num < 0) num.natAbs den

/-- The opposite number. -/
def negate : Binary64 → Binary64
  | .nan => .nan
  | .infinite negative => .infinite !negative
  | .finite negative significand exponent => .finite (!negative) significand exponent

/-- The sum of two finite numbers; where one is not finite, that one. -/
def plus (a b : Binary64) : Binary64 :=
  match a.ratio?, b.ratio? with
  | some (m, p), some (n, q) => ofSigned (m * q + n * p) (p * q)
  | none, _ => a
  | _, none => b

/-- The product of two finite numbers; where one is not finite, that one. -/
def times (a b : Binary64) : Binary64 :=
  match a.ratio?, b.ratio? with
  | some (m, p), some (n, q) => ofSigned (m * n) (p * q)
  | none, _ => a
  | _, none => b

end Binary64

end DocCompiler
