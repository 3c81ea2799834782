import DocCompiler.Number.Binary64

/-!
The shortest decimal that reads back as a given double-precision number, and its text.
-/

namespace DocCompiler.Binary64

/-- A positive decimal `0.d₁d₂… * 10 ^ point`, with its digits in order. -/
structure Decimal where
  digits : List Char
  point : Int
  deriving DecidableEq, Repr

/-- Bounds of the numbers that round to `significand * 2 ^ exponent`, and the number itself, all
over one denominator. -/
structure Interval where
  low : Nat
  value : Nat
  high : Nat
  unit : Nat
  closed : Bool

/-- The interval of a positive number. The gap below a power of two is half as wide as the one above,
except at the smallest exponent; the ends belong to the interval of an even significand. -/
def interval (significand : Nat) (exponent : Int) : Interval :=
  let below := if significand = twoTo 52 ∧ minExponent < exponent then 1 else 2
  let up := twoTo exponent.toNat
  { low := (4 * significand - below) * up
    value := 4 * significand * up
    high := (4 * significand + 2) * up
    unit := 4 * twoTo (-exponent).toNat
    closed := significand % 2 == 0 }

/-- Whether the interval holds `num / den`. -/
def Interval.holds (i : Interval) (num den : Nat) : Bool :=
  let scaled := num * i.unit
  if i.closed then i.low * den ≤ scaled && scaled ≤ i.high * den
  else i.low * den < scaled && scaled < i.high * den

/-- The least power of ten, as an exponent, above `num / den`, for a ratio below `10 ^ fuel` and not
below `10 ^ -fuel`. -/
def decimalPoint (num den : Nat) (fuel : Nat) : Int :=
  if den ≤ num then (Nat.toDigits 10 (num / den)).length
  else grow num fuel 0
where
  /-- Counts the zeros between the point and the first digit. -/
  grow (num : Nat) : Nat → Nat → Int
    | 0, zeros => -zeros
    | fuel + 1, zeros => if den ≤ 10 * num then -zeros else grow (10 * num) fuel (zeros + 1)

/-- The decimal of `count` digits nearest to the interval's value, when one of the two neighbours of
the value on that grid lies in the interval. -/
def decimalOf? (i : Interval) (point : Int) (count : Nat) : Option Nat :=
  let power : Int := point - count
  let tens := tenTo power.natAbs
  let (num, den) := if power < 0 then (i.value * tens, i.unit) else (i.value, i.unit * tens)
  let lower := num / den
  let place (digits : Nat) : Nat × Nat :=
    if power < 0 then (digits, tens) else (digits * tens, 1)
  let fits (digits : Nat) : Bool := let (n, d) := place digits; i.holds n d
  match fits lower, fits (lower + 1) with
  | false, false => none
  | true, false => some lower
  | false, true => some (lower + 1)
  | true, true => some (nearest num den)

/-- The first grid, from the coarsest on, with a decimal in the interval. -/
def searchShortest (i : Interval) (point : Int) : (fuel count : Nat) → Option (Nat × Nat)
  | 0, _ => none
  | fuel + 1, count =>
      match decimalOf? i point count with
      | some digits => some (digits, count)
      | none => searchShortest i point fuel (count + 1)

/-- The shortest decimal that reads back as a positive number, of several the nearest. -/
def shortest (significand : Nat) (exponent : Int) : Decimal :=
  let i := interval significand exponent
  let point := decimalPoint i.value i.unit 400
  match searchShortest i point 20 1 with
  | none => ⟨['0'], 1⟩
  | some (digits, count) =>
      let shown := Nat.toDigits 10 digits
      -- Rounding up may carry into one more digit.
      let point := point + ((shown.length : Int) - count)
      let kept := (shown.reverse.dropWhile (· == '0')).reverse
      ⟨kept, point⟩

/-- The text of a decimal: with a point when its first digit stands at most sixteen places before
the point and at most four places behind it, else with an exponent of at least two digits. -/
def Decimal.text (d : Decimal) : List Char :=
  let length : Int := d.digits.length
  if -4 < d.point ∧ d.point ≤ 16 then
    if d.point ≤ 0 then
      ['0', '.'] ++ List.replicate (-d.point).toNat '0' ++ d.digits
    else if length ≤ d.point then
      d.digits ++ List.replicate (d.point - length).toNat '0' ++ ['.', '0']
    else d.digits.take d.point.toNat ++ '.' :: d.digits.drop d.point.toNat
  else
    let mantissa :=
      match d.digits with
      | [] => ['0']
      | [first] => [first]
      | first :: rest => first :: '.' :: rest
    let power := d.point - 1
    let size := Nat.toDigits 10 power.natAbs
    mantissa ++ 'e' :: (if power < 0 then '-' else '+') ::
      (List.replicate (2 - size.length) '0' ++ size)

/-- The shortest text of a number. -/
def text : Binary64 → String
  | .nan => "nan"
  | .infinite negative => if negative then "-inf" else "inf"
  | .finite negative significand exponent =>
      let body := if significand = 0 then ['0', '.', '0'] else (shortest significand exponent).text
      String.ofList (if negative then '-' :: body else body)

end DocCompiler.Binary64
