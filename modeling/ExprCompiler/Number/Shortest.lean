import ExprCompiler.Number.Double

/-! The shortest decimal text of a double: the fewest digits that still identify it among all
doubles, and of these the nearest to it. The text is always positional, without an exponent.
-/

namespace ExprCompiler

/-- A decimal number `digits * 10 ^ exponent`. -/
structure Shortest where
  digits : Nat
  exponent : Int
deriving DecidableEq, Repr

namespace Shortest

/-- A positive double among its neighbours, in units of a quarter of its last place: the
numbers from `value - below` to `value + 2` round to it, and the two ends themselves do
exactly if `closed`. The unit is `unitNum / unitDen`.
-/
structure Interval where
  value : Nat
  below : Nat
  closed : Bool
  unitNum : Nat
  unitDen : Nat
deriving DecidableEq, Repr

/-- The interval of numbers that round to the magnitude of a finite nonzero double. Below a
power of two the next double is only half as far away, unless it is the least normal one.
-/
def interval (double : Double) : Interval :=
  let significand := double.significand
  let unit := Double.shiftRatio 1 1 (double.scale - 2)
  {
    value := 4 * significand
    below := if double.fractionField = 0 ∧ 1 < double.exponentField then 1 else 2
    closed := significand % 2 = 0
    unitNum := unit.1
    unitDen := unit.2
  }

/-- Whether `num / den` rounds to the double. -/
def Interval.contains (interval : Interval) (num den : Nat) : Bool :=
  let scaled := num * interval.unitDen
  let low := (interval.value - interval.below) * interval.unitNum * den
  let high := (interval.value + 2) * interval.unitNum * den
  if interval.closed then low ≤ scaled && scaled ≤ high else low < scaled && scaled < high

/-- The number of digits before the decimal point, or minus the number of zeros right after
it. Every positive double times `10 ^ 400` has a digit before the point.
-/
def Interval.pointPosition (interval : Interval) : Int :=
  let whole := interval.value * interval.unitNum * Nat.pow 10 400 / interval.unitDen
  ((Nat.toDigits 10 whole).length : Int) - 400

/-- The candidate with `places` digits: the value rounded down or up on that grid, whichever
identifies the double; if both do, the nearer one, and upwards on a tie.
-/
def Interval.candidate? (interval : Interval) (places : Nat) : Option Shortest :=
  let exponent := interval.pointPosition - places
  let gridNum := Nat.pow 10 exponent.toNat
  let gridDen := Nat.pow 10 (-exponent).toNat
  let num := interval.value * interval.unitNum * gridDen
  let den := interval.unitDen * gridNum
  let floor := num / den
  let lowFits := interval.contains (floor * gridNum) gridDen
  let highFits := interval.contains ((floor + 1) * gridNum) gridDen
  let up := highFits && (!lowFits || den ≤ 2 * (num % den))
  if up then some ⟨floor + 1, exponent⟩
  else if lowFits then some ⟨floor, exponent⟩
  else none

/-- Drops the zeros at the end of the digits, at most `count` of them. -/
def trim : Nat → Shortest → Shortest
  | 0, number => number
  | count + 1, number =>
      if number.digits % 10 = 0 then trim count ⟨number.digits / 10, number.exponent + 1⟩
      else number

/-- The shortest decimal of a finite nonzero double. Seventeen digits always suffice. -/
def ofDouble (double : Double) : Shortest :=
  let interval := interval double
  let found := (List.range' 1 17).findSome? interval.candidate?
  trim 17 (found.getD ⟨0, 0⟩)

/-- The number without an exponent: zeros fill the gap to the decimal point. -/
def positional (number : Shortest) : String :=
  let digits := Nat.toDigits 10 number.digits
  let fraction := (-number.exponent).toNat
  let zeros (count : Nat) := List.replicate count '0'
  if 0 ≤ number.exponent then
    String.ofList (digits ++ zeros number.exponent.toNat)
  else if fraction < digits.length then
    String.ofList
      (digits.take (digits.length - fraction) ++ '.' :: digits.drop (digits.length - fraction))
  else
    String.ofList ('0' :: '.' :: zeros (fraction - digits.length) ++ digits)

end Shortest

/-- The decimal text of a double. -/
def Double.decimalText (double : Double) : String :=
  if double.isNaN then "NaN"
  else
    let sign := if double.isNegative then "-" else ""
    if double.isInfinite then sign ++ "inf"
    else if double.isZero then sign ++ "0"
    else sign ++ (Shortest.ofDouble double).positional

end ExprCompiler
