import ExprCompiler.Number.Double

/-! The hexadecimal text of a double, which is exact: a lead digit, the fraction bits as up
to thirteen hexadecimal digits, and a power of two in decimal.
-/

namespace ExprCompiler.Double

/-- The thirteen hexadecimal digits of a fraction without the zeros at their end. -/
def fractionDigits (fraction : Nat) : List Char :=
  let digits := Nat.toDigits 16 fraction
  let padded := List.replicate (13 - digits.length) '0' ++ digits
  (padded.reverse.dropWhile (· = '0')).reverse

/-- An exponent with its sign, which is never left out. -/
def exponentText (exponent : Int) : String :=
  if exponent < 0 then "-" ++ Nat.repr exponent.natAbs else "+" ++ Nat.repr exponent.natAbs

/-- The hexadecimal text. Subnormal numbers have the lead digit 0 and the least exponent. -/
def hexText (double : Double) : String :=
  if double.isNaN then "nan"
  else
    let sign := if double.isNegative then "-" else ""
    if double.isInfinite then sign ++ "inf"
    else if double.isZero then sign ++ "0x0p+0"
    else
      let lead := if double.exponentField = 0 then "0" else "1"
      let digits := fractionDigits double.fractionField
      let fraction := if digits.isEmpty then "" else "." ++ String.ofList digits
      sign ++ "0x" ++ lead ++ fraction ++ "p" ++ exponentText (double.scale + 52)

end ExprCompiler.Double
