import ExprCompiler.Number.Double
import ExprCompiler.Number.Integer

/-! Doubles in decimal text: digits with an optional point and an optional exponent, or one
of the words for infinity and for no number, after an optional sign. The value is the double
nearest to the number that is written.
-/

namespace ExprCompiler.Decimal

/-- A number written in decimal: `digits * 10 ^ exponent`, where `digits` was written with
`length` digits.
-/
structure Written where
  digits : Nat
  length : Nat
  exponent : Int
deriving DecidableEq, Repr

/-- The nearest double. Exponents far out of range are settled without computing a power of
ten: a nonzero number is at least `10 ^ exponent` and less than `10 ^ (length + exponent)`.
-/
def Written.nearest (written : Written) (negative : Bool) : Double :=
  if written.digits = 0 then .zero negative
  else if 400 < written.exponent then .infinity negative
  else if written.length + written.exponent < -400 then .zero negative
  else
    .ofRatio negative (written.digits * Nat.pow 10 written.exponent.toNat)
      (Nat.pow 10 (-written.exponent).toNat)

/-- The exponent at the end of a number: nothing, or a letter e, an optional sign and at
least one digit.
-/
def exponent? : List UInt8 → Option Int
  | [] => some 0
  | mark :: rest =>
      if mark = 0x65 ∨ mark = 0x45 then
        let (negative, digits) := splitSign rest
        (natural? digits).map fun value => if negative then -(value : Int) else value
      else none

/-- The digits after a decimal point, and what follows them. Without a point there are
none.
-/
def splitFraction : List UInt8 → List UInt8 × List UInt8
  | 0x2E :: rest => (rest.takeWhile isDigit, rest.dropWhile isDigit)
  | bytes => ([], bytes)

/-- A number without sign: digits, a point and an exponent, with at least one digit before
or after the point.
-/
def written? (bytes : List UInt8) : Option Written := do
  let whole := bytes.takeWhile isDigit
  let (fraction, rest) := splitFraction (bytes.dropWhile isDigit)
  if whole.isEmpty && fraction.isEmpty then none
  let exponent ← exponent? rest
  some {
    digits := valueOf (whole ++ fraction)
    length := whole.length + fraction.length
    exponent := exponent - fraction.length
  }

/-- The ASCII letter of `byte` in lower case; other bytes stay. -/
def lowerCase (byte : UInt8) : UInt8 :=
  if 0x41 ≤ byte && byte ≤ 0x5A then byte + 0x20 else byte

/-- The words that stand for infinity and for no number, in any case of their letters. -/
def word? (bytes : List UInt8) (negative : Bool) : Option Double :=
  let letters := bytes.map fun byte => Char.ofUInt8 (lowerCase byte)
  if letters = "inf".toList ∨ letters = "infinity".toList then some (.infinity negative)
  else if letters = "nan".toList then some (.nan negative)
  else none

/-- The double that a decimal text stands for. -/
def double? (bytes : List UInt8) : Option Double :=
  let (negative, unsigned) := splitSign bytes
  match written? unsigned with
  | some written => some (written.nearest negative)
  | none => word? unsigned negative

end ExprCompiler.Decimal
