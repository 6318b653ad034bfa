/-! Double-precision numbers as their 64-bit patterns: a sign bit, eleven exponent bits and
52 fraction bits. Main construction: the double nearest to a ratio of natural numbers, where
a ratio halfway between two doubles goes to the one with an even fraction.
-/

namespace ExprCompiler

/-- A double-precision number, given by its bit pattern. -/
structure Double where
  bits : UInt64
deriving DecidableEq, Repr, Inhabited

namespace Double

/-- Whether the sign bit is set. -/
def isNegative (double : Double) : Bool :=
  0x8000000000000000 ≤ double.bits.toNat

/-- The exponent bits as a number. -/
def exponentField (double : Double) : Nat :=
  double.bits.toNat / 0x10000000000000 % 0x800

/-- The fraction bits as a number. -/
def fractionField (double : Double) : Nat :=
  double.bits.toNat % 0x10000000000000

/-- Whether the pattern stands for no number. -/
def isNaN (double : Double) : Bool :=
  double.exponentField = 0x7FF && double.fractionField ≠ 0

/-- Whether the pattern is one of the two infinities. -/
def isInfinite (double : Double) : Bool :=
  double.exponentField = 0x7FF && double.fractionField = 0

/-- Whether the pattern is one of the two zeros. -/
def isZero (double : Double) : Bool :=
  double.exponentField = 0 && double.fractionField = 0

/-- The integer `m` for which a finite double has magnitude `m * 2 ^ scale`. -/
def significand (double : Double) : Nat :=
  if double.exponentField = 0 then double.fractionField
  else 0x10000000000000 + double.fractionField

/-- The power of two that the significand of a finite double counts. -/
def scale (double : Double) : Int :=
  (max double.exponentField 1 : Nat) - 1075

/-- The double with the given sign whose other bits have the value `magnitude`. -/
def ofMagnitude (negative : Bool) (magnitude : Nat) : Double where
  bits :=
    UInt64.ofNat
      (magnitude % 0x8000000000000000 + if negative then 0x8000000000000000 else 0)

/-- The bits of infinity without its sign; all larger magnitudes stand for no number. -/
def infinityMagnitude : Nat :=
  0x7FF0000000000000

/-- Zero with the given sign. -/
def zero (negative : Bool := false) : Double :=
  ofMagnitude negative 0

/-- Infinity with the given sign. -/
def infinity (negative : Bool := false) : Double :=
  ofMagnitude negative infinityMagnitude

/-- The usual pattern that stands for no number, with the given sign. -/
def nan (negative : Bool := false) : Double :=
  ofMagnitude negative (infinityMagnitude + 0x8000000000000)

/-- The integer nearest to `num / den`; of two equally near ones the even one. -/
def divideToEven (num den : Nat) : Nat :=
  let quotient := num / den
  let twice := 2 * (num % den)
  if twice < den ∨ (twice = den ∧ quotient % 2 = 0) then quotient else quotient + 1

/-- `num * 2 ^ power / den` as a numerator and a denominator. -/
def shiftRatio (num den : Nat) (power : Int) : Nat × Nat :=
  (num <<< power.toNat, den <<< (-power).toNat)

/-- The exponent of the largest power of two that is at most `num / den`. -/
def floorLog2 (num den : Nat) : Int :=
  let guess : Int := (Nat.log2 num : Int) - Nat.log2 den
  let (num, den) := shiftRatio num den (-guess)
  if den ≤ num then guess else guess - 1

/-- The double nearest to `num / den`, with ties to even and infinity above all doubles.
Consecutive magnitudes are consecutive doubles, so that a significand which rounds up to
the next power of two needs no care.
-/
def ofRatio (negative : Bool) (num den : Nat) : Double :=
  if num = 0 then zero negative
  else
    let scale := max (floorLog2 num den - 52) (-1074)
    let (num, den) := shiftRatio num den (-scale)
    let magnitude := (scale + 1074).toNat * 0x10000000000000 + divideToEven num den
    ofMagnitude negative (min magnitude infinityMagnitude)

end Double

end ExprCompiler
