import Mathlib.Data.EReal.Basic
import ExprCompiler.Proofs.Number.HexNumeral

/-! The hexadecimal text of a double says its sign and its exact value, and there is only one way
to write it. Main statement: every pattern that stands for a number has a canonical text, which
reads back to the value of the pattern and is the text of no other one.
-/

namespace ExprCompiler

namespace HexNumeral

/-- Whether a numeral has a minus sign. -/
def isNegative : HexNumeral → Bool
  | .nan => false
  | .infinite negative | .finite negative _ _ => negative

/-- The number that a numeral stands for. -/
noncomputable def value? : HexNumeral → Option EReal
  | .nan => none
  | .infinite negative => some (if negative then ⊥ else ⊤)
  | .finite negative mantissa power =>
      some (((if negative then -1 else 1) * (mantissa * 2 ^ power) : ℝ) : EReal)

end HexNumeral

namespace Double

/-- The value of a finite double without its sign: `1.fraction * 2 ^ (exponent - 1023)` in general,
and `0.fraction * 2 ^ (-1022)` without exponent bits.
-/
noncomputable def finiteValue (double : Double) : ℝ :=
  if double.exponentField = 0 then (0 + double.fractionField / 2 ^ 52) * 2 ^ (-1022 : ℤ)
  else (1 + double.fractionField / 2 ^ 52) * 2 ^ ((double.exponentField : ℤ) - 1023)

/-- The number that a pattern stands for. -/
noncomputable def value? (double : Double) : Option EReal :=
  if double.isNaN then none
  else if double.isInfinite then some (if double.isNegative then ⊥ else ⊤)
  else some (((if double.isNegative then -1 else 1) * double.finiteValue : ℝ) : EReal)

/-- A significand counts units of `2 ^ -52`. -/
theorem finiteValue_eq (double : Double) : double.finiteValue = (double.magnitudeValue : ℝ) := by
  have units (power : ℤ) : (2 : ℝ) ^ (power - 52) = 2 ^ power / 2 ^ 52 :=
    zpow_sub₀ two_ne_zero power 52
  unfold finiteValue magnitudeValue significand
  split
  · next subnormal =>
      have power : double.scale = -1022 - 52 := by simp [scale, subnormal]
      push_cast
      rw [power, units]
      ring
  · next normal =>
      have power : double.scale = (double.exponentField : ℤ) - 1023 - 52 := by
        unfold scale
        omega
      push_cast
      rw [power, units]
      ring

/-- The parts of the canonical text of a finite double. -/
structure CanonicalParts (double : Double) (lead : Nat) (fraction : List Char) (exponent : Int)
    : Prop where
  isFinite : double.exponentField ≠ 0x7FF
  normal : double.exponentField ≠ 0 → lead = 1 ∧ -1022 ≤ exponent ∧ exponent ≤ 1023
  notNormal
    : double.exponentField = 0 →
        lead = 0 ∧ exponent = if double.fractionField = 0 then 0 else -1022
  digits : ∀ char ∈ fraction, (digit? 16 char).isSome = true
  short : fraction.length ≤ 13
  noTrailingZero : fraction.getLast? ≠ some '0'

/-- The canonical text of a double that stands for a number: a minus sign if it is negative, and
then `inf`, or a lead digit, a point with the fraction if there is one, and an exponent.
-/
inductive IsCanonicalText (double : Double) : List Char → Prop where
  | infinite
      : double.isInfinite = true →
        IsCanonicalText double ((if double.isNegative then ['-'] else []) ++ ['i', 'n', 'f'])
  | finite {lead : Nat} {fraction : List Char} {exponent : Int}
      : CanonicalParts double lead fraction exponent →
        IsCanonicalText double
          ((if double.isNegative then ['-'] else [])
            ++ '0' :: 'x' :: (mantissaChars (Nat.digitChar lead) fraction
              ++ 'p' :: (exponentText exponent).toList))

/-- The zeros at the end of a fraction are all taken off. -/
theorem getLast?_fractionDigits (fraction : Nat)
    : (fractionDigits fraction).getLast? ≠ some '0' := by
  intro isZero
  unfold fractionDigits at isZero
  simp only [List.getLast?_reverse] at isZero
  have noZero := List.head?_dropWhile_not (· = '0')
    (List.replicate (13 - (Nat.toDigits 16 fraction).length) '0'
      ++ Nat.toDigits 16 fraction).reverse
  rw [isZero] at noZero
  simp at noZero

theorem canonicalParts {double : Double} (finite : double.exponentField ≠ 0x7FF)
    : CanonicalParts double double.leadDigit (fractionDigits double.fractionField)
        double.hexExponent where
  isFinite := finite
  normal := by
    intro isNormal
    have bound := double.exponentField_lt
    refine ⟨if_neg isNormal, ?_⟩
    unfold hexExponent scale
    rw [if_neg (by simp [isZero, isNormal])]
    omega
  notNormal := by
    intro notNormal
    refine ⟨if_pos notNormal, ?_⟩
    simp [hexExponent, isZero, scale, notNormal]
  digits := by
    intro char member
    obtain ⟨_, _, _, read, _⟩ := digitsAfter?_fractionDigits double.fractionField_lt 0
    exact isSome_digit?_of_mem read member
  short := by
    obtain ⟨zeros, total, _⟩ := fractionDigits_zeros double.fractionField_lt
    omega
  noTrailingZero := getLast?_fractionDigits double.fractionField

theorem toList_sign (negative : Bool)
    : (if negative then "-" else "").toList = if negative then ['-'] else [] := by
  cases negative <;> rfl

theorem isCanonicalText_hexText {double : Double} (isNumber : double.isNaN = false)
    : double.IsCanonicalText double.hexText.toList := by
  rcases isInfinite_or_finite isNumber with infinite | finite
  · have text : double.hexText.toList
        = (if double.isNegative then ['-'] else []) ++ ['i', 'n', 'f'] := by
      simp only [hexText, isNumber, infinite, if_true, Bool.false_eq_true, if_false]
      rw [String.toList_append, toList_sign]
      rfl
    rw [text]
    exact .infinite infinite
  · rw [toList_hexText finite, toList_sign]
    exact .finite (canonicalParts finite)

/-- The text of a number reads back to its sign and its value. -/
theorem exists_numeral_of_hexText {double : Double} (isNumber : double.isNaN = false)
    : ∃ numeral, HexNumeral.ofChars? double.hexText.toList = some numeral
        ∧ numeral.isNegative = double.isNegative ∧ numeral.value? = double.value? := by
  rcases isInfinite_or_finite isNumber with infinite | finite
  · refine ⟨_, ofChars?_hexText_infinite infinite, rfl, ?_⟩
    simp [HexNumeral.value?, value?, isNumber, infinite]
  · obtain ⟨mantissa, power, read, exact⟩ := ofChars?_hexText_finite finite
    refine ⟨_, read, rfl, ?_⟩
    have real : (mantissa : ℝ) * 2 ^ power = double.finiteValue := by
      rw [finiteValue_eq, ← exact]
      push_cast
      rfl
    simp [HexNumeral.value?, value?, isNumber, not_isInfinite_of_finite finite, real]

/-- Two numbers with one text are one pattern, as both read back from it. -/
theorem eq_of_hexText_eq {double other : Double} (isNumber : double.isNaN = false)
    (otherIsNumber : other.isNaN = false) (same : other.hexText = double.hexText)
    : other = double := by
  have read := double.ofChars?_hexText
  have readOther := other.ofChars?_hexText
  rw [same, read] at readOther
  simpa [canonical, isNumber, otherIsNumber] using readOther.symm

/-- The text of every pattern that stands for a number is exact, canonical and its own. -/
theorem hexText_exact (double : Double) (isNumber : double.isNaN = false)
    : (∃ numeral, HexNumeral.ofChars? double.hexText.toList = some numeral
        ∧ numeral.isNegative = double.isNegative ∧ numeral.value? = double.value?)
      ∧ double.IsCanonicalText double.hexText.toList
      ∧ ∀ other : Double, other.isNaN = false → other.hexText = double.hexText →
          other = double :=
  ⟨exists_numeral_of_hexText isNumber, isCanonicalText_hexText isNumber,
    fun _ otherIsNumber same => eq_of_hexText_eq isNumber otherIsNumber same⟩

/-- The negative number next to zero keeps its sign and all the zeros before its last digit. -/
theorem hexText_exact_leastNegative
    : (Double.mk 0x8000000000000001).isNaN = false
      ∧ (∃ numeral, HexNumeral.ofChars? "-0x0.0000000000001p-1022".toList = some numeral
          ∧ numeral.isNegative = true
          ∧ numeral.value? = (Double.mk 0x8000000000000001).value?)
      ∧ (Double.mk 0x8000000000000001).IsCanonicalText "-0x0.0000000000001p-1022".toList := by
  have text : (Double.mk 0x8000000000000001).hexText = "-0x0.0000000000001p-1022" := by decide
  obtain ⟨reads, canonical, _⟩ := hexText_exact (Double.mk 0x8000000000000001) (by decide)
  rw [text] at reads canonical
  exact ⟨by decide, reads, canonical⟩

end Double

end ExprCompiler
