import ExprCompiler.Number.Hexadecimal
import ExprCompiler.Proofs.Number.Numeral
import ExprCompiler.Proofs.Number.RatioRounding

/-! Reading the hexadecimal text of a double. Main statement: every double reads back from its
text, except that all patterns that stand for no number have one text.
-/

namespace ExprCompiler

/-- What the hexadecimal text of a double says: a mantissa is counted in a power of two. -/
inductive HexNumeral where
  | nan
  | infinite (negative : Bool)
  | finite (negative : Bool) (mantissa : Nat) (power : Int)
deriving DecidableEq, Repr

namespace HexNumeral

/-- Reads a numeral after its sign. Each hexadecimal digit of the fraction counts four binary
ones.
-/
def unsigned? (negative : Bool) : List Char → Option HexNumeral
  | ['n', 'a', 'n'] => some .nan
  | ['i', 'n', 'f'] => some (.infinite negative)
  | '0' :: 'x' :: body => do
      let (digits, exponent?) := cut 'p' body
      let (lead, fraction?) := cut '.' digits
      let fraction := fraction?.getD []
      let exponent ← signed? (← exponent?)
      let mantissa ← digitsAfter? 16 (← numeral? 16 lead) fraction
      some (.finite negative mantissa (exponent - 4 * fraction.length))
  | _ => none

/-- Reads a numeral. -/
def ofChars? : List Char → Option HexNumeral
  | '-' :: chars => unsigned? true chars
  | chars => unsigned? false chars

/-- The double of a numeral. -/
def double : HexNumeral → Double
  | .nan => .nan
  | .infinite negative => .infinity negative
  | .finite negative mantissa power =>
      let (num, den) := Double.shiftRatio mantissa 1 power
      .ofRatio negative num den

end HexNumeral

namespace Double

/-- One pattern for all that stand for no number. -/
def canonical (double : Double) : Double :=
  if double.isNaN then .nan else double

/-- The digits of a fraction with the zeros that were taken off. -/
theorem fractionDigits_zeros {fraction : Nat} (bound : fraction < 2 ^ 52)
    : ∃ zeros, (fractionDigits fraction).length + zeros = 13
      ∧ digitsAfter? 16 0 (fractionDigits fraction ++ List.replicate zeros '0')
        = some fraction := by
  have short : (Nat.toDigits 16 fraction).length ≤ 13 :=
    (Nat.length_toDigits_le_iff (by decide) (by decide)).mpr (by omega)
  set padded := List.replicate (13 - (Nat.toDigits 16 fraction).length) '0'
    ++ Nat.toDigits 16 fraction with isPadded
  have padding : padded.length = 13 := by
    rw [isPadded, List.length_append, List.length_replicate]
    omega
  have value : digitsAfter? 16 0 padded = some fraction := by
    rw [isPadded, digitsAfter?_append, digitsAfter?_zeros (by decide) (by decide), zero_mul]
    exact digitsAfter?_toDigits (by decide) (by decide) fraction
  set zeros := padded.reverse.takeWhile (· = '0') with isZeros
  have split : padded = fractionDigits fraction ++ List.replicate zeros.length '0' := by
    have allZeros : zeros.reverse = List.replicate zeros.length '0' := by
      refine List.eq_replicate_iff.mpr ⟨List.length_reverse, fun char member => ?_⟩
      simpa using List.mem_takeWhile_imp (List.mem_reverse.mp member)
    calc padded = padded.reverse.reverse := padded.reverse_reverse.symm
      _ = (zeros ++ padded.reverse.dropWhile (· = '0')).reverse := by
          rw [isZeros, List.takeWhile_append_dropWhile]
      _ = fractionDigits fraction ++ List.replicate zeros.length '0' := by
          rw [List.reverse_append, allZeros]
          rfl
  refine ⟨zeros.length, ?_, split ▸ value⟩
  rw [split, List.length_append, List.length_replicate] at padding
  exact padding

/-- A fraction after a lead digit, as a mantissa that the zeros would scale to 52 bits. -/
theorem digitsAfter?_fractionDigits {fraction : Nat} (bound : fraction < 2 ^ 52) (lead : Nat)
    : ∃ mantissa zeros, (fractionDigits fraction).length + zeros = 13
      ∧ digitsAfter? 16 lead (fractionDigits fraction) = some mantissa
      ∧ mantissa * 16 ^ zeros = lead * 2 ^ 52 + fraction := by
  obtain ⟨zeros, total, value⟩ := fractionDigits_zeros bound
  rw [digitsAfter?_append] at value
  obtain ⟨short, read, scaled⟩ := Option.bind_eq_some_iff.mp value
  rw [digitsAfter?_zeros (by decide) (by decide), Option.some.injEq] at scaled
  refine ⟨lead * 16 ^ (fractionDigits fraction).length + short, zeros, total, ?_, ?_⟩
  · rw [digitsAfter?_eq, read]
    rfl
  · calc (lead * 16 ^ (fractionDigits fraction).length + short) * 16 ^ zeros
        = lead * 16 ^ ((fractionDigits fraction).length + zeros) + short * 16 ^ zeros := by ring
      _ = lead * 2 ^ 52 + fraction := by
          rw [total, scaled]
          norm_num

theorem signed?_exponentText (exponent : Int)
    : signed? (exponentText exponent).toList = some exponent := by
  unfold exponentText
  split
  · next negative =>
      rw [String.toList_append]
      refine (signed?_minus _).trans ?_
      congr 1
      omega
  · next notNegative =>
      rw [String.toList_append]
      refine (signed?_plus _).trans ?_
      congr 1
      omega

/-- The characters of a mantissa: a lead digit, and a point before the fraction if there is
one.
-/
def mantissaChars (lead : Char) (fraction : List Char) : List Char :=
  lead :: if fraction.isEmpty then [] else '.' :: fraction

theorem unsigned?_mantissaChars {lead : Nat} (isDigit : lead < 16) {fraction : List Char}
    {mantissa : Nat} (read : digitsAfter? 16 lead fraction = some mantissa) (negative : Bool)
    (exponent : Int)
    : HexNumeral.unsigned? negative
        ('0' :: 'x' :: (mantissaChars (Nat.digitChar lead) fraction
          ++ 'p' :: (exponentText exponent).toList))
      = some (.finite negative mantissa (exponent - 4 * fraction.length)) := by
  have digits : ∀ char ∈ Nat.digitChar lead :: fraction, (digit? 16 char).isSome = true := by
    intro char member
    rcases List.mem_cons.mp member with rfl | inFraction
    · rw [digit?_digitChar (by decide) isDigit]
      rfl
    · exact isSome_digit?_of_mem read inFraction
  -- neither mark is a digit, so that each cut is made at the mark itself
  have noPower : 'p' ∉ mantissaChars (Nat.digitChar lead) fraction := by
    have absent :=
      not_mem_of_digit? (by decide) digits (by decide : ∀ d < 16, Nat.digitChar d ≠ 'p')
    unfold mantissaChars
    split <;> simp_all
  have points : cut '.' (mantissaChars (Nat.digitChar lead) fraction)
      = ([Nat.digitChar lead], if fraction.isEmpty then none else some fraction) := by
    have absent :=
      not_mem_of_digit? (by decide) digits (by decide : ∀ d < 16, Nat.digitChar d ≠ '.')
    have noPoint : '.' ∉ [Nat.digitChar lead] := by simp_all
    unfold mantissaChars
    split
    · exact cut_of_not_mem noPoint
    · exact cut_append noPoint fraction
  have leadValue : numeral? 16 [Nat.digitChar lead] = some lead := by
    simp [numeral?, digitsAfter?, digit?_digitChar (by decide) isDigit]
  have fractionPart : (if fraction.isEmpty then none else some fraction).getD [] = fraction := by
    cases fraction <;> rfl
  simp only [HexNumeral.unsigned?, cut_append noPower, points, fractionPart]
  simp [signed?_exponentText, leadValue, read]

/-- A numeral with the value of a finite double is read as that double. -/
theorem double_finite {double : Double} (finite : double.exponentField ≠ 0x7FF) {mantissa : Nat}
    {power : Int} (exact : (mantissa : ℚ) * 2 ^ power = double.magnitudeValue)
    : (HexNumeral.finite double.isNegative mantissa power).double = double := by
  have positive := shiftRatio_snd_pos one_pos mantissa power
  refine ofRatio_magnitudeValue finite positive ((shiftRatio_ratio ..).trans ?_)
  rw [Nat.cast_one, div_one, exact]

/-- The sign in front of a numeral decides how the rest is read. -/
theorem ofChars?_sign (negative : Bool) {chars : List Char} (noMinus : chars.head? ≠ some '-')
    : HexNumeral.ofChars? ((if negative then "-" else "").toList ++ chars)
      = HexNumeral.unsigned? negative chars := by
  cases negative with
  | true => rfl
  | false =>
      simp only [Bool.false_eq_true, if_false]
      change HexNumeral.ofChars? chars = _
      unfold HexNumeral.ofChars?
      split
      · simp at noMinus
      · rfl

theorem toList_finiteText (sign exponent : String) (subnormal : Prop) [Decidable subnormal]
    (digits : List Char)
    : (sign ++ "0x" ++ (if subnormal then "0" else "1")
        ++ (if digits.isEmpty then "" else "." ++ String.ofList digits) ++ "p" ++ exponent).toList
      = sign.toList
        ++ '0' :: 'x' :: (mantissaChars (Nat.digitChar (if subnormal then 0 else 1)) digits
          ++ 'p' :: exponent.toList) := by
  unfold mantissaChars
  cases digits <;> by_cases subnormal <;> simp_all [String.toList_append, Nat.digitChar]

theorem double_infinite {double : Double} (infinite : double.isInfinite = true)
    : (HexNumeral.infinite double.isNegative).double = double := by
  simp only [isInfinite, Bool.and_eq_true, decide_eq_true_eq] at infinite
  have fields := double.ofMagnitude_fields
  rw [infinite.1, infinite.2, Nat.add_zero] at fields
  exact fields

/-- The lead digit in the text of a finite double. -/
def leadDigit (double : Double) : Nat :=
  if double.exponentField = 0 then 0 else 1

/-- The exponent in the text of a finite double. -/
def hexExponent (double : Double) : Int :=
  if double.isZero then 0 else double.scale + 52

theorem not_isNaN_of_finite {double : Double} (finite : double.exponentField ≠ 0x7FF)
    : double.isNaN = false := by
  simp [isNaN, finite]

theorem not_isInfinite_of_finite {double : Double} (finite : double.exponentField ≠ 0x7FF)
    : double.isInfinite = false := by
  simp [isInfinite, finite]

/-- The text of a finite double. That of a zero has the same form as all others. -/
theorem toList_hexText {double : Double} (finite : double.exponentField ≠ 0x7FF)
    : double.hexText.toList
      = (if double.isNegative then "-" else "").toList
        ++ '0' :: 'x' :: (mantissaChars (Nat.digitChar double.leadDigit)
            (fractionDigits double.fractionField)
          ++ 'p' :: (exponentText double.hexExponent).toList) := by
  have number := not_isNaN_of_finite finite
  have bounded := not_isInfinite_of_finite finite
  unfold hexText leadDigit hexExponent
  by_cases isZero : double.isZero
  · simp only [number, bounded, isZero, if_true, Bool.false_eq_true, if_false]
    simp only [Double.isZero, Bool.and_eq_true, decide_eq_true_eq] at isZero
    rw [String.toList_append, isZero.1, isZero.2]
    rfl
  · simp only [number, bounded, isZero, Bool.false_eq_true, if_false]
    rw [toList_finiteText]

/-- The significand of a finite double, from the digits of its text. -/
theorem leadDigit_significand (double : Double)
    : double.leadDigit * 2 ^ 52 + double.fractionField = double.significand := by
  unfold leadDigit significand
  split <;> omega

/-- Digits count the significand in a power of two. For a zero every power will do. -/
theorem mantissa_magnitude {double : Double} {mantissa fractionLength zeros : Nat}
    (total : fractionLength + zeros = 13) (scaled : mantissa * 16 ^ zeros = double.significand)
    : (mantissa : ℚ) * 2 ^ (double.hexExponent - 4 * fractionLength)
      = double.magnitudeValue := by
  unfold hexExponent magnitudeValue
  by_cases isZero : double.isZero
  · have noSignificand : double.significand = 0 := by
      simp only [Double.isZero, Bool.and_eq_true, decide_eq_true_eq] at isZero
      simp [significand, isZero]
    have noMantissa : mantissa = 0 := by
      rw [noSignificand] at scaled
      exact (Nat.mul_eq_zero.mp scaled).resolve_right (by positivity)
    rw [noMantissa, noSignificand, Nat.cast_zero, zero_mul, zero_mul]
  · have power : double.scale + 52 - 4 * (fractionLength : Int)
        = (4 * zeros : Nat) + double.scale := by
      push_cast
      omega
    rw [if_neg isZero, ← scaled, power, zpow_add₀ two_ne_zero, zpow_natCast, pow_mul, ← mul_assoc]
    norm_num

/-- The text of a finite double says its sign and its exact magnitude. -/
theorem ofChars?_hexText_finite {double : Double} (finite : double.exponentField ≠ 0x7FF)
    : ∃ mantissa power,
        HexNumeral.ofChars? double.hexText.toList
          = some (.finite double.isNegative mantissa power)
        ∧ (mantissa : ℚ) * 2 ^ power = double.magnitudeValue := by
  have isDigit : double.leadDigit < 16 := by
    unfold leadDigit
    split <;> decide
  obtain ⟨mantissa, zeros, total, read, scaled⟩ :=
    digitsAfter?_fractionDigits double.fractionField_lt double.leadDigit
  refine ⟨mantissa, _, ?_, mantissa_magnitude total (scaled.trans double.leadDigit_significand)⟩
  rw [toList_hexText finite, ofChars?_sign _ (by simp), unsigned?_mantissaChars isDigit read]

/-- The text of an infinity says its sign. -/
theorem ofChars?_hexText_infinite {double : Double} (infinite : double.isInfinite = true)
    : HexNumeral.ofChars? double.hexText.toList = some (.infinite double.isNegative) := by
  have number : double.isNaN = false := by
    simp only [isInfinite, Bool.and_eq_true, decide_eq_true_eq] at infinite
    simp [isNaN, infinite]
  simp only [hexText, number, infinite, if_true, Bool.false_eq_true, if_false]
  rw [String.toList_append, ofChars?_sign _ (by decide)]
  rfl

/-- A pattern that stands for a number is infinite or finite. -/
theorem isInfinite_or_finite {double : Double} (isNumber : double.isNaN = false)
    : double.isInfinite = true ∨ double.exponentField ≠ 0x7FF := by
  by_cases full : double.exponentField = 0x7FF
  · have noFraction : double.fractionField = 0 := by simpa [isNaN, full] using isNumber
    exact .inl (by simp [isInfinite, full, noFraction])
  · exact .inr full

/-- Every double reads back from its text. -/
theorem ofChars?_hexText (double : Double)
    : (HexNumeral.ofChars? double.hexText.toList).map HexNumeral.double
      = some double.canonical := by
  unfold canonical
  cases isNumber : double.isNaN with
  | true =>
      simp only [hexText, isNumber, if_true]
      rfl
  | false =>
      rcases isInfinite_or_finite isNumber with infinite | finite
      · rw [ofChars?_hexText_infinite infinite]
        exact congrArg some (double_infinite infinite)
      · obtain ⟨mantissa, power, read, exact⟩ := ofChars?_hexText_finite finite
        rw [read]
        exact congrArg some (double_finite finite exact)

end Double

end ExprCompiler
