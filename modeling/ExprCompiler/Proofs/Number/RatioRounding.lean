import ExprCompiler.Number.Double
import Mathlib.Algebra.Order.Field.Power
import Mathlib.Data.Int.Log
import Mathlib.Data.Rat.Floor
import Mathlib.Tactic.FieldSimp
import Mathlib.Tactic.Linarith
import Mathlib.Tactic.NormNum
import Mathlib.Tactic.Positivity

/-! Rounding a ratio that is a double. Main statement: the double nearest to a ratio with the
value of a finite double is that double, with the sign asked for.
-/

namespace ExprCompiler.Double

/-- The magnitude of a finite double. -/
def magnitudeValue (double : Double) : ℚ :=
  double.significand * 2 ^ double.scale

theorem two_zpow_eq_div (power : Int)
    : (2 : ℚ) ^ power = 2 ^ power.toNat / 2 ^ (-power).toNat := by
  conv_lhs => rw [← Int.toNat_sub_toNat_neg power]
  rw [zpow_sub₀ two_ne_zero, zpow_natCast, zpow_natCast]

theorem shiftRatio_ratio (num den : Nat) (power : Int)
    : ((shiftRatio num den power).1 : ℚ) / (shiftRatio num den power).2
      = num / den * 2 ^ power := by
  rw [two_zpow_eq_div]
  simp only [shiftRatio, Nat.shiftLeft_eq]
  push_cast
  rw [div_mul_div_comm]

theorem shiftRatio_snd_pos {den : Nat} (positive : 0 < den) (num : Nat) (power : Int)
    : 0 < (shiftRatio num den power).2 := by
  simp only [shiftRatio, Nat.shiftLeft_eq]
  positivity

/-- The power of two below a ratio, and only it, bounds the ratio on both sides. -/
theorem log_eq_of_bounds {ratio : ℚ} {power : Int} (lower : 2 ^ power ≤ ratio)
    (upper : ratio < 2 ^ (power + 1))
    : Int.log 2 ratio = power := by
  have positive : 0 < ratio := lt_of_lt_of_le (by positivity) lower
  have atLeast := (Int.zpow_le_iff_le_log Nat.one_lt_two positive).mp (by exact_mod_cast lower)
  have below := (Int.lt_zpow_iff_log_lt Nat.one_lt_two positive).mp (by exact_mod_cast upper)
  omega

/-- A ratio is within a factor of two of the ratio of the powers of two below its parts. -/
theorem ratio_bounds {num den : Nat} (numPositive : 0 < num) (denPositive : 0 < den)
    : (2 : ℚ) ^ ((Nat.log2 num : Int) - Nat.log2 den - 1) ≤ num / den
      ∧ (num : ℚ) / den < 2 ^ ((Nat.log2 num : Int) - Nat.log2 den + 1) := by
  have numLower : (2 : ℚ) ^ Nat.log2 num ≤ num := by
    exact_mod_cast Nat.log2_self_le numPositive.ne'
  have numUpper : (num : ℚ) < 2 ^ (Nat.log2 num + 1) := by
    exact_mod_cast Nat.lt_log2_self
  have denLower : (2 : ℚ) ^ Nat.log2 den ≤ den := by
    exact_mod_cast Nat.log2_self_le denPositive.ne'
  have denUpper : (den : ℚ) < 2 ^ (Nat.log2 den + 1) := by
    exact_mod_cast Nat.lt_log2_self
  have positive : (0 : ℚ) < den := by exact_mod_cast denPositive
  constructor
  · rw [le_div_iff₀ positive]
    calc (2 : ℚ) ^ ((Nat.log2 num : Int) - Nat.log2 den - 1) * den
        ≤ 2 ^ ((Nat.log2 num : Int) - Nat.log2 den - 1) * 2 ^ (Nat.log2 den + 1) := by gcongr
      _ = 2 ^ Nat.log2 num := by
          rw [← zpow_natCast, ← zpow_add₀ two_ne_zero, ← zpow_natCast]
          congr 1
          push_cast
          ring
      _ ≤ num := numLower
  · rw [div_lt_iff₀ positive]
    calc (num : ℚ) < 2 ^ (Nat.log2 num + 1) := numUpper
      _ = 2 ^ ((Nat.log2 num : Int) - Nat.log2 den + 1) * 2 ^ Nat.log2 den := by
          rw [← zpow_natCast, ← zpow_natCast, ← zpow_add₀ two_ne_zero]
          congr 1
          push_cast
          ring
      _ ≤ 2 ^ ((Nat.log2 num : Int) - Nat.log2 den + 1) * den := by gcongr

theorem floorLog2_eq_log {num den : Nat} (numPositive : 0 < num) (denPositive : 0 < den)
    : floorLog2 num den = Int.log 2 ((num : ℚ) / den) := by
  obtain ⟨lower, upper⟩ := ratio_bounds numPositive denPositive
  set guess : Int := (Nat.log2 num : Int) - Nat.log2 den with isGuess
  have shifted := shiftRatio_ratio num den (-guess)
  have positive := shiftRatio_snd_pos denPositive num (-guess)
  have reaches : (shiftRatio num den (-guess)).2 ≤ (shiftRatio num den (-guess)).1
      ↔ (2 : ℚ) ^ guess ≤ num / den := by
    rw [← @Nat.cast_le ℚ, ← one_le_div₀ (by exact_mod_cast positive), shifted, zpow_neg,
      ← div_eq_mul_inv, one_le_div₀ (by positivity)]
  symm
  unfold floorLog2
  simp only [← isGuess]
  split
  · next atLeast => exact log_eq_of_bounds (reaches.mp atLeast) upper
  · next below =>
      refine log_eq_of_bounds lower ?_
      rw [sub_add_cancel]
      exact not_le.mp (mt reaches.mpr below)

theorem divideToEven_mul (quotient : Nat) {den : Nat} (positive : 0 < den)
    : divideToEven (quotient * den) den = quotient := by
  simp [divideToEven, Nat.mul_div_cancel _ positive, positive]

/-- A ratio that is `significand * 2 ^ scale` is rounded to these, if no smaller scale would do:
the significand has 53 bits, or the scale is the least.
-/
theorem ofRatio_of_exact {num den significand : Nat} {scale : Int} (numPositive : 0 < num)
    (denPositive : 0 < den) (exact : (num : ℚ) / den = significand * 2 ^ scale)
    (upper : significand < 2 ^ 53) (least : -1074 ≤ scale)
    (normal : 2 ^ 52 ≤ significand ∨ scale = -1074) (negative : Bool)
    : ofRatio negative num den
      = ofMagnitude negative
          (min ((scale + 1074).toNat * 2 ^ 52 + significand) infinityMagnitude) := by
  have ratioPositive : (0 : ℚ) < num / den := by positivity
  have scaled : max (floorLog2 num den - 52) (-1074) = scale := by
    rw [floorLog2_eq_log numPositive denPositive]
    have below : Int.log 2 ((num : ℚ) / den) < 53 + scale := by
      refine (Int.lt_zpow_iff_log_lt (by decide) ratioPositive).mp ?_
      push_cast
      rw [exact, zpow_add₀ two_ne_zero]
      gcongr
      exact_mod_cast upper
    rcases normal with large | atLeast
    · have above : 52 + scale ≤ Int.log 2 ((num : ℚ) / den) := by
        refine (Int.zpow_le_iff_le_log (by decide) ratioPositive).mp ?_
        push_cast
        rw [exact, zpow_add₀ two_ne_zero]
        gcongr
        exact_mod_cast large
      omega
    · omega
  have shifted := shiftRatio_ratio num den (-scale)
  have positive := shiftRatio_snd_pos denPositive num (-scale)
  have whole : (shiftRatio num den (-scale)).1 = significand * (shiftRatio num den (-scale)).2 := by
    rw [exact, mul_assoc, ← zpow_add₀ two_ne_zero, add_neg_cancel, zpow_zero, mul_one,
      div_eq_iff (by exact_mod_cast positive.ne')] at shifted
    exact_mod_cast shifted
  simp only [ofRatio, numPositive.ne', if_false, scaled, whole, divideToEven_mul _ positive,
    Nat.reducePow]

theorem exponentField_lt (double : Double) : double.exponentField < 2 ^ 11 :=
  Nat.mod_lt _ (by decide)

theorem fractionField_lt (double : Double) : double.fractionField < 2 ^ 52 :=
  Nat.mod_lt _ (by decide)

/-- The fields of a double and its sign make up its bits. -/
theorem ofMagnitude_fields (double : Double)
    : ofMagnitude double.isNegative (double.exponentField * 2 ^ 52 + double.fractionField)
      = double := by
  obtain ⟨bits⟩ := double
  have bound := bits.toNat_lt
  simp only [ofMagnitude, Double.mk.injEq]
  apply UInt64.toNat_inj.mp
  rw [UInt64.toNat_ofNat']
  simp only [isNegative, exponentField, fractionField, decide_eq_true_eq]
  split <;> omega

/-- The bits of a finite double without the sign count the doubles up to it. -/
theorem magnitude_of_finite {double : Double} (finite : double.exponentField ≠ 0x7FF)
    : min ((double.scale + 1074).toNat * 2 ^ 52 + double.significand) infinityMagnitude
      = double.exponentField * 2 ^ 52 + double.fractionField := by
  have exponentBound := double.exponentField_lt
  have fractionBound := double.fractionField_lt
  unfold scale significand infinityMagnitude
  split <;> omega

/-- A ratio with the value of a finite double is rounded to that double. -/
theorem ofRatio_magnitudeValue {double : Double} (finite : double.exponentField ≠ 0x7FF)
    {num den : Nat} (denPositive : 0 < den) (exact : (num : ℚ) / den = double.magnitudeValue)
    : ofRatio double.isNegative num den = double := by
  have fractionBound := double.fractionField_lt
  have denNonzero : (den : ℚ) ≠ 0 := by exact_mod_cast denPositive.ne'
  rcases Nat.eq_zero_or_pos num with isZero | numPositive
  · have noSignificand : double.significand = 0 := by
      rw [isZero, Nat.cast_zero, zero_div, magnitudeValue, eq_comm, mul_eq_zero] at exact
      exact_mod_cast exact.resolve_right (by positivity)
    have noFields : double.exponentField * 2 ^ 52 + double.fractionField = 0 := by
      unfold significand at noSignificand
      split at noSignificand <;> omega
    have fields := double.ofMagnitude_fields
    rw [noFields] at fields
    rw [isZero, ofRatio, if_pos rfl]
    exact fields
  · have upper : double.significand < 2 ^ 53 := by
      unfold significand
      split <;> omega
    have least : -1074 ≤ double.scale := by
      unfold scale
      omega
    have normal : 2 ^ 52 ≤ double.significand ∨ double.scale = -1074 := by
      unfold significand scale
      split
      · next subnormal => exact .inr (by omega)
      · exact .inl (by omega)
    rw [ofRatio_of_exact numPositive denPositive exact upper least normal,
      magnitude_of_finite finite, ofMagnitude_fields]

end ExprCompiler.Double
