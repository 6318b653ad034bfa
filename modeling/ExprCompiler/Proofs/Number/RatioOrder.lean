import ExprCompiler.Proofs.Number.RatioRounding

/-! Rounding keeps the order of ratios. Main statements: a larger ratio is not rounded to a smaller
double, and the bits of doubles without a sign are in the order of their values.
-/

namespace ExprCompiler.Double

/-- Rounding goes to one of the two neighbours. -/
theorem divideToEven_bounds (num den : Nat)
    : num / den ≤ divideToEven num den ∧ divideToEven num den ≤ num / den + 1 := by
  simp only [divideToEven]
  split <;> omega

/-- A larger ratio is not rounded to a smaller integer. Between the same two neighbours the larger
ratio is in the middle or above it if the smaller one is.
-/
theorem divideToEven_le {num den otherNum otherDen : Nat} (positive : 0 < den)
    (otherPositive : 0 < otherDen) (notLarger : num * otherDen ≤ otherNum * den)
    : divideToEven num den ≤ divideToEven otherNum otherDen := by
  have below := (divideToEven_bounds num den).2
  have above := (divideToEven_bounds otherNum otherDen).1
  have quotients : num / den ≤ otherNum / otherDen := by
    rw [Nat.le_div_iff_mul_le otherPositive]
    refine Nat.le_of_mul_le_mul_right ?_ positive
    calc num / den * otherDen * den = num / den * den * otherDen := by ring
      _ ≤ num * otherDen := Nat.mul_le_mul_right _ (Nat.div_mul_le_self num den)
      _ ≤ otherNum * den := notLarger
  rcases Nat.eq_or_lt_of_le quotients with same | less
  · have remainders : num % den * otherDen ≤ otherNum % otherDen * den := by
      have split := Nat.div_add_mod num den
      have otherSplit := Nat.div_add_mod otherNum otherDen
      rw [← same] at otherSplit
      rw [← split, ← otherSplit] at notLarger
      linarith
    have reaches (atMiddle : den ≤ 2 * (num % den)) : otherDen ≤ 2 * (otherNum % otherDen) := by
      refine Nat.le_of_mul_le_mul_right ?_ positive
      have scaled := Nat.mul_le_mul_right otherDen atMiddle
      linarith
    have stays (atMiddle : 2 * (otherNum % otherDen) = otherDen) : 2 * (num % den) ≤ den := by
      refine Nat.le_of_mul_le_mul_right ?_ otherPositive
      have scaled : 2 * (otherNum % otherDen) * den = otherDen * den := by rw [atMiddle]
      linarith
    simp only [divideToEven]
    split <;> split <;> omega
  · omega

/-- The power of two that the significand of a rounded ratio counts. -/
def ratioScale (num den : Nat) : Int :=
  max (floorLog2 num den - 52) (-1074)

/-- The significand of a rounded ratio. -/
def ratioSignificand (num den : Nat) (scale : Int) : Nat :=
  divideToEven (shiftRatio num den (-scale)).1 (shiftRatio num den (-scale)).2

/-- The bits of a rounded ratio without a sign. -/
theorem toNat_bits_ofRatio {num : Nat} (positive : 0 < num) (den : Nat)
    : (ofRatio false num den).bits.toNat
      = min ((ratioScale num den + 1074).toNat * 2 ^ 52
            + ratioSignificand num den (ratioScale num den))
          infinityMagnitude := by
  have cut (magnitude : Nat)
      : (ofMagnitude false (min magnitude infinityMagnitude)).bits.toNat
        = min magnitude infinityMagnitude := by
    unfold ofMagnitude infinityMagnitude
    simp only [Bool.false_eq_true, if_false, UInt64.toNat_ofNat']
    omega
  simp only [ofRatio, positive.ne', if_false, cut]
  rfl

variable {num den otherNum otherDen : Nat}

/-- Both ratios are shifted by the same power, so their order stays. -/
theorem ratioSignificand_le (denPositive : 0 < den) (otherPositive : 0 < otherDen)
    (notLarger : (num : ℚ) / den ≤ otherNum / otherDen) (scale : Int)
    : ratioSignificand num den scale ≤ ratioSignificand otherNum otherDen scale := by
  have shiftedPositive := shiftRatio_snd_pos denPositive num (-scale)
  have otherShiftedPositive := shiftRatio_snd_pos otherPositive otherNum (-scale)
  refine divideToEven_le shiftedPositive otherShiftedPositive ?_
  have shifted
      : ((shiftRatio num den (-scale)).1 : ℚ) / (shiftRatio num den (-scale)).2
        ≤ (shiftRatio otherNum otherDen (-scale)).1
          / (shiftRatio otherNum otherDen (-scale)).2 := by
    rw [shiftRatio_ratio, shiftRatio_ratio]
    gcongr
  rw [div_le_div_iff₀ (by exact_mod_cast shiftedPositive) (by exact_mod_cast otherShiftedPositive)]
    at shifted
  exact_mod_cast shifted

/-- The significand of a ratio below the next power of two has 53 bits or is that power. -/
theorem ratioSignificand_le_of_lt (denPositive : 0 < den) {scale : Int}
    (less : (num : ℚ) / den < 2 ^ (53 + scale))
    : ratioSignificand num den scale ≤ 2 ^ 53 := by
  have shiftedPositive := shiftRatio_snd_pos denPositive num (-scale)
  have shifted
      : ((shiftRatio num den (-scale)).1 : ℚ) / (shiftRatio num den (-scale)).2 ≤ 2 ^ 53 := by
    rw [shiftRatio_ratio, zpow_neg, ← div_eq_mul_inv, div_le_iff₀ (by positivity)]
    exact less.le.trans_eq (zpow_add₀ two_ne_zero 53 scale)
  rw [div_le_iff₀ (by exact_mod_cast shiftedPositive)] at shifted
  have crossed
      : (shiftRatio num den (-scale)).1 * 1 ≤ 2 ^ 53 * 1 * (shiftRatio num den (-scale)).2 := by
    rw [mul_one, mul_one]
    exact_mod_cast shifted
  have rounded := divideToEven_le shiftedPositive Nat.one_pos crossed
  rwa [divideToEven_mul _ Nat.one_pos] at rounded

/-- The significand of a ratio from a power of two on has 53 bits. -/
theorem le_ratioSignificand_of_le (denPositive : 0 < den) {scale : Int}
    (atLeast : 2 ^ (52 + scale) ≤ (num : ℚ) / den)
    : 2 ^ 52 ≤ ratioSignificand num den scale := by
  have shiftedPositive := shiftRatio_snd_pos denPositive num (-scale)
  have shifted
      : 2 ^ 52 ≤ ((shiftRatio num den (-scale)).1 : ℚ) / (shiftRatio num den (-scale)).2 := by
    rw [shiftRatio_ratio, zpow_neg, ← div_eq_mul_inv, le_div_iff₀ (by positivity)]
    exact (zpow_add₀ two_ne_zero 52 scale).symm.trans_le atLeast
  rw [le_div_iff₀ (by exact_mod_cast shiftedPositive)] at shifted
  have crossed
      : 2 ^ 52 * 1 * (shiftRatio num den (-scale)).2 ≤ (shiftRatio num den (-scale)).1 * 1 := by
    rw [mul_one, mul_one]
    exact_mod_cast shifted
  have rounded := divideToEven_le Nat.one_pos shiftedPositive crossed
  rwa [divideToEven_mul _ Nat.one_pos] at rounded

/-- A larger ratio is not rounded to a smaller double. With the same power of two the significands
are in order; a larger power makes up for any significand.
-/
theorem toNat_bits_ofRatio_le (denPositive : 0 < den) (otherPositive : 0 < otherDen)
    (notLarger : (num : ℚ) / den ≤ otherNum / otherDen)
    : (ofRatio false num den).bits.toNat ≤ (ofRatio false otherNum otherDen).bits.toNat := by
  rcases Nat.eq_zero_or_pos num with rfl | numPositive
  · exact Nat.zero_le _
  have ratioPositive : (0 : ℚ) < num / den := by positivity
  have otherNumPositive : 0 < otherNum := by
    have otherRatioPositive := ratioPositive.trans_le notLarger
    by_contra notPositive
    simp [Nat.eq_zero_of_not_pos notPositive] at otherRatioPositive
  rw [toNat_bits_ofRatio numPositive, toNat_bits_ofRatio otherNumPositive]
  refine min_le_min_right _ ?_
  have logs := Int.log_mono_right (b := 2) ratioPositive notLarger
  rw [← floorLog2_eq_log numPositive denPositive,
    ← floorLog2_eq_log otherNumPositive otherPositive] at logs
  have scales : ratioScale num den ≤ ratioScale otherNum otherDen := by
    unfold ratioScale
    omega
  rcases scales.eq_or_lt with same | less
  · rw [same]
    exact Nat.add_le_add_left (ratioSignificand_le denPositive otherPositive notLarger _) _
  · have below : (num : ℚ) / den < 2 ^ (53 + ratioScale num den) := by
      refine (Int.lt_zpow_iff_log_lt Nat.one_lt_two ratioPositive).mpr ?_
      rw [← floorLog2_eq_log numPositive denPositive]
      unfold ratioScale
      omega
    -- The larger power is not the least one, so it is that of the ratio itself.
    have atLeast : 2 ^ (52 + ratioScale otherNum otherDen) ≤ (otherNum : ℚ) / otherDen := by
      refine (Int.zpow_le_iff_le_log Nat.one_lt_two (ratioPositive.trans_le notLarger)).mpr ?_
      rw [← floorLog2_eq_log otherNumPositive otherPositive]
      unfold ratioScale at less ⊢
      omega
    have upper := ratioSignificand_le_of_lt denPositive below
    have lower := le_ratioSignificand_of_le otherPositive atLeast
    have least : -1074 ≤ ratioScale num den := le_max_right _ _
    omega

/-- The exponent of a double bounds its value from above. -/
theorem magnitudeValue_lt_two_zpow (double : Double)
    : double.magnitudeValue < 2 ^ ((double.exponentField : Int) - 1022) := by
  have fraction := double.fractionField_lt
  rcases Nat.eq_zero_or_pos double.exponentField with subnormal | normal
  · have bounded : (double.significand : ℚ) < 2 ^ 52 := by
      rw [significand, if_pos subnormal]
      exact_mod_cast fraction
    have power : (double.exponentField : Int) - 1022 = 52 + double.scale := by
      unfold scale
      omega
    rw [magnitudeValue, power, zpow_add₀ two_ne_zero]
    gcongr
    exact bounded
  · have bounded : (double.significand : ℚ) < 2 ^ 53 := by
      rw [significand, if_neg normal.ne']
      exact_mod_cast (by omega : 0x10000000000000 + double.fractionField < 2 ^ 53)
    have power : (double.exponentField : Int) - 1022 = 53 + double.scale := by
      unfold scale
      omega
    rw [magnitudeValue, power, zpow_add₀ two_ne_zero]
    gcongr
    exact bounded

/-- The exponent of a double that is not subnormal bounds its value from below. -/
theorem two_zpow_le_magnitudeValue {double : Double} (normal : 0 < double.exponentField)
    : 2 ^ ((double.exponentField : Int) - 1023) ≤ double.magnitudeValue := by
  have bounded : (2 : ℚ) ^ 52 ≤ double.significand := by
    rw [significand, if_neg normal.ne']
    exact_mod_cast (by omega : 2 ^ 52 ≤ 0x10000000000000 + double.fractionField)
  have power : (double.exponentField : Int) - 1023 = 52 + double.scale := by
    unfold scale
    omega
  rw [magnitudeValue, power, zpow_add₀ two_ne_zero]
  gcongr
  exact bounded

/-- Without a sign the bits of doubles are in the order of their values. With one exponent the
fractions are; a larger exponent makes up for any fraction.
-/
theorem magnitudeValue_lt {double other : Double} (unsigned : other.bits.toNat < 2 ^ 63)
    (less : double.bits.toNat < other.bits.toNat)
    : double.magnitudeValue < other.magnitudeValue := by
  have fields
      : double.exponentField < other.exponentField
        ∨ double.exponentField = other.exponentField
          ∧ double.fractionField < other.fractionField := by
    unfold exponentField fractionField
    omega
  rcases fields with larger | ⟨same, fractions⟩
  · calc double.magnitudeValue
        < 2 ^ ((double.exponentField : Int) - 1022) := magnitudeValue_lt_two_zpow double
      _ ≤ 2 ^ ((other.exponentField : Int) - 1023) := by
          apply zpow_le_zpow_right₀ one_le_two
          omega
      _ ≤ other.magnitudeValue := two_zpow_le_magnitudeValue (by omega)
  · have scales : double.scale = other.scale := by rw [scale, scale, same]
    have significands : double.significand < other.significand := by
      unfold significand
      rw [same]
      split <;> omega
    rw [magnitudeValue, magnitudeValue, scales]
    gcongr

theorem toNat_bits_ofRatio_lt (num den : Nat) : (ofRatio false num den).bits.toNat < 2 ^ 63 := by
  rcases Nat.eq_zero_or_pos num with rfl | positive
  · exact Nat.two_pow_pos 63
  · rw [toNat_bits_ofRatio positive]
    unfold infinityMagnitude
    omega

/-- Rounding keeps the order of the values. -/
theorem magnitudeValue_ofRatio_le (denPositive : 0 < den) (otherPositive : 0 < otherDen)
    (notLarger : (num : ℚ) / den ≤ otherNum / otherDen)
    : (ofRatio false num den).magnitudeValue
      ≤ (ofRatio false otherNum otherDen).magnitudeValue := by
  rcases (toNat_bits_ofRatio_le denPositive otherPositive notLarger).eq_or_lt with same | less
  · have equal : ofRatio false num den = ofRatio false otherNum otherDen :=
      congrArg Double.mk (UInt64.toNat_inj.mp same)
    rw [equal]
  · exact (magnitudeValue_lt (toNat_bits_ofRatio_lt ..) less).le

end ExprCompiler.Double
