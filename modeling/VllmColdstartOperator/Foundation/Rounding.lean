import Mathlib

/-!
# Rounding to a binary format

The float model of the language shifts a mantissa to the exponent its format asks
for, keeps a round and a sticky bit of what falls off, and rounds to nearest, ties
to even.  A rounded number is at most a normal number of the format with an even
mantissa exactly when the exact number is at most half a unit above it.
-/

namespace VllmColdstartOperator.Foundation.Rounding

open Float.Model Float.Model.UnpackedFloat

/-! ## The bits beside a mantissa -/

/-- The bits kept beside a mantissa tell where the exact value lies. -/
structure Describes (extended : ExtendedMantissa) (exact : ℚ) : Prop where
  atLeast : extended.mantissa ≤ exact
  below : exact < extended.mantissa + 1
  roundBit : extended.roundBit = true ↔ extended.mantissa + 1 / 2 ≤ exact
  stickyBit : extended.stickyBit = false ↔
    exact = extended.mantissa + if extended.roundBit then 1 / 2 else 0

theorem describes_exact (mantissa : Nat) :
    Describes (ExtendedMantissa.ofMantissaAndAccuracy mantissa .exact) mantissa where
  atLeast := le_rfl
  below := lt_add_one _
  roundBit := by simp [ExtendedMantissa.ofMantissaAndAccuracy]
  stickyBit := by simp [ExtendedMantissa.ofMantissaAndAccuracy]

theorem describes_div (numerator : Nat) {denominator : Nat} (hpos : 0 < denominator) :
    Describes (ExtendedMantissa.ofMantissaAndAccuracy (numerator / denominator)
      (accuracyOfFraction (numerator % denominator) denominator))
        ((numerator : ℚ) / denominator) := by
  generalize hquotient : numerator / denominator = quotient
  generalize hrest : numerator % denominator = rest
  have hden : (0 : ℚ) < denominator := by exact_mod_cast hpos
  have hlt : (rest : ℚ) / denominator < 1 := by
    rw [div_lt_one hden]
    exact_mod_cast hrest ▸ Nat.mod_lt numerator hpos
  have hvalue : (numerator : ℚ) / denominator = quotient + rest / denominator := by
    rw [← Nat.div_add_mod numerator denominator, hquotient, hrest]
    push_cast
    field_simp
  rw [accuracyOfFraction, hvalue]
  by_cases hzero : rest = 0
  · rw [if_pos hzero, hzero, Nat.cast_zero, zero_div, add_zero]
    exact describes_exact quotient
  have hpositive : 0 < (rest : ℚ) / denominator := by
    apply div_pos _ hden
    exact_mod_cast Nat.pos_of_ne_zero hzero
  rw [if_neg hzero]
  cases hcompare : compare (2 * rest) denominator with
  | lt =>
      have hhalf : (rest : ℚ) / denominator < 1 / 2 := by
        rw [div_lt_div_iff₀ hden two_pos, one_mul, mul_comm]
        exact_mod_cast Nat.compare_eq_lt.mp hcompare
      constructor <;> simp [ExtendedMantissa.ofMantissaAndAccuracy, hzero, hpos.ne'] <;> linarith
  | eq =>
      have hhalf : (rest : ℚ) / denominator = 1 / 2 := by
        rw [div_eq_div_iff hden.ne' two_ne_zero, one_mul, mul_comm]
        exact_mod_cast Nat.compare_eq_eq.mp hcompare
      constructor <;> norm_num [ExtendedMantissa.ofMantissaAndAccuracy, hhalf]
  | gt =>
      have hhalf : 1 / 2 < (rest : ℚ) / denominator := by
        rw [div_lt_div_iff₀ two_pos hden, one_mul, mul_comm]
        exact_mod_cast Nat.compare_eq_gt.mp hcompare
      constructor <;> simp [ExtendedMantissa.ofMantissaAndAccuracy] <;> linarith

theorem Describes.shiftRightOne {extended : ExtendedMantissa} {exact : ℚ}
    (hdescribes : Describes extended exact) :
    Describes extended.shiftRightOne (exact / 2) := by
  obtain ⟨mantissa, roundBit, stickyBit⟩ := extended
  obtain ⟨hatLeast, hbelow, hround, hsticky⟩ := hdescribes
  dsimp only at hatLeast hbelow hround hsticky
  have hsplit : (mantissa : ℚ) = 2 * (mantissa / 2 : ℕ) + (mantissa % 2 : ℕ) := by
    exact_mod_cast (Nat.div_add_mod mantissa 2).symm
  have hexact : (roundBit || stickyBit) = false ↔ exact = mantissa := by
    cases roundBit with
    | false => simpa using hsticky
    | true =>
        have hhalf := hround.mp rfl
        refine iff_of_false (by simp) ?_
        linarith
  rw [ExtendedMantissa.shiftRightOne]
  rcases Nat.mod_two_eq_zero_or_one mantissa with hparity | hparity
  · rw [hparity, Nat.cast_zero, add_zero] at hsplit
    constructor
    · dsimp only
      linarith
    · dsimp only
      linarith
    · rw [hparity]
      refine iff_of_false (by simp) ?_
      linarith
    · rw [hexact, hparity, hsplit]
      simp [div_eq_iff, mul_comm]
  · rw [hparity, Nat.cast_one] at hsplit
    constructor
    · dsimp only
      linarith
    · dsimp only
      linarith
    · rw [hparity]
      refine iff_of_true (by simp) ?_
      linarith
    · rw [hexact, hparity, hsplit, div_eq_iff two_ne_zero]
      simp only [bne_iff_ne, ne_eq, one_ne_zero, not_false_eq_true, if_true]
      constructor <;> intro heq <;> linarith

theorem Describes.shiftRight {extended : ExtendedMantissa} {exact : ℚ}
    (hdescribes : Describes extended exact) (shift : Nat) :
    Describes (extended >>> shift) (exact / 2 ^ shift) := by
  induction shift with
  | zero =>
      rw [pow_zero, div_one]
      exact hdescribes
  | succ shift ih =>
      rw [pow_succ, ← div_div]
      exact ih.shiftRightOne

/-! ## Rounding to an integer -/

section Rounded

variable {extended : ExtendedMantissa} {exact : ℚ}

/-- Half a unit above an even integer still rounds down to it. -/
theorem Describes.rounded_le_iff (hdescribes : Describes extended exact) {bound : Nat}
    (heven : bound % 2 = 0) : extended.roundedMantissa ≤ bound ↔ exact ≤ bound + 1 / 2 := by
  obtain ⟨mantissa, roundBit, stickyBit⟩ := extended
  obtain ⟨hatLeast, hbelow, hround, hsticky⟩ := hdescribes
  dsimp only at hatLeast hbelow hround hsticky
  have hcast : ∀ {low high : Nat}, (low : ℚ) < high + 1 ↔ low ≤ high := by
    intro low high
    rw [← Nat.lt_succ_iff]
    exact_mod_cast Iff.rfl
  cases roundBit with
  | false =>
      have hhalf : exact < mantissa + 1 / 2 := by
        simpa using hround
      have hrounded : ExtendedMantissa.roundedMantissa ⟨mantissa, false, stickyBit⟩ = mantissa := by
        cases stickyBit <;> rfl
      rw [hrounded, ← hcast]
      constructor
      · intro hle
        rw [hcast] at hle
        have hle : (mantissa : ℚ) ≤ bound := by exact_mod_cast hle
        linarith
      · intro hle
        linarith
  | true =>
      have hhalf := hround.mp rfl
      cases stickyBit with
      | false =>
          have hexact := hsticky.mp rfl
          rw [if_pos rfl] at hexact
          have hrounded : ExtendedMantissa.roundedMantissa ⟨mantissa, true, false⟩ ≤ bound ↔
              mantissa ≤ bound := by
            change mantissa + mantissa % 2 ≤ bound ↔ mantissa ≤ bound
            omega
          rw [hrounded, hexact, add_le_add_iff_right]
          exact_mod_cast Iff.rfl
      | true =>
          have hne : exact ≠ mantissa + 1 / 2 := by
            simpa using hsticky
          have hlt : (mantissa : ℚ) + 1 / 2 < exact := lt_of_le_of_ne hhalf hne.symm
          change mantissa + 1 ≤ bound ↔ _
          constructor
          · intro hle
            have hle : (mantissa : ℚ) + 1 ≤ bound := by exact_mod_cast hle
            linarith
          · intro hle
            have hlt : (mantissa : ℚ) < bound := by linarith
            exact_mod_cast hlt

theorem Describes.rounded_eq {bound : Nat} (hdescribes : Describes extended bound) :
    extended.roundedMantissa = bound := by
  obtain ⟨mantissa, roundBit, stickyBit⟩ := extended
  obtain ⟨hatLeast, hbelow, hround, hsticky⟩ := hdescribes
  dsimp only at hatLeast hbelow hround hsticky
  have hmantissa : mantissa = bound := by
    have hle : mantissa ≤ bound := by exact_mod_cast hatLeast
    have hlt : bound < mantissa + 1 := by exact_mod_cast hbelow
    omega
  cases roundBit with
  | true =>
      have hhalf := hround.mp rfl
      rw [hmantissa] at hhalf
      linarith
  | false =>
      rw [← hmantissa]
      cases stickyBit <;> rfl

theorem Describes.le_rounded (hdescribes : Describes extended exact) {bound : Nat}
    (hbound : bound ≤ exact) : bound ≤ extended.roundedMantissa := by
  have hmantissa : extended.mantissa ≤ extended.roundedMantissa := by
    obtain ⟨mantissa, roundBit, stickyBit⟩ := extended
    cases roundBit <;> cases stickyBit <;>
      simp [ExtendedMantissa.roundedMantissa, ExtendedMantissa.accuracy,
        Accuracy.roundToNearestEven]
  have hlt : bound < extended.mantissa + 1 := by
    exact_mod_cast hbound.trans_lt hdescribes.below
  omega

theorem Describes.rounded_bounds (hdescribes : Describes extended exact) {fraction : Nat}
    (hatLeast : 2 ^ fraction ≤ exact) (hbelow : exact < 2 ^ (fraction + 1)) :
    2 ^ fraction ≤ extended.roundedMantissa ∧
      extended.roundedMantissa ≤ 2 ^ (fraction + 1) := by
  constructor
  · exact hdescribes.le_rounded (by exact_mod_cast hatLeast)
  · rw [hdescribes.rounded_le_iff (by rw [pow_succ]; omega)]
    push_cast
    linarith

end Rounded

/-! ## Rounding to a format -/

section Format

variable (spec : Format)

abbrev fractionBits : Nat := spec.mantissaBitsWithoutImplicit

/-- A mantissa that fills the format, with an exponent of it. -/
structure Normal (mantissa : Nat) (exponent : ℤ) : Prop where
  atLeast : 2 ^ fractionBits spec ≤ mantissa
  below : mantissa < 2 ^ (fractionBits spec + 1)
  exponent : spec.minExponent ≤ exponent

variable {spec}

theorem targetExponent_eq {mantissa : Nat} {exponent : ℤ}
    (hlow : 2 ^ fractionBits spec ≤ mantissa) (hmin : spec.minExponent ≤ exponent) :
    spec.targetExponent (totalExponent mantissa exponent) =
      exponent + (mantissa.log2 - fractionBits spec : ℕ) := by
  have hlog : fractionBits spec ≤ mantissa.log2 :=
    (Nat.le_log2 (Nat.ne_of_gt (Nat.lt_of_lt_of_le (Nat.two_pow_pos _) hlow))).mpr hlow
  rw [Format.targetExponent, totalExponent, Format.mantissaBits]
  unfold fractionBits at hlog ⊢
  omega

theorem Normal.log2 {mantissa : Nat} {exponent : ℤ} (hnormal : Normal spec mantissa exponent) :
    mantissa.log2 = fractionBits spec :=
  (Nat.log2_eq_iff (Nat.ne_of_gt (Nat.lt_of_lt_of_le (Nat.two_pow_pos _) hnormal.atLeast))).mpr
    ⟨hnormal.atLeast, hnormal.below⟩

theorem carried {rounded : Nat} {exponent : ℤ} (hlow : 2 ^ fractionBits spec ≤ rounded)
    (hhigh : rounded ≤ 2 ^ (fractionBits spec + 1)) (hmin : spec.minExponent ≤ exponent) :
    Normal spec (shiftToTargetExponent spec rounded exponent .exact).1.mantissa
        (shiftToTargetExponent spec rounded exponent .exact).2 ∧
      ((shiftToTargetExponent spec rounded exponent .exact).1.mantissa : ℚ) *
          2 ^ (shiftToTargetExponent spec rounded exponent .exact).2 =
        rounded * 2 ^ exponent := by
  have htarget := targetExponent_eq hlow hmin
  rcases Nat.lt_or_eq_of_le hhigh with hlt | heq
  · have hlog : rounded.log2 = fractionBits spec := Normal.log2 ⟨hlow, hlt, hmin⟩
    have hshifted : shiftToTargetExponent spec rounded exponent .exact =
        (⟨rounded, false, false⟩, exponent) := by
      rw [shiftToTargetExponent, htarget, hlog, Nat.sub_self, Nat.cast_zero, add_zero,
        shiftToExponent, sub_self, Int.toNat_zero, Nat.cast_zero, add_zero]
      rfl
    rw [hshifted]
    exact ⟨⟨hlow, hlt, hmin⟩, rfl⟩
  · have hlog : rounded.log2 = fractionBits spec + 1 := by
      rw [heq, Nat.log2_two_pow]
    have hshifted : shiftToTargetExponent spec rounded exponent .exact =
        (⟨rounded / 2, rounded % 2 != 0, false⟩, exponent + 1) := by
      rw [shiftToTargetExponent, htarget, hlog, Nat.add_sub_cancel_left, Nat.cast_one,
        shiftToExponent, add_sub_cancel_left]
      rfl
    have hhalf : rounded / 2 = 2 ^ fractionBits spec := by
      rw [heq, pow_succ, Nat.mul_div_cancel _ two_pos]
    rw [hshifted, hhalf, heq]
    refine ⟨⟨le_rfl, Nat.pow_lt_pow_succ (by decide), hmin.trans (by omega)⟩, ?_⟩
    rw [zpow_add_one₀ two_ne_zero]
    push_cast
    ring

/-- What rounds: the exact value at the exponent of the format, and one carry. -/
theorem roundWithAccuracy_eq (sign : Sign) {mantissa : Nat} {exponent : ℤ}
    (hlow : 2 ^ fractionBits spec ≤ mantissa) (hmin : spec.minExponent ≤ exponent)
    (accuracy : Accuracy) {exact : ℚ}
    (hdescribes : Describes (ExtendedMantissa.ofMantissaAndAccuracy mantissa accuracy) exact) :
    ∃ (shift : ℕ) (shifted : ExtendedMantissa) (result : ℕ) (resultExponent : ℤ)
        (hpos : 0 < result),
      Describes shifted (exact / 2 ^ shift) ∧
      2 ^ fractionBits spec ≤ exact / 2 ^ shift ∧
      exact / 2 ^ shift < 2 ^ (fractionBits spec + 1) ∧
      Normal spec result resultExponent ∧
      roundWithAccuracy spec sign mantissa exponent accuracy =
        .finite sign result resultExponent hpos ∧
      (result : ℚ) * 2 ^ resultExponent =
        shifted.roundedMantissa * 2 ^ (exponent + shift) := by
  have hpos : mantissa ≠ 0 := Nat.ne_of_gt (Nat.lt_of_lt_of_le (Nat.two_pow_pos _) hlow)
  have hlog : fractionBits spec ≤ mantissa.log2 := (Nat.le_log2 hpos).mpr hlow
  have hmantissa : (ExtendedMantissa.ofMantissaAndAccuracy mantissa accuracy).mantissa =
      mantissa := by
    cases accuracy with
    | exact => rfl
    | inexact order => cases order <;> rfl
  set shift := mantissa.log2 - fractionBits spec with hshift
  set shifted := ExtendedMantissa.ofMantissaAndAccuracy mantissa accuracy >>> shift with hshifted
  have hbits := hdescribes.shiftRight shift
  have hpower : (0 : ℚ) < 2 ^ shift := by positivity
  have hatLeast : (2 : ℚ) ^ fractionBits spec ≤ exact / 2 ^ shift := by
    rw [le_div_iff₀ hpower, ← pow_add]
    refine le_trans ?_ hdescribes.atLeast
    rw [hmantissa, Nat.add_sub_cancel' hlog]
    exact_mod_cast Nat.log2_self_le hpos
  have hbelow : exact / 2 ^ shift < (2 : ℚ) ^ (fractionBits spec + 1) := by
    rw [div_lt_iff₀ hpower, ← pow_add]
    refine hdescribes.below.trans_le ?_
    have hexponent : fractionBits spec + 1 + shift = mantissa.log2 + 1 := by omega
    rw [hmantissa, hexponent]
    exact_mod_cast Nat.lt_log2_self
  obtain ⟨hrounded, hcarry⟩ := hbits.rounded_bounds hatLeast hbelow
  have hfirst : shiftToTargetExponent spec mantissa exponent accuracy =
      (shifted, exponent + shift) := by
    rw [shiftToTargetExponent, targetExponent_eq hlow hmin, shiftToExponent,
      add_sub_cancel_left, Int.toNat_natCast]
  obtain ⟨hnormal, hvalue⟩ := carried hrounded hcarry
    (hmin.trans (Int.le_add_of_nonneg_right (Int.natCast_nonneg shift)))
  have hresult := Nat.lt_of_lt_of_le (Nat.two_pow_pos _) hnormal.atLeast
  refine ⟨shift, shifted, _, _, hresult, hbits, hatLeast, hbelow, hnormal, ?_, hvalue⟩
  rw [roundWithAccuracy, hfirst]
  exact dif_neg (Nat.ne_of_gt hresult)

/-! ## The order of rounded values -/

theorem scaled_le_scaled {fraction : Nat} {low high : ℚ} {lowExponent highExponent : ℤ}
    (hlow : low ≤ 2 ^ (fraction + 1)) (hhigh : 2 ^ fraction ≤ high)
    (hlt : lowExponent < highExponent) : low * 2 ^ lowExponent ≤ high * 2 ^ highExponent := by
  calc low * 2 ^ lowExponent
      ≤ 2 ^ (fraction + 1) * 2 ^ lowExponent := by gcongr
    _ = 2 ^ fraction * 2 ^ (lowExponent + 1) := by
        rw [zpow_add_one₀ two_ne_zero, pow_succ]
        ring
    _ ≤ 2 ^ fraction * 2 ^ highExponent := by
        gcongr
        · norm_num
        · omega
    _ ≤ high * 2 ^ highExponent := by gcongr

theorem scaled_lt_scaled {fraction : Nat} {low high : ℚ} {lowExponent highExponent : ℤ}
    (hlow : low < 2 ^ (fraction + 1)) (hhigh : 2 ^ fraction ≤ high)
    (hlt : lowExponent < highExponent) : low * 2 ^ lowExponent < high * 2 ^ highExponent := by
  calc low * 2 ^ lowExponent
      < 2 ^ (fraction + 1) * 2 ^ lowExponent := by gcongr
    _ ≤ high * 2 ^ highExponent := scaled_le_scaled le_rfl hhigh hlt

theorem scaled_injective {fraction : Nat} {left right : ℚ} {leftExponent rightExponent : ℤ}
    (hleft : 2 ^ fraction ≤ left ∧ left < 2 ^ (fraction + 1))
    (hright : 2 ^ fraction ≤ right ∧ right < 2 ^ (fraction + 1))
    (hequal : left * 2 ^ leftExponent = right * 2 ^ rightExponent) :
    left = right ∧ leftExponent = rightExponent := by
  rcases lt_trichotomy leftExponent rightExponent with hlt | heq | hgt
  · exact absurd hequal (scaled_lt_scaled hleft.2 hright.1 hlt).ne
  · rw [heq] at hequal
    exact ⟨mul_right_cancel₀ (zpow_ne_zero _ two_ne_zero) hequal, heq⟩
  · exact absurd hequal (scaled_lt_scaled hright.2 hleft.1 hgt).ne'

theorem Normal.bounds {mantissa : Nat} {exponent : ℤ} (hnormal : Normal spec mantissa exponent) :
    (2 : ℚ) ^ fractionBits spec ≤ mantissa ∧ (mantissa : ℚ) < 2 ^ (fractionBits spec + 1) := by
  constructor
  · exact_mod_cast hnormal.atLeast
  · exact_mod_cast hnormal.below

theorem roundWithAccuracy_order (sign : Sign) {mantissa : Nat} {exponent : ℤ}
    (hlow : 2 ^ fractionBits spec ≤ mantissa) (hmin : spec.minExponent ≤ exponent)
    (accuracy : Accuracy) {exact : ℚ}
    (hdescribes : Describes (ExtendedMantissa.ofMantissaAndAccuracy mantissa accuracy) exact) :
    ∃ (result : ℕ) (resultExponent : ℤ) (hpos : 0 < result),
      roundWithAccuracy spec sign mantissa exponent accuracy =
        .finite sign result resultExponent hpos ∧
      Normal spec result resultExponent ∧
      ∀ bound boundExponent, Normal spec bound boundExponent →
        (bound % 2 = 0 → ((result : ℚ) * 2 ^ resultExponent ≤ bound * 2 ^ boundExponent ↔
          exact * 2 ^ exponent ≤ (bound + 1 / 2) * 2 ^ boundExponent)) ∧
        (exact * 2 ^ exponent = bound * 2 ^ boundExponent →
          result = bound ∧ resultExponent = boundExponent) := by
  obtain ⟨shift, shifted, result, resultExponent, hpos, hbits, hatLeast, hbelow, hnormal,
    hround, hvalue⟩ := roundWithAccuracy_eq sign hlow hmin accuracy hdescribes
  have hexact : exact * 2 ^ exponent = exact / 2 ^ shift * 2 ^ (exponent + shift) := by
    rw [zpow_add₀ two_ne_zero, zpow_natCast]
    field_simp
  refine ⟨result, resultExponent, hpos, hround, hnormal, fun bound boundExponent hbound => ?_⟩
  obtain ⟨hboundLow, hboundHigh⟩ := hbound.bounds
  obtain ⟨hrounded, hcarry⟩ := hbits.rounded_bounds hatLeast hbelow
  constructor
  · intro heven
    rw [hvalue, hexact]
    rcases lt_trichotomy (exponent + shift) boundExponent with hlt | heq | hgt
    · have hleft : (shifted.roundedMantissa : ℚ) ≤ 2 ^ (fractionBits spec + 1) := by
        exact_mod_cast hcarry
      refine iff_of_true (scaled_le_scaled hleft hboundLow hlt) ?_
      exact scaled_le_scaled hbelow.le (by linarith) hlt
    · rw [heq, mul_le_mul_iff_left₀ (zpow_pos two_pos _), mul_le_mul_iff_left₀ (zpow_pos two_pos _),
        Nat.cast_le]
      exact hbits.rounded_le_iff heven
    · have hleft : (2 : ℚ) ^ fractionBits spec ≤ shifted.roundedMantissa := by
        exact_mod_cast hrounded
      have hhalf : (bound : ℚ) + 1 / 2 < 2 ^ (fractionBits spec + 1) := by
        have hnext : (bound : ℚ) + 1 ≤ 2 ^ (fractionBits spec + 1) := by
          exact_mod_cast hbound.below
        linarith
      refine iff_of_false (scaled_lt_scaled hboundHigh hleft hgt).not_ge ?_
      exact (scaled_lt_scaled hhalf hatLeast hgt).not_ge
  · intro hequal
    rw [hexact] at hequal
    obtain ⟨hbits', hexponent⟩ := scaled_injective ⟨hatLeast, hbelow⟩ hbound.bounds hequal
    rw [hbits'] at hbits
    rw [hbits.rounded_eq, hexponent] at hvalue
    obtain ⟨hresult, hresultExponent⟩ := scaled_injective hnormal.bounds hbound.bounds hvalue
    exact ⟨by exact_mod_cast hresult, hresultExponent⟩

theorem log2_add_eq {mantissa bound : Nat} {exponent boundExponent : ℤ} (hne : mantissa ≠ 0)
    (hbound : Normal spec bound boundExponent)
    (hvalue : (mantissa : ℚ) * 2 ^ exponent = bound * 2 ^ boundExponent) :
    mantissa.log2 + exponent = fractionBits spec + boundExponent := by
  have hpower : (0 : ℚ) < 2 ^ mantissa.log2 := by positivity
  have hlow : (2 : ℚ) ^ mantissa.log2 ≤ mantissa := by exact_mod_cast Nat.log2_self_le hne
  have hhigh : (mantissa : ℚ) < 2 ^ (mantissa.log2 + 1) := by exact_mod_cast Nat.lt_log2_self
  have hscaled : (mantissa : ℚ) / 2 ^ mantissa.log2 * 2 ^ fractionBits spec *
      2 ^ (exponent + mantissa.log2 - fractionBits spec) = bound * 2 ^ boundExponent := by
    rw [← hvalue, zpow_sub₀ two_ne_zero, zpow_add₀ two_ne_zero, zpow_natCast, zpow_natCast]
    field_simp
  have hone : (1 : ℚ) ≤ mantissa / 2 ^ mantissa.log2 := (one_le_div hpower).mpr hlow
  have htwo : (mantissa : ℚ) / 2 ^ mantissa.log2 < 2 := by
    rw [div_lt_iff₀ hpower, ← pow_succ']
    exact hhigh
  have hbounds : (2 : ℚ) ^ fractionBits spec ≤
        mantissa / 2 ^ mantissa.log2 * 2 ^ fractionBits spec ∧
      (mantissa : ℚ) / 2 ^ mantissa.log2 * 2 ^ fractionBits spec <
        2 ^ (fractionBits spec + 1) := by
    constructor
    · exact le_mul_of_one_le_left (by positivity) hone
    · rw [pow_succ']
      exact mul_lt_mul_of_pos_right htwo (by positivity)
  obtain ⟨-, hexponent⟩ := scaled_injective hbounds hbound.bounds hscaled
  omega

theorem round_eq_normal (sign : Sign) {mantissa bound : Nat} {exponent boundExponent : ℤ}
    (hmin : spec.minExponent ≤ exponent) (hbound : Normal spec bound boundExponent)
    (hvalue : (mantissa : ℚ) * 2 ^ exponent = bound * 2 ^ boundExponent) :
    ∃ hpos, UnpackedFloat.round spec sign mantissa exponent =
      .finite sign bound boundExponent hpos := by
  have hne : mantissa ≠ 0 := by
    rintro rfl
    have hpos : (0 : ℚ) < bound * 2 ^ boundExponent :=
      mul_pos ((pow_pos two_pos _).trans_le hbound.bounds.1) (zpow_pos two_pos _)
    rw [← hvalue] at hpos
    simp at hpos
  have hlog := log2_add_eq hne hbound hvalue
  have htarget : spec.targetExponent (totalExponent mantissa exponent) = boundExponent := by
    have hboundMin := hbound.exponent
    rw [Format.targetExponent, totalExponent, Format.mantissaBits]
    unfold fractionBits at hlog
    omega
  set shift := (exponent - boundExponent).toNat with hshift
  have hkept : ((mantissa <<< shift : ℕ) : ℚ) * 2 ^ (exponent - shift) =
      bound * 2 ^ boundExponent := by
    rw [← hvalue, Nat.shiftLeft_eq, zpow_sub₀ two_ne_zero, zpow_natCast]
    push_cast
    field_simp
  have hlow : 2 ^ fractionBits spec ≤ mantissa <<< shift := by
    rw [Nat.shiftLeft_eq]
    calc 2 ^ fractionBits spec
        ≤ 2 ^ (mantissa.log2 + shift) := Nat.pow_le_pow_right two_pos (by omega)
      _ = 2 ^ mantissa.log2 * 2 ^ shift := pow_add _ _ _
      _ ≤ mantissa * 2 ^ shift := Nat.mul_le_mul_right _ (Nat.log2_self_le hne)
  have hmin' : spec.minExponent ≤ exponent - shift := by
    have hboundMin := hbound.exponent
    omega
  obtain ⟨result, resultExponent, hpos, hround, -, horder⟩ :=
    roundWithAccuracy_order sign hlow hmin' .exact (describes_exact _)
  obtain ⟨rfl, rfl⟩ := (horder bound boundExponent hbound).2 hkept
  refine ⟨hpos, ?_⟩
  rw [UnpackedFloat.round, htarget]
  exact hround

theorem round_neg (sign : Sign) (mantissa : Nat) (exponent : ℤ) :
    UnpackedFloat.round spec (-sign) mantissa exponent =
      (UnpackedFloat.round spec sign mantissa exponent).neg := by
  simp only [UnpackedFloat.round, roundWithAccuracy]
  split <;> rfl

theorem Normal.exponent_le {mantissa bound : Nat} {exponent boundExponent : ℤ}
    (hnormal : Normal spec mantissa exponent) (hbound : Normal spec bound boundExponent)
    (hle : (mantissa : ℚ) * 2 ^ exponent ≤ bound * 2 ^ boundExponent) :
    exponent ≤ boundExponent := by
  by_contra hgt
  exact absurd hle (scaled_lt_scaled hbound.bounds.2 hnormal.bounds.1 (not_le.mp hgt)).not_ge

theorem round_eq_roundWithAccuracy (sign : Sign) {mantissa : Nat} {exponent : ℤ}
    (hlow : 2 ^ fractionBits spec ≤ mantissa) (hmin : spec.minExponent ≤ exponent) :
    UnpackedFloat.round spec sign mantissa exponent =
      roundWithAccuracy spec sign mantissa exponent .exact := by
  have hshift : (exponent - (exponent + (mantissa.log2 - fractionBits spec : ℕ))).toNat = 0 := by
    omega
  rw [UnpackedFloat.round, targetExponent_eq hlow hmin, decreaseExponent, hshift]
  simp

/-! ## Packing -/

def biased (spec : Format) (exponent : ℤ) : Nat :=
  (exponent + spec.exponentBias + fractionBits spec).toNat

variable {mantissa : Nat} {exponent : ℤ}

theorem Normal.mod_eq (hnormal : Normal spec mantissa exponent) :
    mantissa % 2 ^ fractionBits spec = mantissa - 2 ^ fractionBits spec := by
  have hbelow := hnormal.below
  rw [pow_succ] at hbelow
  rw [Nat.mod_eq_sub_mod hnormal.atLeast, Nat.mod_eq_of_lt (by omega)]

theorem pack_normal (sign : Sign) (hnormal : Normal spec mantissa exponent)
    (hfits : biased spec exponent + 1 < 2 ^ spec.exponentBits) (hpos : 0 < mantissa) :
    UnpackedFloat.pack spec (.finite sign mantissa exponent hpos) =
      packComponents spec sign (BitVec.ofNat _ (biased spec exponent))
        (BitVec.ofNat _ mantissa) := by
  have hlog : mantissa.log2 + 1 = spec.mantissaBits := by
    rw [hnormal.log2, Format.mantissaBits, add_comm]
  rw [UnpackedFloat.pack, if_neg (by unfold biased fractionBits at hfits; omega), if_pos hlog]
  rfl

theorem unpackSign_packComponents (sign : Sign) (field : BitVec spec.exponentBits)
    (fraction : BitVec spec.mantissaBitsWithoutImplicit) :
    Sign.ofBitVec (unpackSign (packComponents spec sign field fraction)) = sign := by
  have hbit : unpackSign (packComponents spec sign field fraction) = sign.toBitVec := by
    ext position hposition
    obtain rfl : position = 0 := by omega
    simp [unpackSign, packComponents, BitVec.getLsbD_append, BitVec.getElem_append]
  rw [hbit]
  cases sign <;> rfl

/-- A normal number comes back from its pattern. -/
theorem unpack_pack_normal (sign : Sign) (hnormal : Normal spec mantissa exponent)
    (hfits : biased spec exponent + 1 < 2 ^ spec.exponentBits)
    (hfield : 0 < exponent + spec.exponentBias + fractionBits spec) (hpos : 0 < mantissa) :
    UnpackedFloat.unpack spec (UnpackedFloat.pack spec (.finite sign mantissa exponent hpos)) =
      .finite sign mantissa exponent hpos := by
  have hfieldNat : (BitVec.ofNat spec.exponentBits (biased spec exponent)).toNat =
      biased spec exponent := by
    rw [BitVec.toNat_ofNat, Nat.mod_eq_of_lt (by omega)]
  have hnotOnes : BitVec.ofNat spec.exponentBits (biased spec exponent) ≠ -1#_ := by
    intro heq
    have hnat := congrArg BitVec.toNat heq
    rw [hfieldNat, BitVec.neg_one_eq_allOnes, BitVec.toNat_allOnes] at hnat
    omega
  have hnotZero : BitVec.ofNat spec.exponentBits (biased spec exponent) ≠ 0#_ := by
    intro heq
    have hnat := congrArg BitVec.toNat heq
    rw [hfieldNat, BitVec.toNat_ofNat, Nat.zero_mod] at hnat
    unfold biased at hnat
    omega
  have hmantissa : (1#1 ++ BitVec.ofNat spec.mantissaBitsWithoutImplicit mantissa).toNat =
      mantissa := by
    rw [BitVec.toNat_append, ← Nat.shiftLeft_add_eq_or_of_lt (BitVec.isLt _),
      BitVec.toNat_ofNat mantissa, hnormal.mod_eq]
    change 1 <<< fractionBits spec + (mantissa - 2 ^ fractionBits spec) = mantissa
    rw [Nat.one_shiftLeft]
    exact Nat.add_sub_cancel' hnormal.atLeast
  rw [pack_normal sign hnormal hfits hpos, UnpackedFloat.unpack]
  simp only [unpackMantissa_packComponents, unpackExponent_packComponents,
    unpackSign_packComponents, hnotOnes, hnotZero, if_false, hmantissa, hfieldNat]
  congr 1
  unfold biased fractionBits at *
  omega

theorem toNat_packComponents_positive (field : BitVec spec.exponentBits)
    (fraction : BitVec spec.mantissaBitsWithoutImplicit) :
    (packComponents spec .positive field fraction).toNat =
      field.toNat * 2 ^ fractionBits spec + fraction.toNat := by
  rw [packComponents, BitVec.toNat_append, ← Nat.shiftLeft_add_eq_or_of_lt fraction.isLt,
    BitVec.toNat_append, ← Nat.shiftLeft_add_eq_or_of_lt field.isLt, Nat.shiftLeft_eq]
  simp [Sign.toBitVec]

theorem toNat_pack_normal (hnormal : Normal spec mantissa exponent)
    (hfits : biased spec exponent + 1 < 2 ^ spec.exponentBits) (hpos : 0 < mantissa) :
    (UnpackedFloat.pack spec (.finite .positive mantissa exponent hpos)).toNat =
      biased spec exponent * 2 ^ fractionBits spec + (mantissa - 2 ^ fractionBits spec) := by
  rw [pack_normal _ hnormal hfits, toNat_packComponents_positive, BitVec.toNat_ofNat,
    BitVec.toNat_ofNat, Nat.mod_eq_of_lt (by omega), hnormal.mod_eq]

theorem toNat_pack_le_iff {bound : Nat} {boundExponent : ℤ}
    (hnormal : Normal spec mantissa exponent) (hbound : Normal spec bound boundExponent)
    (hfield : 0 ≤ exponent + spec.exponentBias + fractionBits spec)
    (hboundField : 0 ≤ boundExponent + spec.exponentBias + fractionBits spec) :
    biased spec exponent * 2 ^ fractionBits spec + (mantissa - 2 ^ fractionBits spec) ≤
        biased spec boundExponent * 2 ^ fractionBits spec + (bound - 2 ^ fractionBits spec) ↔
      (mantissa : ℚ) * 2 ^ exponent ≤ bound * 2 ^ boundExponent := by
  have hlater : ∀ {low high lowRest highRest : ℕ}, low < high →
      lowRest < 2 ^ fractionBits spec →
      low * 2 ^ fractionBits spec + lowRest < high * 2 ^ fractionBits spec + highRest := by
    intro low high lowRest highRest hlt hrest
    have hstep := Nat.mul_le_mul_right (2 ^ fractionBits spec) (Nat.succ_le_of_lt hlt)
    rw [Nat.succ_mul] at hstep
    omega
  have hrest := hnormal.below
  have hboundRest := hbound.below
  rw [pow_succ] at hrest hboundRest
  have hlow := hnormal.atLeast
  have hboundLow := hbound.atLeast
  rcases lt_trichotomy exponent boundExponent with hlt | rfl | hgt
  · refine iff_of_true (hlater ?_ (by omega)).le ?_
    · unfold biased
      omega
    · exact (scaled_lt_scaled hnormal.bounds.2 hbound.bounds.1 hlt).le
  · rw [mul_le_mul_iff_left₀ (zpow_pos two_pos _), Nat.cast_le]
    omega
  · refine iff_of_false (hlater ?_ (by omega)).not_ge ?_
    · unfold biased
      omega
    · exact (scaled_lt_scaled hbound.bounds.2 hnormal.bounds.1 hgt).not_ge

end Format

end VllmColdstartOperator.Foundation.Rounding
