import VllmColdstartOperator.Foundation.F32
import VllmColdstartOperator.Foundation.Rounding
import VllmColdstartOperator.Foundation.Text

/-!
# Doubles

The arithmetic of 64-bit floats is that of the language.  The conversion to 32
bits rounds once more, and `parse` follows the standard library function of that
name: an optional sign, then a word for infinity or NaN, or digits with an optional
fraction and exponent, read as the nearest float.
-/

namespace VllmColdstartOperator.Foundation

open Float.Model Float.Model.UnpackedFloat

namespace F64

/-- The nearest 32-bit float; what is not finite keeps its kind. -/
def toF32 (value : Float) : F32 :=
  ⟨UnpackedFloat.pack .binary32
    (match value.toModel.unpack with
    | .finite sign mantissa exponent _ => UnpackedFloat.round .binary32 sign mantissa exponent
    | other => other)⟩

def parseExponent : List Char → Option ℤ
  | '+' :: digits => (decimalDigits digits).map Int.ofNat
  | '-' :: digits => (decimalDigits digits).map fun value => -Int.ofNat value
  | digits => (decimalDigits digits).map Int.ofNat

/-- Digits, a fraction and an exponent; some digit stands before the exponent. -/
def parseNumber (text : List Char) : Option Float.Model := do
  let (whole, rest) := text.span Char.isDigit
  let (fraction, rest) :=
    match rest with
    | '.' :: rest => rest.span Char.isDigit
    | rest => ([], rest)
  let exponent ←
    match rest with
    | [] => some 0
    | marker :: rest => if marker = 'e' ∨ marker = 'E' then parseExponent rest else none
  if whole = [] ∧ fraction = [] then none
  else some (.ofScientific (Nat.ofDigitChars 10 (whole ++ fraction) 0)
    (exponent - fraction.length))

def parseUnsigned (text : List Char) : Option Float :=
  let word := String.ofList (text.map Char.toLower)
  if word = "inf" ∨ word = "infinity" then some (.ofModel (.pack (.infinity .positive)))
  else if word = "nan" then some (.ofModel (.pack .notANumber))
  else (parseNumber text).map .ofModel

def parse (text : String) : Option Float :=
  match text.toList with
  | '-' :: rest => (parseUnsigned rest).map Float.neg
  | '+' :: rest => parseUnsigned rest
  | rest => parseUnsigned rest

end F64

instance : Double Float where
  ofNat value := .ofModel (.ofNat value)
  add := Float.add
  sub := Float.sub
  div := Float.div
  le := Float.le
  lt := Float.lt
  toF32 := F64.toF32
  parse := F64.parse

namespace F64

-- 0.1 is read, -2.5e-1 too, and a third is narrowed
example : (parse "0.1").map Float.toBits = some 0x3fb999999999999a ∧
    (parse "-2.5e-1").map Float.toBits = some 0xbfd0000000000000 ∧
    (parse "1e400").map Float.toBits = some 0x7ff0000000000000 ∧ parse "." = none ∧
    toF32 (Double.div (Double.ofNat 1) (Double.ofNat 3)) = ⟨0x3eaaaaab#32⟩ := by
  decide +kernel

open Rounding

def value (float : Float) : ℚ :=
  match float.toModel.unpack with
  | .finite sign mantissa exponent _ => sign.apply mantissa * 2 ^ exponent
  | _ => 0

/-! ## Whole numbers up to 2^53 -/

theorem exists_normal {number : Nat} (hpos : 0 < number) (hle : number ≤ 2 ^ 53) :
    ∃ mantissa exponent, Normal .binary64 mantissa exponent ∧
      (mantissa : ℚ) * 2 ^ exponent = number ∧ -52 ≤ exponent ∧ exponent ≤ 1 := by
  rcases Nat.lt_or_eq_of_le hle with hlt | rfl
  · have hlow := Nat.log2_self_le hpos.ne'
    have hhigh := Nat.lt_log2_self (n := number)
    have hlog : number.log2 ≤ 52 := by
      have := (Nat.log2_lt hpos.ne').mpr hlt
      omega
    refine ⟨number * 2 ^ (52 - number.log2), number.log2 - 52, ⟨?_, ?_, ?_⟩, ?_, ?_, ?_⟩
    · calc 2 ^ 52 = 2 ^ number.log2 * 2 ^ (52 - number.log2) := by
            rw [← pow_add, Nat.add_sub_cancel' hlog]
        _ ≤ number * 2 ^ (52 - number.log2) := Nat.mul_le_mul_right _ hlow
    · calc number * 2 ^ (52 - number.log2)
          < 2 ^ (number.log2 + 1) * 2 ^ (52 - number.log2) :=
            Nat.mul_lt_mul_of_pos_right hhigh (Nat.two_pow_pos _)
        _ = 2 ^ 53 := by
            rw [← pow_add]
            congr 1
            omega
    · change (-1074 : ℤ) ≤ _
      omega
    · push_cast
      rw [mul_assoc, ← zpow_natCast, ← zpow_add₀ two_ne_zero]
      push_cast [hlog]
      simp
    · omega
    · omega
  · refine ⟨2 ^ 52, 1, ⟨by decide, by decide, by decide⟩, by norm_num, by decide, by decide⟩

theorem round_whole (sign : Sign) {mantissa number : Nat} {exponent : ℤ}
    (hmin : -1074 ≤ exponent) (hpos : 0 < number) (hle : number ≤ 2 ^ 53)
    (hvalue : (mantissa : ℚ) * 2 ^ exponent = number) :
    UnpackedFloat.round .binary64 sign mantissa exponent =
      UnpackedFloat.round .binary64 sign number 0 := by
  obtain ⟨bound, boundExponent, hbound, hnumber, -, -⟩ := exists_normal hpos hle
  obtain ⟨_, hleft⟩ := round_eq_normal sign hmin hbound (hvalue.trans hnumber.symm)
  have hself : (number : ℚ) * 2 ^ (0 : ℤ) = bound * 2 ^ boundExponent := by
    rw [zpow_zero, mul_one, hnumber]
  obtain ⟨_, hright⟩ := round_eq_normal sign (by decide) hbound hself
  rw [hleft, hright]

theorem normalize_eq_ofInt {mantissa number : ℤ} {exponent : ℤ} (hmin : -1074 ≤ exponent)
    (hle : number.natAbs ≤ 2 ^ 53) (hvalue : (mantissa : ℚ) * 2 ^ exponent = number) :
    UnpackedFloat.normalize .binary64 mantissa exponent .positive =
      UnpackedFloat.ofInt .binary64 number := by
  have hpower : (0 : ℚ) < 2 ^ exponent := zpow_pos two_pos _
  rw [UnpackedFloat.ofInt, UnpackedFloat.normalize, UnpackedFloat.normalize]
  rcases lt_trichotomy number 0 with hneg | rfl | hpos
  · have hmantissa : mantissa < 0 := by
      have hproduct : (mantissa : ℚ) * 2 ^ exponent < 0 := by
        rw [hvalue]
        exact_mod_cast hneg
      exact_mod_cast neg_of_mul_neg_left hproduct hpower.le
    rw [Int.compare_eq_lt.mpr hmantissa, Int.compare_eq_lt.mpr hneg]
    refine round_whole .negative hmin (by omega) (by omega) ?_
    have hcast : ∀ {value : ℤ}, value < 0 → ((-value).toNat : ℚ) = -value := by
      intro value hlt
      exact_mod_cast congrArg (Int.cast (R := ℚ)) (Int.toNat_of_nonneg (a := -value) (by omega))
    rw [hcast hmantissa, hcast hneg, neg_mul, hvalue]
  · have hmantissa : mantissa = 0 := by
      rw [Int.cast_zero, mul_eq_zero] at hvalue
      exact_mod_cast hvalue.resolve_right hpower.ne'
    rw [hmantissa]
    rfl
  · have hmantissa : 0 < mantissa := by
      have hproduct : 0 < (mantissa : ℚ) * 2 ^ exponent := by
        rw [hvalue]
        exact_mod_cast hpos
      exact_mod_cast pos_of_mul_pos_left hproduct hpower.le
    rw [Int.compare_eq_gt.mpr hmantissa, Int.compare_eq_gt.mpr hpos]
    refine round_whole .positive hmin (by omega) (by omega) ?_
    have hcast : ∀ {value : ℤ}, 0 < value → (value.toNat : ℚ) = value := by
      intro value hlt
      exact_mod_cast congrArg (Int.cast (R := ℚ)) (Int.toNat_of_nonneg hlt.le)
    rw [hcast hmantissa, hcast hpos, hvalue]

theorem ofInt_shape (number : ℤ) (hne : number ≠ 0) (hle : number.natAbs ≤ 2 ^ 53) :
    ∃ sign mantissa exponent hpos, Normal .binary64 mantissa exponent ∧
      -52 ≤ exponent ∧ exponent ≤ 1 ∧
      UnpackedFloat.ofInt .binary64 number = .finite sign mantissa exponent hpos ∧
      (sign.apply mantissa : ℚ) * 2 ^ exponent = number ∧ (sign = .negative ↔ number < 0) := by
  obtain ⟨mantissa, exponent, hnormal, hvalue, hlow, hhigh⟩ :=
    exists_normal (Int.natAbs_pos.mpr hne) hle
  have hround : ∀ sign, ∃ hpos, UnpackedFloat.round .binary64 sign number.natAbs 0 =
      .finite sign mantissa exponent hpos := fun sign =>
    round_eq_normal sign (by decide) hnormal (by rw [zpow_zero, mul_one, hvalue])
  rcases lt_or_gt_of_ne hne with hneg | hpos
  · have hcast : (number.natAbs : ℚ) = -number := by
      rw [Nat.cast_natAbs, abs_of_neg hneg, Int.cast_neg]
    obtain ⟨hmantissa, hfinite⟩ := hround .negative
    refine ⟨.negative, mantissa, exponent, hmantissa, hnormal, hlow, hhigh, ?_, ?_,
      iff_of_true rfl hneg⟩
    · have hnat : (-number).toNat = number.natAbs := by omega
      rw [UnpackedFloat.ofInt, UnpackedFloat.normalize, Int.compare_eq_lt.mpr hneg, ← hfinite,
        ← hnat]
    · rw [hcast] at hvalue
      simp [Sign.apply, hvalue]
  · have hcast : (number.natAbs : ℚ) = number := by
      rw [Nat.cast_natAbs, abs_of_pos hpos]
    obtain ⟨hmantissa, hfinite⟩ := hround .positive
    refine ⟨.positive, mantissa, exponent, hmantissa, hnormal, hlow, hhigh, ?_, ?_,
      iff_of_false (by simp) hpos.not_gt⟩
    · have hnat : number.toNat = number.natAbs := by omega
      rw [UnpackedFloat.ofInt, UnpackedFloat.normalize, Int.compare_eq_gt.mpr hpos, ← hfinite,
        ← hnat]
    · rw [hcast] at hvalue
      simp [Sign.apply, hvalue]

theorem unpack_pack (sign : Sign) {mantissa : Nat} {exponent : ℤ}
    (hnormal : Normal .binary64 mantissa exponent) (hhigh : exponent ≤ 1) (hpos : 0 < mantissa) :
    (Float.Model.pack (.finite sign mantissa exponent hpos)).unpack =
      .finite sign mantissa exponent hpos := by
  have hlow : -1074 ≤ exponent := hnormal.exponent
  refine unpack_pack_normal sign hnormal ?_ ?_ hpos
  · change (exponent + 1023 + 52).toNat + 1 < 2048
    omega
  · change 0 < exponent + 1023 + 52
    omega

theorem unpack_ofInt (number : ℤ) (hle : number.natAbs ≤ 2 ^ 53) :
    (Float.Model.ofInt number).unpack = UnpackedFloat.ofInt .binary64 number := by
  by_cases hzero : number = 0
  · rw [hzero]
    rfl
  obtain ⟨sign, mantissa, exponent, hpos, hnormal, -, hhigh, hshape, -⟩ :=
    ofInt_shape number hzero hle
  change (Float.Model.pack (UnpackedFloat.ofInt .binary64 number)).unpack = _
  rw [hshape]
  exact unpack_pack sign hnormal hhigh hpos

theorem apply_shiftLeft (sign : Sign) (mantissa : Nat) {exponent lower : ℤ}
    (hle : lower ≤ exponent) :
    (sign.apply ((mantissa <<< (exponent - lower).toNat : ℕ) : ℤ) : ℚ) * 2 ^ lower =
      sign.apply mantissa * 2 ^ exponent := by
  have hpower : (2 : ℚ) ^ exponent = 2 ^ (exponent - lower).toNat * 2 ^ lower := by
    rw [← zpow_natCast, ← zpow_add₀ two_ne_zero, Int.toNat_of_nonneg (by omega)]
    congr 1
    omega
  rw [hpower, Nat.shiftLeft_eq]
  cases sign <;> simp only [Sign.apply] <;> push_cast <;> ring

section Arithmetic

variable (left right : ℤ)

theorem add_ofInt (hleft : left.natAbs ≤ 2 ^ 53) (hright : right.natAbs ≤ 2 ^ 53)
    (hsum : (left + right).natAbs ≤ 2 ^ 53) :
    UnpackedFloat.add .binary64 (.ofInt .binary64 left) (.ofInt .binary64 right) =
      .ofInt .binary64 (left + right) := by
  by_cases hleftZero : left = 0
  · rw [hleftZero, zero_add]
    by_cases hrightZero : right = 0
    · rw [hrightZero]
      rfl
    · obtain ⟨sign, mantissa, exponent, hpos, -, -, -, hshape, -⟩ :=
        ofInt_shape right hrightZero hright
      rw [hshape]
      rfl
  obtain ⟨sign, mantissa, exponent, hpos, -, hlow, -, hshape, hvalue, -⟩ :=
    ofInt_shape left hleftZero hleft
  by_cases hrightZero : right = 0
  · rw [hrightZero, add_zero, hshape]
    rfl
  obtain ⟨sign', mantissa', exponent', hpos', -, hlow', -, hshape', hvalue', -⟩ :=
    ofInt_shape right hrightZero hright
  rw [hshape, hshape', UnpackedFloat.add]
  refine normalize_eq_ofInt (by omega) hsum ?_
  rw [Int.cast_add, Int.cast_add, add_mul, apply_shiftLeft _ _ (min_le_left _ _),
    apply_shiftLeft _ _ (min_le_right _ _), hvalue, hvalue']

theorem neg_ofInt {number : ℤ} (hne : number ≠ 0) :
    (UnpackedFloat.ofInt .binary64 number).neg = UnpackedFloat.ofInt .binary64 (-number) := by
  rw [UnpackedFloat.ofInt, UnpackedFloat.ofInt, UnpackedFloat.normalize, UnpackedFloat.normalize]
  rcases lt_or_gt_of_ne hne with hneg | hpos
  · rw [Int.compare_eq_lt.mpr hneg, Int.compare_eq_gt.mpr (Int.neg_pos_of_neg hneg)]
    exact (round_neg .negative _ _).symm
  · rw [Int.compare_eq_gt.mpr hpos, Int.compare_eq_lt.mpr (Int.neg_neg_of_pos hpos)]
    dsimp only
    rw [neg_neg]
    exact (round_neg .positive _ _).symm

theorem sub_ofInt (hleft : left.natAbs ≤ 2 ^ 53) (hright : right.natAbs ≤ 2 ^ 53)
    (hdifference : (left - right).natAbs ≤ 2 ^ 53) :
    UnpackedFloat.sub .binary64 (.ofInt .binary64 left) (.ofInt .binary64 right) =
      .ofInt .binary64 (left - right) := by
  by_cases hrightZero : right = 0
  · rw [hrightZero, sub_zero]
    by_cases hleftZero : left = 0
    · rw [hleftZero]
      rfl
    · obtain ⟨sign, mantissa, exponent, hpos, -, -, -, hshape, -⟩ :=
        ofInt_shape left hleftZero hleft
      rw [hshape]
      rfl
  obtain ⟨sign', mantissa', exponent', hpos', -, hlow', -, hshape', hvalue', -⟩ :=
    ofInt_shape right hrightZero hright
  by_cases hleftZero : left = 0
  · rw [hleftZero, zero_sub, ← neg_ofInt hrightZero, hshape']
    rfl
  obtain ⟨sign, mantissa, exponent, hpos, -, hlow, -, hshape, hvalue, -⟩ :=
    ofInt_shape left hleftZero hleft
  rw [hshape, hshape', UnpackedFloat.sub]
  refine normalize_eq_ofInt (by omega) hdifference ?_
  rw [Int.cast_sub, Int.cast_sub, sub_mul, apply_shiftLeft _ _ (min_le_left _ _),
    apply_shiftLeft _ _ (min_le_right _ _), hvalue, hvalue']

end Arithmetic

theorem double_add {left right : Nat} (hle : left + right ≤ 2 ^ 53) :
    Double.add (F := Float) (Double.ofNat left) (Double.ofNat right) =
      Double.ofNat (left + right) := by
  have hsum := add_ofInt left right (by omega) (by omega) (by omega)
  have hleft := unpack_ofInt left (by omega)
  have hright := unpack_ofInt right (by omega)
  change Float.ofModel (.pack (UnpackedFloat.add .binary64 (Float.Model.ofInt left).unpack
    (Float.Model.ofInt right).unpack)) = .ofModel (.pack (.ofInt .binary64 (left + right : ℕ)))
  rw [hleft, hright, hsum, Nat.cast_add]

theorem double_sub {left right : Nat} (hleft : left ≤ 2 ^ 53) (hright : right ≤ 2 ^ 53) :
    Double.sub (F := Float) (Double.ofNat left) (Double.ofNat right) =
      .ofModel (.ofInt (left - right)) := by
  have hdifference := sub_ofInt left right (by omega) (by omega) (by omega)
  have hleft := unpack_ofInt left (by omega)
  have hright := unpack_ofInt right (by omega)
  change Float.ofModel (.pack (UnpackedFloat.sub .binary64 (Float.Model.ofInt left).unpack
    (Float.Model.ofInt right).unpack)) = _
  rw [hleft, hright, hdifference]
  rfl

theorem double_zero_le {number : ℤ} (hle : number.natAbs ≤ 2 ^ 53) :
    Double.le (F := Float) (Double.ofNat 0) (.ofModel (.ofInt number)) = decide (0 ≤ number) := by
  have hcompare : Double.le (F := Float) (Double.ofNat 0) (.ofModel (.ofInt number)) =
      UnpackedFloat.le (Float.Model.ofInt 0).unpack (Float.Model.ofInt number).unpack :=
    Bool.decide_eq_true
  rw [hcompare, unpack_ofInt 0 (by decide), unpack_ofInt number hle]
  by_cases hzero : number = 0
  · rw [hzero]
    rfl
  obtain ⟨sign, mantissa, exponent, hpos, -, -, -, hshape, -, hsign⟩ := ofInt_shape number hzero hle
  rw [hshape]
  cases sign with
  | negative => rw [decide_eq_false (not_le.mpr (hsign.mp rfl))]; rfl
  | positive =>
      have hnonneg : 0 ≤ number := not_lt.mp fun hneg => by cases hsign.mpr hneg
      rw [decide_eq_true hnonneg]
      rfl

theorem double_zero_lt {number : Nat} (hle : number ≤ 2 ^ 53) :
    Double.lt (F := Float) (Double.ofNat 0) (Double.ofNat number) = decide (0 < number) := by
  have hcompare : Double.lt (F := Float) (Double.ofNat 0) (Double.ofNat number) =
      UnpackedFloat.lt (Float.Model.ofInt 0).unpack (Float.Model.ofInt number).unpack :=
    Bool.decide_eq_true
  rw [hcompare, unpack_ofInt 0 (by decide), unpack_ofInt number (by omega)]
  by_cases hzero : number = 0
  · rw [hzero]
    rfl
  obtain ⟨sign, mantissa, exponent, hpos, -, -, -, hshape, -, hsign⟩ :=
    ofInt_shape number (by omega) (by omega)
  rw [hshape, decide_eq_true (Nat.pos_of_ne_zero hzero)]
  cases sign with
  | negative => exact absurd (hsign.mp rfl) (by omega)
  | positive => rfl

theorem value_ofNat {number : Nat} (hle : number ≤ 2 ^ 53) :
    value (Double.ofNat number) = number := by
  change (match (Float.Model.ofInt number).unpack with
    | .finite sign mantissa exponent _ => (sign.apply mantissa : ℚ) * 2 ^ exponent
    | _ => 0) = (number : ℚ)
  rw [unpack_ofInt number (by omega)]
  by_cases hzero : number = 0
  · rw [hzero]
    rfl
  obtain ⟨sign, mantissa, exponent, hpos, -, -, -, hshape, hvalue, -⟩ :=
    ofInt_shape number (by omega) (by omega)
  rw [hshape]
  exact hvalue

/-! ## Quotients of whole numbers -/

section Quotient

variable {hits queries : Nat}

theorem divCore_normal {mantissa divisor : Nat} {exponent divisorExponent : ℤ}
    (hmantissa : Normal .binary64 mantissa exponent)
    (hdivisor : Normal .binary64 divisor divisorExponent)
    (hmin : -1074 ≤ exponent - divisorExponent - 53) :
    divCore .binary64 mantissa exponent divisor divisorExponent =
      (mantissa <<< 53 / divisor, exponent - divisorExponent - 53,
        accuracyOfFraction (mantissa <<< 53 % divisor) divisor) := by
  have htarget : min (exponent - divisorExponent) (Format.binary64.targetExponent
      (totalExponent mantissa exponent - totalExponent divisor divisorExponent)) =
      exponent - divisorExponent - 53 := by
    rw [totalExponent, totalExponent, hmantissa.log2, hdivisor.log2, Format.targetExponent]
    change min _ (max (_ - 53) (-1074)) = _
    omega
  have hshift : (exponent - divisorExponent - (exponent - divisorExponent - 53)).toNat = 53 := by
    omega
  rw [divCore, htarget, hshift]

/-- The float of a quotient against the first float of 64 bits that is narrowed to
more than one. -/
theorem div_order (hhits : 0 < hits) (hqueries : 0 < queries) (hhitsLe : hits ≤ 2 ^ 53)
    (hqueriesLe : queries ≤ 2 ^ 53) :
    ∃ mantissa exponent hpos,
      (Double.div (F := Float) (Double.ofNat hits) (Double.ofNat queries)).toModel.unpack =
        .finite .positive mantissa exponent hpos ∧
      Normal .binary64 mantissa exponent ∧ -106 ≤ exponent ∧ exponent ≤ 1 ∧
      ((mantissa : ℚ) * 2 ^ exponent ≤ 1 + 1 / 2 ^ 24 ↔
        (hits : ℚ) / queries ≤ 1 + 1 / 2 ^ 24 + 1 / 2 ^ 53) := by
  obtain ⟨sign, left, leftExponent, hleft, hleftNormal, hleftLow, hleftHigh, hleftShape,
    hleftValue, hleftSign⟩ := ofInt_shape hits (by omega) (by omega)
  obtain ⟨sign', right, rightExponent, hright, hrightNormal, hrightLow, hrightHigh, hrightShape,
    hrightValue, hrightSign⟩ := ofInt_shape queries (by omega) (by omega)
  obtain rfl : sign = .positive := by
    cases sign with
    | negative => exact absurd (hleftSign.mp rfl) (by omega)
    | positive => rfl
  obtain rfl : sign' = .positive := by
    cases sign' with
    | negative => exact absurd (hrightSign.mp rfl) (by omega)
    | positive => rfl
  have hleftValue : (left : ℚ) * 2 ^ leftExponent = hits := hleftValue
  have hrightValue : (right : ℚ) * 2 ^ rightExponent = queries := hrightValue
  have hmin : -1074 ≤ leftExponent - rightExponent - 53 := by omega
  have hlow : 2 ^ 52 ≤ left <<< 53 / right := by
    rw [Nat.le_div_iff_mul_le hright, Nat.shiftLeft_eq]
    exact Nat.mul_le_mul hleftNormal.atLeast hrightNormal.below.le
  obtain ⟨mantissa, exponent, hpos, hround, hnormal, horder⟩ :=
    @roundWithAccuracy_order .binary64 .positive _ _ hlow hmin _ _
      (describes_div (left <<< 53) hright)
  have hexact : ((left <<< 53 : ℕ) : ℚ) / right * 2 ^ (leftExponent - rightExponent - 53) =
      hits / queries := by
    rw [← hleftValue, ← hrightValue, Nat.shiftLeft_eq, zpow_sub₀ two_ne_zero,
      zpow_sub₀ two_ne_zero]
    push_cast
    field_simp
  rw [hexact] at horder
  have hhitsQ : (1 : ℚ) ≤ hits ∧ (hits : ℚ) ≤ 2 ^ 53 := by
    exact_mod_cast And.intro hhits hhitsLe
  have hqueriesQ : (1 : ℚ) ≤ queries ∧ (queries : ℚ) ≤ 2 ^ 53 := by
    exact_mod_cast And.intro hqueries hqueriesLe
  have hquotientLe : (hits : ℚ) / queries ≤ 2 ^ 53 :=
    (div_le_self (by linarith) hqueriesQ.1).trans hhitsQ.2
  have hquotientGe : 1 / 2 ^ 53 ≤ (hits : ℚ) / queries :=
    div_le_div₀ (by linarith) hhitsQ.1 (by linarith) hqueriesQ.2
  have htop : Normal .binary64 (2 ^ 52) 1 := ⟨by decide, by decide, by decide⟩
  have hbottom : Normal .binary64 (2 ^ 52) (-106) := ⟨by decide, by decide, by decide⟩
  have hhigh : exponent ≤ 1 := by
    apply hnormal.exponent_le htop
    refine ((horder _ _ htop).1 (by decide)).mpr (hquotientLe.trans ?_)
    norm_num
  have hlow : -106 ≤ exponent := by
    apply hbottom.exponent_le hnormal
    refine (not_le.mp fun hle => ?_).le
    have hsmall := ((horder _ _ hbottom).1 (by decide)).mp hle
    norm_num at hsmall hquotientGe
    linarith
  refine ⟨mantissa, exponent, hpos, ?_, hnormal, hlow, hhigh, ?_⟩
  · change (Float.Model.pack (UnpackedFloat.div .binary64 (Float.Model.ofInt hits).unpack
      (Float.Model.ofInt queries).unpack)).unpack = _
    rw [unpack_ofInt hits (by omega), unpack_ofInt queries (by omega), hleftShape, hrightShape,
      UnpackedFloat.div, divCore_normal hleftNormal hrightNormal hmin]
    change (Float.Model.pack (roundWithAccuracy .binary64 .positive _ _ _)).unpack = _
    rw [hround]
    exact unpack_pack .positive hnormal (by omega) hpos
  · have hnext : Normal .binary64 (2 ^ 52 + 2 ^ 28) (-52) := ⟨by decide, by decide, by decide⟩
    have hbound := (horder _ _ hnext).1 (by decide)
    norm_num at hbound ⊢
    exact hbound

theorem narrow_order {mantissa : Nat} {exponent : ℤ}
    (hnormal : Normal .binary64 mantissa exponent) (hlow : -106 ≤ exponent)
    (hhigh : exponent ≤ 1) :
    ∃ narrowed narrowedExponent hpos,
      UnpackedFloat.round .binary32 .positive mantissa exponent =
        .finite .positive narrowed narrowedExponent hpos ∧
      Normal .binary32 narrowed narrowedExponent ∧
      -78 ≤ narrowedExponent ∧ narrowedExponent ≤ 31 ∧
      ((narrowed : ℚ) * 2 ^ narrowedExponent ≤ 1 ↔
        (mantissa : ℚ) * 2 ^ exponent ≤ 1 + 1 / 2 ^ 24) := by
  have hmantissa : 2 ^ 23 ≤ mantissa := le_trans (by decide) hnormal.atLeast
  have hmin : -149 ≤ exponent := by omega
  obtain ⟨narrowed, narrowedExponent, hpos, hround, hnarrowed, horder⟩ :=
    @roundWithAccuracy_order .binary32 .positive _ _ hmantissa hmin _ _ (describes_exact mantissa)
  have htop : Normal .binary32 (2 ^ 23) 31 := ⟨by decide, by decide, by decide⟩
  have hbottom : Normal .binary32 (2 ^ 23) (-78) := ⟨by decide, by decide, by decide⟩
  have hone : Normal .binary32 (2 ^ 23) (-23) := ⟨by decide, by decide, by decide⟩
  have hupper : (mantissa : ℚ) * 2 ^ exponent ≤ 2 ^ 54 := by
    calc (mantissa : ℚ) * 2 ^ exponent
        ≤ 2 ^ 53 * 2 ^ (1 : ℤ) := by
          gcongr
          · exact hnormal.bounds.2.le
          · norm_num
      _ = 2 ^ 54 := by norm_num
  have hlower : 1 / 2 ^ 54 ≤ (mantissa : ℚ) * 2 ^ exponent := by
    calc (1 : ℚ) / 2 ^ 54
        = 2 ^ 52 * 2 ^ (-106 : ℤ) := by norm_num
      _ ≤ (mantissa : ℚ) * 2 ^ exponent := by
          gcongr
          · exact hnormal.bounds.1
          · norm_num
  refine ⟨narrowed, narrowedExponent, hpos, ?_, hnarrowed, ?_, ?_, ?_⟩
  · rw [round_eq_roundWithAccuracy .positive hmantissa hmin]
    exact hround
  · apply hbottom.exponent_le hnarrowed
    refine (not_le.mp fun hle => ?_).le
    have hsmall := ((horder _ _ hbottom).1 (by decide)).mp hle
    norm_num at hsmall hlower
    linarith
  · apply hnarrowed.exponent_le htop
    refine ((horder _ _ htop).1 (by decide)).mpr (hupper.trans ?_)
    norm_num
  · have hbound := (horder _ _ hone).1 (by decide)
    norm_num at hbound ⊢
    exact hbound

/-- A quotient of whole numbers narrows to at most one as long as the first is not
above the second by more than the two roundings hide. -/
theorem toF32_div (hqueries : 0 < queries) (hhitsLe : hits ≤ 2 ^ 53)
    (hqueriesLe : queries ≤ 2 ^ 53) {rate : F32}
    (hrate : Double.toF32 (Double.div (F := Float) (Double.ofNat hits) (Double.ofNat queries)) =
      rate) :
    rate.isFinite = true ∧ rate.atLeastZero = true ∧
      (rate.atMostOne = true ↔ 2 ^ 53 * hits ≤ (2 ^ 53 + 2 ^ 29 + 1) * queries) := by
  rcases Nat.eq_zero_or_pos hits with rfl | hhits
  · obtain ⟨sign, divisor, exponent, hpos, -, -, -, hshape, -, hsign⟩ :=
      ofInt_shape queries (by omega) (by omega)
    obtain rfl : sign = .positive := by
      cases sign with
      | negative => exact absurd (hsign.mp rfl) (by omega)
      | positive => rfl
    have hzero : rate = ⟨0#32⟩ := by
      rw [← hrate]
      change toF32 (.ofModel (.pack (UnpackedFloat.div .binary64 (Float.Model.ofInt 0).unpack
        (Float.Model.ofInt queries).unpack))) = _
      rw [unpack_ofInt 0 (by decide), unpack_ofInt queries (by omega), hshape]
      change toF32 (.ofModel (.pack (.zero .positive))) = _
      decide +kernel
    rw [hzero]
    refine ⟨by decide, by decide, iff_of_true (by decide) ?_⟩
    omega
  obtain ⟨mantissa, exponent, hpos, hunpack, hnormal, hlow, hhigh, hdiv⟩ :=
    div_order hhits hqueries hhitsLe hqueriesLe
  obtain ⟨narrowed, narrowedExponent, hpos', hround, hnarrowed, hlow', hhigh', hnarrow⟩ :=
    narrow_order hnormal hlow hhigh
  have hbits : rate = ⟨UnpackedFloat.pack .binary32
      (.finite .positive narrowed narrowedExponent hpos')⟩ := by
    rw [← hrate, ← hround]
    change toF32 _ = _
    rw [toF32, hunpack]
  have hpattern : rate.bits.toNat = biased .binary32 narrowedExponent * 2 ^ 23 +
      (narrowed - 2 ^ 23) := by
    rw [hbits]
    refine toNat_pack_normal hnarrowed ?_ hpos'
    change (narrowedExponent + 127 + 23).toNat + 1 < 256
    omega
  have hbelow : narrowed < 2 ^ 24 := hnarrowed.below
  have hbiased : biased .binary32 narrowedExponent ≤ 181 := by
    change (narrowedExponent + 127 + 23).toNat ≤ 181
    omega
  have hsign : rate.sign = false := by
    rw [F32.sign, BitVec.msb_eq_false_iff_two_mul_lt]
    omega
  have hmagnitude := F32.magnitude_of_sign_false hsign
  have hone : rate.magnitude ≤ 0x3f800000 ↔ (narrowed : ℚ) * 2 ^ narrowedExponent ≤ 1 := by
    have hunit : Normal .binary32 (2 ^ 23) (-23) := ⟨by decide, by decide, by decide⟩
    have hunitPattern : biased .binary32 (-23) * 2 ^ 23 + (2 ^ 23 - 2 ^ 23) = 0x3f800000 := by
      decide
    have hunitValue : ((2 ^ 23 : ℕ) : ℚ) * 2 ^ (-23 : ℤ) = 1 := by norm_num
    have hfield : 0 ≤ narrowedExponent + Format.binary32.exponentBias + fractionBits .binary32 := by
      change 0 ≤ narrowedExponent + 127 + 23
      omega
    rw [hmagnitude, hpattern, ← hunitPattern, ← hunitValue]
    exact toNat_pack_le_iff hnarrowed hunit hfield (by decide)
  refine ⟨?_, ?_, ?_⟩
  · rw [F32.isFinite, decide_eq_true_eq]
    omega
  · rw [F32.atLeastZero, decide_eq_true_eq, hsign]
    exact ⟨by omega, Or.inr rfl⟩
  · rw [F32.atMostOne, decide_eq_true_eq, hsign]
    have hbound : rate.magnitude ≤ 0x7f800000 := by omega
    simp only [hbound, true_and, Bool.false_eq_true, false_or]
    rw [hone, hnarrow, hdiv, div_le_iff₀ (by exact_mod_cast hqueries), ← Nat.cast_le (α := ℚ)]
    push_cast
    constructor <;> intro hle <;> linarith

end Quotient

end F64

end VllmColdstartOperator.Foundation
