import Oseo.Library.DecimalFields
import Oseo.NumberFormatting.NumberText

/-!
# The decimals that are printed

`toFixed`, `toExponential` and `toPrecision` print the decimal nearest to the exact value of the
double, the larger one of two that are as near. The exponent is corrected to the exact one from
every estimate within 64 of it (`correctExponent_eq`), and a carry of the rounding into one digit
more moves the exponent with it (`numberSignificantDigits_selects`).
-/

namespace Oseo.NumberFormatting

open Int (log)
open Nat
open List
open Library Library.FloatFormat NumberBignum

variable {estimate : Binary64 → ℤ} {magnitude : Binary64} {p : ℕ} {e : ℤ}

/-! ## What is to be printed -/

/-- The decimals with `f` digits behind the point. -/
def fixedDecimals (f : ℕ) : Set ℚ := {w | ∃ n : ℤ, w = n / 10 ^ f}

/-- The decimals with `p` significant digits. -/
def preciseDecimals (p : ℕ) : Set ℚ :=
  {w | ∃ n : ℕ, ∃ e : ℤ, 10 ^ (p - 1) ≤ n ∧ n < 10 ^ p ∧ w = n * 10 ^ (e - p + 1)}

/-- The `p` digits and the exponent of the nearest decimal; zero has zeros and the exponent
zero. -/
def Selected (p : ℕ) (x : ℚ) (digits : List Char) (e : ℤ) : Prop :=
  (x = 0 ∧ digits = List.replicate p '0' ∧ e = 0) ∨
    (x ≠ 0 ∧ ∃ n : ℕ, 10 ^ (p - 1) ≤ n ∧ n < 10 ^ p ∧ digits = Nat.toDigits 10 n ∧
      Nearest (preciseDecimals p) x (n * 10 ^ (e - p + 1)))

/-- An integer in hundredths and the like: `f` digits behind the point, one in front at least. -/
def fixedText (n f : ℕ) : List Char :=
  let m := Nat.toDigits 10 n
  let m := if m.length ≤ f then List.replicate (f + 1 - m.length) '0' ++ m else m
  if f = 0 then m else m.take (m.length - f) ++ '.' :: m.drop (m.length - f)

/-- One digit, the others behind a point, and the exponent with its sign. -/
def exponentialText (digits : List Char) (e : ℤ) : List Char :=
  digits.take 1 ++ (if digits.length = 1 then [] else '.' :: digits.drop 1) ++
    'e' :: (if 0 ≤ e then '+' else '-') :: Nat.toDigits 10 e.natAbs

/-- The digits in the exponential form, or with a point where the exponent puts it. -/
def precisionText (p : ℕ) (digits : List Char) (e : ℤ) : List Char :=
  if e < -6 ∨ p ≤ e then exponentialText digits e
  else if e = p - 1 then digits
  else if 0 ≤ e then digits.take (e + 1).toNat ++ '.' :: digits.drop (e + 1).toNat
  else "0.".toList ++ List.replicate (-(e + 1)).toNat '0' ++ digits

/-! ## Scaled ratios -/

lemma zpow_toNat_div (base : ℚ) (k : ℤ) :
    base ^ k.toNat / base ^ (-k).toNat = base ^ k := by
  rcases le_total 0 k with hpos | hneg
  · obtain ⟨n, rfl⟩ := Int.eq_ofNat_of_zero_le hpos
    rw [Int.toNat_natCast, Int.toNat_of_nonpos (by omega), pow_zero, div_one, zpow_natCast]
  · obtain ⟨n, hn⟩ := Int.eq_ofNat_of_zero_le (by omega : 0 ≤ -k)
    have hk : k = -(n : ℤ) := by omega
    rw [hk, neg_neg, Int.toNat_natCast, Int.toNat_of_nonpos (by omega), pow_zero, zpow_neg,
      zpow_natCast, one_div]

lemma value_tenfold (bignum : NumberBignum) (count : ℕ) :
    (tenfold bignum count).value = bignum.value * 10 ^ count :=
  value_iterate_multiplySmall bignum 10 count

/-- The ratio is the value times the power of ten. -/
lemma numberScaledRatio_value (hsign : 0 ≤ magnitude.value) (decimalShift : ℤ) :
    0 < (numberScaledRatio magnitude decimalShift).2.value ∧
      ((numberScaledRatio magnitude decimalShift).1.value : ℚ) /
        (numberScaledRatio magnitude decimalShift).2.value =
          magnitude.value * 10 ^ decimalShift := by
  obtain ⟨hvalue, -⟩ := numberDecompose_eq (Number.is_finite magnitude) hsign
  dsimp only [numberScaledRatio]
  rw [value_tenfold, value_tenfold, value_doubled, value_doubled, value_fromU64, value_fromU64,
    one_mul]
  constructor
  · positivity
  · rw [← hvalue, ← zpow_toNat_div 2, ← zpow_toNat_div 10]
    push_cast
    rw [mul_div_mul_comm, mul_div_assoc]

/-- The value times the power of ten lies around the rounded integer, the upper half included. -/
lemma numberRoundScaled_bounds (hsign : 0 ≤ magnitude.value) (decimalShift : ℤ) :
    ((numberRoundScaled magnitude decimalShift).value : ℚ) - 1 / 2 ≤
        magnitude.value * 10 ^ decimalShift ∧
      magnitude.value * 10 ^ decimalShift <
        (numberRoundScaled magnitude decimalShift).value + 1 / 2 := by
  obtain ⟨hpos, hratio⟩ := numberScaledRatio_value hsign decimalShift
  obtain ⟨hquotient, hremainder⟩ :=
    @value_divmod (numberScaledRatio magnitude decimalShift).1 _ hpos
  rw [← hratio]
  dsimp only [numberRoundScaled]
  set numerator := (numberScaledRatio magnitude decimalShift).1
  set denominator := (numberScaledRatio magnitude decimalShift).2
  have hden : (0 : ℚ) < denominator.value := by exact_mod_cast hpos
  have hdiv : (numerator.value : ℚ) = denominator.value * (numerator.divmod denominator).1.value +
      (numerator.divmod denominator).2.value := by
    rw [hquotient, hremainder]
    exact_mod_cast (div_add_mod _ _).symm
  have hlt : ((numerator.divmod denominator).2.value : ℚ) < denominator.value := by
    rw [hremainder]
    exact_mod_cast mod_lt _ hpos
  rw [le_div_iff₀ hden, div_lt_iff₀ hden, hdiv]
  split
  · rename_i hhalf
    rw [ne_eq, compare_eq_lt, value_multiplySmall, not_lt] at hhalf
    have hcast : (denominator.value : ℚ) ≤ (numerator.divmod denominator).2.value * 2 := by
      exact_mod_cast hhalf
    rw [value_add, value_fromU64]
    push_cast
    constructor <;> linarith
  · rename_i hhalf
    rw [not_not, compare_eq_lt, value_multiplySmall] at hhalf
    have hcast : ((numerator.divmod denominator).2.value : ℚ) * 2 < denominator.value := by
      exact_mod_cast hhalf
    constructor <;> linarith

/-- The rounded integer is the nearest one, in units of the place it was scaled to. -/
lemma numberRoundScaled_nearest (hsign : 0 ≤ magnitude.value) (decimalShift : ℤ) :
    Nearest (multiples (10 ^ (-decimalShift))) magnitude.value
      ((numberRoundScaled magnitude decimalShift).value * 10 ^ (-decimalShift)) := by
  obtain ⟨hlow, hhigh⟩ := numberRoundScaled_bounds hsign decimalShift
  have hpos : (0 : ℚ) < 10 ^ (-decimalShift) := zpow_pos (by norm_num) _
  have hone : (10 : ℚ) ^ decimalShift * 10 ^ (-decimalShift) = 1 := by
    rw [← zpow_add₀ (by norm_num), add_neg_cancel, zpow_zero]
  have hscaled : magnitude.value =
      magnitude.value * 10 ^ decimalShift * 10 ^ (-decimalShift) := by
    rw [mul_assoc, hone, mul_one]
  have hlow' := mul_le_mul_of_nonneg_right hlow hpos.le
  have hhigh' := mul_lt_mul_of_pos_right hhigh hpos
  rw [← hscaled] at hlow' hhigh'
  have hnearest := @nearest_multiple magnitude.value (10 ^ (-decimalShift))
    (numberRoundScaled magnitude decimalShift).value hpos
    (by rw [Int.cast_natCast]; linarith) (by rw [Int.cast_natCast]; linarith)
  rwa [Int.cast_natCast] at hnearest

/-! ## The exponent -/

lemma value_pow10 (exponent : ℕ) : (numberBignumPow10 exponent).value = 10 ^ exponent := by
  unfold numberBignumPow10
  rw [value_tenfold, value_fromU64, one_mul]

/-- The bignums that are compared are the two powers of ten and the ratio, times one factor. -/
lemma exponentBounds_scaled {numerator denominator : NumberBignum} (e : ℤ)
    (h : 0 < denominator.value) : ∃ factor : ℚ, 0 < factor ∧
      ((exponentBounds numerator denominator e).1.value : ℚ) = 10 ^ e * factor ∧
      ((exponentBounds numerator denominator e).2.1.value : ℚ) = 10 ^ (e + 1) * factor ∧
      ((exponentBounds numerator denominator e).2.2.value : ℚ) =
        numerator.value / denominator.value * factor := by
  have hden : (0 : ℚ) < denominator.value := by exact_mod_cast h
  unfold exponentBounds
  split
  · rename_i he
    obtain ⟨n, rfl⟩ := Int.eq_ofNat_of_zero_le he
    refine ⟨denominator.value, hden, ?_, ?_, (div_mul_cancel₀ _ hden.ne').symm⟩
    · show ((NumberBignum.multiplyBignum _ _).value : ℚ) = _
      rw [value_multiplyBignum, value_pow10, Int.toNat_natCast, zpow_natCast]
      push_cast
      rfl
    · show ((NumberBignum.multiplyBignum _ _).value : ℚ) = _
      have hsucc : ((n : ℤ) + 1).toNat = n + 1 := by omega
      rw [value_multiplyBignum, value_pow10, hsucc, zpow_add_one₀ (by norm_num), zpow_natCast]
      push_cast
      ring
  · rename_i he
    obtain ⟨n, hn⟩ := Int.eq_ofNat_of_zero_le (by omega : 0 ≤ -e)
    have hneg : e = -(n : ℤ) := by omega
    refine ⟨denominator.value * 10 ^ n, by positivity, ?_, ?_, ?_⟩
    · rw [hneg, zpow_neg, zpow_natCast]
      field_simp
    · show ((NumberBignum.multiplySmall _ _).value : ℚ) = _
      rw [value_multiplySmall, hneg, zpow_add_one₀ (by norm_num), zpow_neg, zpow_natCast]
      push_cast
      field_simp
    · show ((NumberBignum.multiplyBignum _ _).value : ℚ) = _
      rw [value_multiplyBignum, value_pow10, hneg, neg_neg, Int.toNat_natCast]
      push_cast
      field_simp

/-- The comparisons of an attempt tell whether the exponent is too high or too low. -/
lemma exponentBounds_compare {numerator denominator : NumberBignum} (e : ℤ)
    (h : 0 < denominator.value) (hnumerator : 0 < numerator.value) :
    ((exponentBounds numerator denominator e).2.2.compare
        (exponentBounds numerator denominator e).1 = .lt ↔
          log 10 ((numerator.value : ℚ) / denominator.value) < e) ∧
      ((exponentBounds numerator denominator e).2.2.compare
        (exponentBounds numerator denominator e).2.1 = .lt ↔
          log 10 ((numerator.value : ℚ) / denominator.value) < e + 1) := by
  have hratio : 0 < (numerator.value : ℚ) / denominator.value :=
    div_pos (by exact_mod_cast hnumerator) (by exact_mod_cast h)
  obtain ⟨factor, hfactor, hlow, hhigh, hscaled⟩ := @exponentBounds_scaled numerator _ e h
  have hcompare : ∀ {a b : NumberBignum} {k : ℤ}, (b.value : ℚ) = 10 ^ k * factor →
      (a.value : ℚ) = numerator.value / denominator.value * factor →
      (a.compare b = .lt ↔ log 10 ((numerator.value : ℚ) / denominator.value) < k) := by
    intro a b k hb ha
    rw [compare_eq_lt, ← cast_lt (α := ℚ), ha, hb, mul_lt_mul_iff_of_pos_right hfactor]
    exact Int.lt_zpow_iff_log_lt (b := 10) (by decide) hratio
  exact ⟨hcompare hlow hscaled, hcompare hhigh hscaled⟩

/-- The exponent is the exact one as soon as the attempts are as many as it was off. -/
theorem correctExponent_eq {numerator denominator : NumberBignum} {attempts : ℕ}
    (h : 0 < denominator.value) (hnumerator : 0 < numerator.value)
    (he : |e - log 10 ((numerator.value : ℚ) / denominator.value)| ≤ attempts) :
    correctExponent numerator denominator attempts e =
      log 10 ((numerator.value : ℚ) / denominator.value) := by
  induction attempts generalizing e with
  | zero =>
    rw [cast_zero, abs_nonpos_iff, sub_eq_zero] at he
    exact he
  | succ attempts ih =>
    obtain ⟨hlow, hhigh⟩ := exponentBounds_compare e h hnumerator
    rw [abs_le] at he
    dsimp only [correctExponent]
    split
    · rename_i hless
      have hlog := hlow.mp hless
      apply ih
      rw [abs_le]
      omega
    · rename_i hless
      have hlog := mt hlow.mpr hless
      split
      · rename_i hmore
        have hlog' := mt hhigh.mpr hmore
        apply ih
        rw [abs_le]
        omega
      · rename_i hmore
        have hlog' := hhigh.mp (not_not.mp hmore)
        omega

/-- number_exact_decimal_exponent finds the exponent of the first digit. -/
lemma numberExactDecimalExponent_eq (hsign : 0 < magnitude.value)
    (hestimate : |estimate magnitude - log 10 magnitude.value| ≤ 64) :
    numberExactDecimalExponent estimate magnitude = log 10 magnitude.value := by
  obtain ⟨hpos, hratio⟩ := numberScaledRatio_value hsign.le 0
  rw [zpow_zero, mul_one] at hratio
  have hnumerator : 0 < (numberScaledRatio magnitude 0).1.value := by
    rw [← hratio, div_pos_iff_of_pos_right (by exact_mod_cast hpos)] at hsign
    exact_mod_cast hsign
  rw [← hratio] at hestimate ⊢
  exact correctExponent_eq hpos hnumerator hestimate

/-! ## Decimal texts -/

lemma digitChar_eq {digit : ℕ} (h : digit < 10) :
    Char.ofNat ('0'.toNat + digit) = digitChar digit := by
  have hall : ∀ digit : Fin 10, Char.ofNat ('0'.toNat + digit) = digitChar digit := by decide
  exact hall ⟨digit, h⟩

/-- Digits without leading zeros, the last one first, are the decimal text of their number. -/
lemma toDigits_ofDigits {digits : List ℕ} (hdecimal : Decimal digits) (hne : digits ≠ [])
    (htrimmed : Trimmed digits) :
    toDigits 10 (ofDigits 10 digits) = (digits.map digitChar).reverse := by
  induction digits with
  | nil => exact absurd rfl hne
  | cons digit digits ih =>
    obtain ⟨hdigit, hrest⟩ := decimal_cons.mp hdecimal
    rcases eq_or_ne digits [] with rfl | hmore
    · rw [ofDigits_singleton]
      exact toDigits_of_lt_base hdigit
    · have hlong : 1 < (digit :: digits).length := by
        rw [length_cons]
        have hpos := length_pos_of_ne_nil hmore
        omega
      have hlast := htrimmed hlong
      rw [getLast?_cons_of_ne_nil hmore] at hlast
      have hvalue := ih hrest hmore (fun _ => hlast)
      -- the other digits stand for a positive number
      have hpos : 0 < ofDigits 10 digits := by
        rw [getLast?_eq_some_getLast hmore] at hlast
        rw [← dropLast_append_getLast hmore, ofDigits_append, ofDigits_singleton]
        have hdigitPos : 0 < digits.getLast hmore :=
          pos_of_ne_zero fun heq => hlast (by rw [heq])
        positivity
      rw [ofDigits_cons, toDigits_of_base_le (by decide) (by omega), map_cons,
        reverse_cons, ← hvalue]
      have hdiv : (digit + 10 * ofDigits 10 digits) / 10 = ofDigits 10 digits := by omega
      have hmod : (digit + 10 * ofDigits 10 digits) % 10 = digit := by omega
      rw [hdiv, hmod]

/-- number_bignum_digit_string is the decimal text of the integer. -/
lemma digitString_eq (bignum : NumberBignum) :
    bignum.digitString = toDigits 10 bignum.value := by
  unfold digitString value
  rw [toDigits_ofDigits bignum.decimal bignum.ne_nil bignum.trimmed, map_reverse,
    map_congr_left (fun digit hmem => digitChar_eq (bignum.decimal digit hmem))]

lemma toDigits_pow (count : ℕ) : toDigits 10 (10 ^ count) = '1' :: List.replicate count '0' := by
  induction count with
  | zero => rfl
  | succ count ih =>
    have hpos : 1 ≤ 10 ^ count := Nat.one_le_two_pow.trans (Nat.pow_le_pow_left (by decide) count)
    rw [pow_succ, Nat.toDigits_of_base_le (by decide) (by omega), Nat.mul_div_cancel _ (by decide),
      Nat.mul_mod_left, ih, replicate_succ']
    rfl

/-! ## Significant digits -/

/-- A decimal of `p` digits is a multiple of the place of another exponent or below its power. -/
lemma preciseDecimals_cases {w : ℚ} (h : w ∈ preciseDecimals p) (e : ℤ) :
    w ∈ multiples (10 ^ (e - p + 1)) ∨ w < 10 ^ e := by
  obtain ⟨n, k, -, hn, rfl⟩ := h
  rcases le_or_gt e k with hle | hgt
  · left
    obtain ⟨distance, hdistance⟩ := Int.eq_ofNat_of_zero_le (sub_nonneg.mpr hle)
    refine ⟨n * 10 ^ distance, ?_⟩
    have hsplit : k - p + 1 = distance + (e - p + 1) := by omega
    rw [hsplit, zpow_add₀ (by norm_num), zpow_natCast]
    push_cast
    ring
  · right
    have hcast : (n : ℚ) < 10 ^ p := by exact_mod_cast hn
    have hpos : (0 : ℚ) < 10 ^ (k - p + 1) := zpow_pos (by norm_num) _
    calc (n : ℚ) * 10 ^ (k - p + 1) < 10 ^ p * 10 ^ (k - p + 1) :=
          mul_lt_mul_of_pos_right hcast hpos
      _ = 10 ^ (k + 1) := by
          rw [← zpow_natCast, ← zpow_add₀ (by norm_num)]
          congr 1
          ring
      _ ≤ 10 ^ e := zpow_le_zpow_right₀ (by norm_num) (by omega)

/-- The integer that the value is rounded to in the place of its exponent has `p` digits, or is
the first one of more. -/
lemma numberRoundScaled_range (hp : 0 < p) (hsign : 0 < magnitude.value)
    (he : e = log 10 magnitude.value) :
    10 ^ (p - 1) ≤ (numberRoundScaled magnitude (p - 1 - e)).value ∧
      (numberRoundScaled magnitude (p - 1 - e)).value ≤ 10 ^ p := by
  obtain ⟨hlow, hhigh⟩ := numberRoundScaled_bounds hsign.le (p - 1 - e)
  have hpower : (0 : ℚ) < 10 ^ ((p : ℤ) - 1 - e) := zpow_pos (by norm_num) _
  have hfirst : (10 : ℚ) ^ e ≤ magnitude.value := by
    rw [he]
    exact Int.zpow_log_le_self (b := 10) (by decide) hsign
  have hlast : magnitude.value < 10 ^ (e + 1) := by
    rw [he]
    exact Int.lt_zpow_succ_log_self (b := 10) (by decide) magnitude.value
  have hscaledLow : (10 : ℚ) ^ (p - 1) ≤ magnitude.value * 10 ^ ((p : ℤ) - 1 - e) := by
    have hsplit : (10 : ℚ) ^ (p - 1) = 10 ^ e * 10 ^ ((p : ℤ) - 1 - e) := by
      rw [← zpow_natCast, ← zpow_add₀ (by norm_num)]
      congr 1
      omega
    rw [hsplit]
    exact mul_le_mul_of_nonneg_right hfirst hpower.le
  have hscaledHigh : magnitude.value * 10 ^ ((p : ℤ) - 1 - e) < 10 ^ p := by
    have hsplit : (10 : ℚ) ^ p = 10 ^ (e + 1) * 10 ^ ((p : ℤ) - 1 - e) := by
      rw [← zpow_natCast, ← zpow_add₀ (by norm_num)]
      congr 1
      omega
    rw [hsplit]
    exact mul_lt_mul_of_pos_right hlast hpower
  constructor
  · have hlt : ((10 ^ (p - 1) : ℕ) : ℚ) <
        (numberRoundScaled magnitude (p - 1 - e)).value + 1 := by
      push_cast
      linarith
    have hnat : 10 ^ (p - 1) < (numberRoundScaled magnitude (p - 1 - e)).value + 1 := by
      exact_mod_cast hlt
    omega
  · have hlt : ((numberRoundScaled magnitude (p - 1 - e)).value : ℚ) < (10 ^ p : ℕ) + 1 := by
      push_cast
      linarith
    have hnat : (numberRoundScaled magnitude (p - 1 - e)).value < 10 ^ p + 1 := by
      exact_mod_cast hlt
    omega

/-- The digits are those of the nearest decimal, with its exponent: where rounding carries into
one digit more, the exponent moves with it. -/
theorem numberSignificantDigits_selects (hp : 0 < p) (hsign : 0 < magnitude.value)
    (hestimate : |estimate magnitude - log 10 magnitude.value| ≤ 64) :
    ∃ (n : ℕ) (e : ℤ), numberSignificantDigits estimate magnitude p =
        some (toDigits 10 n, e) ∧ 10 ^ (p - 1) ≤ n ∧ n < 10 ^ p ∧
      Nearest (preciseDecimals p) magnitude.value (n * 10 ^ (e - p + 1)) ∧
      (e = log 10 magnitude.value ∨ e = log 10 magnitude.value + 1) := by
  obtain ⟨places, rfl⟩ : ∃ places, p = places + 1 := ⟨p - 1, by omega⟩
  have hexponent := numberExactDecimalExponent_eq hsign hestimate
  set e := log 10 magnitude.value with he
  obtain ⟨hlow, hhigh⟩ := numberRoundScaled_range hp hsign he
  have hnearest := numberRoundScaled_nearest hsign.le ((places + 1 : ℕ) - 1 - e)
  have hunit : -(((places + 1 : ℕ) : ℤ) - 1 - e) = e - (places + 1 : ℕ) + 1 := by ring
  rw [hunit] at hnearest
  have hfirst : (10 : ℚ) ^ e ≤ magnitude.value := Int.zpow_log_le_self (b := 10) (by decide) hsign
  have hpower : (10 : ℚ) ^ e = 10 ^ places * 10 ^ (e - (places + 1 : ℕ) + 1) := by
    rw [← zpow_natCast, ← zpow_add₀ (by norm_num)]
    congr 1
    push_cast
    ring
  have hgrid : (10 : ℚ) ^ e ∈ multiples (10 ^ (e - (places + 1 : ℕ) + 1)) := by
    refine ⟨10 ^ places, ?_⟩
    rw [hpower]
    push_cast
    rfl
  have hextend := fun hmem => hnearest.extend hmem hgrid hfirst
    (fun w hw => preciseDecimals_cases hw e)
  dsimp only [numberSignificantDigits]
  rw [hexponent, digitString_eq]
  set n := (numberRoundScaled magnitude ((places + 1 : ℕ) - 1 - e)).value with hn
  rcases lt_or_eq_of_le hhigh with hlt | heq
  · have hlength : (toDigits 10 n).length = places + 1 := toDigits_length_eq hlow hlt
    refine ⟨n, e, ?_, hlow, hlt, hextend ⟨n, e, hlow, hlt, rfl⟩, .inl rfl⟩
    rw [if_neg (by omega), if_pos hlength]
  · -- nines carried: the decimal is the power of ten above
    have hlength : (toDigits 10 n).length = places + 1 + 1 := by
      rw [heq, toDigits_pow, length_cons, length_replicate]
    have hless : 10 ^ places < 10 ^ (places + 1) :=
      Nat.pow_lt_pow_right (by decide) (lt_succ_self _)
    have hsame : (n : ℚ) * 10 ^ (e - (places + 1 : ℕ) + 1) =
        (10 ^ places : ℕ) * 10 ^ (e + 1 - (places + 1 : ℕ) + 1) := by
      have hshift : e + 1 - ((places + 1 : ℕ) : ℤ) + 1 = e - (places + 1 : ℕ) + 1 + 1 := by ring
      have hstep := zpow_add_one₀ (by norm_num : (10 : ℚ) ≠ 0) (e - (places + 1 : ℕ) + 1)
      rw [heq, hshift, hstep]
      push_cast
      ring
    have hmem : (n : ℚ) * 10 ^ (e - (places + 1 : ℕ) + 1) ∈ preciseDecimals (places + 1) :=
      ⟨10 ^ places, e + 1, le_refl _, hless, hsame⟩
    refine ⟨10 ^ places, e + 1, ?_, le_refl _, hless, ?_, .inr rfl⟩
    · rw [if_pos hlength, toDigits_pow]
      rfl
    · rw [← hsame]
      exact hextend hmem

/-! ## The texts -/

/-- The code pads and points the digits as the specification does. -/
lemma pointedDigits_eq (n f : ℕ) : pointedDigits (toDigits 10 n) f = fixedText n f := by
  have hpos := @length_toDigits_pos 10 n
  dsimp only [pointedDigits, fixedText]
  by_cases hshort : (toDigits 10 n).length ≤ f
  · have hpad : 0 < f ∧ (toDigits 10 n).length ≤ f := ⟨by omega, hshort⟩
    rw [if_pos hshort, if_pos hpad]
  · have hpad : ¬(0 < f ∧ (toDigits 10 n).length ≤ f) := fun h => hshort h.2
    rw [if_neg hshort, if_neg hpad, replicate_zero, nil_append]

/-- The exponential form fits, with an exponent of at most four digits. -/
lemma numberFormatExponentialDigits_eq {digits : List Char} {capacity : ℕ} (hne : digits ≠ [])
    (he : e.natAbs < 10 ^ 4) (hcapacity : digits.length + 7 ≤ capacity) :
    numberFormatExponentialDigits digits e capacity = some (exponentialText digits e) := by
  obtain ⟨first, rest, rfl⟩ := exists_cons_of_ne_nil hne
  have hexponent := (length_toDigits_le_iff (by decide) (by decide)).mpr he
  have hsign : (if e < 0 then '-' else '+') = (if 0 ≤ e then '+' else '-') := by
    split
    · rw [if_neg (by omega)]
    · rw [if_pos (by omega)]
  have htext : (first :: rest).take 1 ++
      (if 1 < (first :: rest).length then '.' :: (first :: rest).tail else []) =
        (first :: rest).take 1 ++ (if (first :: rest).length = 1 then []
          else '.' :: (first :: rest).drop 1) := by
    rw [length_cons]
    split
    · rw [if_neg (by omega)]
      rfl
    · rw [if_pos (by omega)]
  dsimp only [numberFormatExponentialDigits]
  rw [htext, hsign]
  apply if_neg
  have hpoint : (if (first :: rest).length = 1 then []
      else '.' :: (first :: rest).drop 1 : List Char).length ≤ (first :: rest).length := by
    split
    · exact zero_le _
    · exact le_of_eq rfl
  have hone : ((first :: rest).take 1).length = 1 := rfl
  simp only [length_append, length_cons] at hpoint hone hcapacity ⊢
  omega

/-- The decimal exponents of doubles. -/
lemma log_bounds (hsign : 0 < magnitude.value) :
    -1074 ≤ log 10 magnitude.value + 1 ∧ log 10 magnitude.value < 1024 := by
  have hfirst : (10 : ℚ) ^ log 10 magnitude.value ≤ magnitude.value :=
    Int.zpow_log_le_self (b := 10) (by decide) hsign
  have hlast : magnitude.value < 10 ^ (log 10 magnitude.value + 1) :=
    Int.lt_zpow_succ_log_self (b := 10) (by decide) magnitude.value
  constructor
  · by_contra hcontra
    rw [not_le] at hcontra
    have hleast : (2 : ℚ) ^ (-1074 : ℤ) ≤ magnitude.value :=
      (zpow_le_zpow_right₀ one_le_two (least_le_lastExponent binary64 magnitude.value)).trans
        (zpow_lastExponent_le magnitude.representable hsign)
    have hsmall : (10 : ℚ) ^ (log 10 magnitude.value + 1) ≤ 10 ^ (-1074 : ℤ) :=
      zpow_le_zpow_right₀ (by norm_num) hcontra.le
    have hbase : (10 : ℚ) ^ (-1074 : ℤ) ≤ 2 ^ (-1074 : ℤ) := by
      rw [zpow_neg, zpow_neg]
      apply inv_anti₀ (two_zpow_pos _)
      exact zpow_le_zpow_left₀ (by norm_num) two_pos.le (by norm_num)
    exact absurd (hleast.trans_lt hlast) (not_lt.mpr (hsmall.trans hbase))
  · by_contra hcontra
    rw [not_lt] at hcontra
    have hbounded := magnitude.bounded
    rw [abs_of_pos hsign] at hbounded
    have hlarge : (10 : ℚ) ^ (1024 : ℤ) ≤ 10 ^ log 10 magnitude.value :=
      zpow_le_zpow_right₀ (by norm_num) hcontra
    have hbase : (2 : ℚ) ^ 1024 ≤ 10 ^ (1024 : ℤ) := by
      rw [← zpow_natCast]
      exact zpow_le_zpow_left₀ (by norm_num) two_pos.le (by norm_num)
    exact absurd (hbounded.trans_le (hbase.trans hlarge)) (not_lt.mpr hfirst)

/-- The point is put where the specification puts it. -/
lemma positionedDigits_eq {digits : List Char} (hp : 0 < p) (hlength : digits.length = p)
    (he : e < p) :
    positionedDigits digits p (e + 1) = if e = p - 1 then digits
      else if 0 ≤ e then digits.take (e + 1).toNat ++ '.' :: digits.drop (e + 1).toNat
      else "0.".toList ++ List.replicate (-(e + 1)).toNat '0' ++ digits := by
  unfold positionedDigits
  rcases lt_or_ge e 0 with hneg | hnonneg
  · rw [if_pos (by omega), if_neg (by omega), if_neg (by omega)]
    rfl
  · rw [if_neg (by omega)]
    by_cases hall : e = p - 1
    · have htake : (e + 1).toNat = digits.length := by omega
      rw [if_pos hall, if_neg (by omega), htake, take_length, append_nil]
    · rw [if_neg hall, if_pos hnonneg, if_pos (by omega)]

/-! ## The methods -/

lemma digitCount_of_is {x : Number} {count low high : ℕ} (hx : x.Is count) (hlow : low ≤ count)
    (hhigh : count ≤ high) : digitCount low high x = some count := by
  obtain ⟨y, rfl, hy⟩ := hx
  have hcast : (low : ℚ) ≤ y.value ∧ y.value ≤ high := by
    rw [hy]
    exact ⟨by exact_mod_cast hlow, by exact_mod_cast hhigh⟩
  show (if _ then some ⌊y.value⌋₊ else none) = _
  rw [if_pos hcast, hy, floor_natCast]

lemma length_signText (x : Binary64) : (signText x).length ≤ 1 := by
  unfold signText
  split
  · exact le_refl 1
  · exact zero_le 1

lemma magnitudeOf_nonneg (x : Binary64) : 0 ≤ (magnitudeOf x).value := abs_nonneg x.value

lemma magnitudeOf_pos {x : Binary64} (h : (magnitudeOf x).value ≠ 0) :
    0 < (magnitudeOf x).value := lt_of_le_of_ne (magnitudeOf_nonneg x) (Ne.symm h)

/-- An estimate of the decimal exponent that the correction loop can repair. -/
def Repairable (estimate : Binary64 → ℤ) : Prop :=
  ∀ magnitude : Binary64, 0 < magnitude.value →
    |estimate magnitude - Int.log 10 magnitude.value| ≤ 64

/-- The digits of a double that toExponential and toPrecision print, and their exponent. -/
lemma selected_of_pos (hp : 0 < p) (hestimate : Repairable estimate)
    (hsign : 0 < magnitude.value) :
    ∃ digits e, numberSignificantDigits estimate magnitude p = some (digits, e) ∧
      Selected p magnitude.value digits e ∧ digits.length = p ∧ e.natAbs < 10 ^ 4 := by
  obtain ⟨n, e, hrun, hlow, hhigh, hnearest, he⟩ :=
    numberSignificantDigits_selects hp hsign (hestimate magnitude hsign)
  obtain ⟨places, rfl⟩ : ∃ places, p = places + 1 := ⟨p - 1, by omega⟩
  obtain ⟨hleast, hlargest⟩ := log_bounds hsign
  have hlength : (toDigits 10 n).length = places + 1 := toDigits_length_eq hlow hhigh
  have hbound : e.natAbs < 10 ^ 4 := by
    rcases he with heq | heq
    · omega
    · omega
  exact ⟨_, e, hrun, .inr ⟨hsign.ne', n, hlow, hhigh, rfl, hnearest⟩, hlength, hbound⟩

section
variable (numberText : Number → List Char) (x : Binary64) {digits : Number} {f : ℕ}
  (hdigits : (numberIntegerOrInfinity digits).Is f) (hf : f ≤ 100)
include numberText x hdigits hf

lemma numberToFixed_eq :
    numberToFixed numberText (.finite x) (some digits) =
      if 10 ^ 21 ≤ |x.value| then .ok (signText x ++ numberText (.finite (magnitudeOf x)))
      else .ok (signText x ++ fixedText (numberRoundScaled (magnitudeOf x) f).value f) := by
  unfold numberToFixed
  rw [Option.getD_some, digitCount_of_is hdigits (zero_le f) hf]
  show (if _ then _ else Except.ok (signText x ++
    pointedDigits (numberRoundScaled (magnitudeOf x) f).digitString f)) = _
  rw [digitString_eq, pointedDigits_eq]
  rfl

/-- toFixed prints the integer nearest in units of the last place. -/
lemma numberToFixed_selects (hsmall : |x.value| < 10 ^ 21) :
    ∃ n : ℕ, Nearest (fixedDecimals f) |x.value| (n / 10 ^ f) ∧
      numberToFixed numberText (.finite x) (some digits) =
        .ok (signText x ++ fixedText n f) := by
  refine ⟨(numberRoundScaled (magnitudeOf x) f).value, ?_, ?_⟩
  · have hnearest := numberRoundScaled_nearest (magnitudeOf_nonneg x) f
    have hset : multiples (10 ^ (-(f : ℤ))) = fixedDecimals f := by
      rw [zpow_neg, zpow_natCast]
      rfl
    rw [hset, zpow_neg, zpow_natCast] at hnearest
    exact hnearest
  · rw [numberToFixed_eq numberText x hdigits hf, if_neg (not_le.mpr hsmall)]

end

/-- The digits that toPrecision prints, zeros for zero. -/
lemma precisionDigits_selects (hestimate : Repairable estimate) (x : Binary64) (hp : 0 < p) :
    ∃ digits e, precisionDigits estimate (magnitudeOf x) p = .ok (digits, e) ∧
      Selected p |x.value| digits e ∧ digits.length = p ∧ e.natAbs < 10 ^ 4 := by
  unfold precisionDigits
  split
  · rename_i hzero
    exact ⟨replicate p '0', 0, rfl, .inl ⟨hzero, rfl, rfl⟩, length_replicate, by decide⟩
  · rename_i hzero
    obtain ⟨digits, e, hfound, hspec⟩ := selected_of_pos hp hestimate (magnitudeOf_pos hzero)
    rw [hfound]
    exact ⟨digits, e, rfl, hspec⟩

/-- The exponential form of the digits selected. -/
lemma numberFormatExponential_selects (hestimate : Repairable estimate)
    (shortest : Binary64 → List Char × ℤ) (x : Binary64) {f capacity : ℕ}
    (hcapacity : f + 8 ≤ capacity) :
    ∃ digits e, Selected (f + 1) |x.value| digits e ∧
      numberFormatExponential estimate shortest (magnitudeOf x) (some f) capacity =
        some (exponentialText digits e) := by
  unfold numberFormatExponential
  split
  · rename_i hzero
    refine ⟨replicate (f + 1) '0', 0, .inl ⟨hzero, rfl, rfl⟩, ?_⟩
    apply numberFormatExponentialDigits_eq (cons_ne_nil _ _) (by decide)
    show (replicate (f + 1) '0').length + 7 ≤ capacity
    rw [length_replicate]
    exact hcapacity
  · rename_i hzero
    obtain ⟨digits, e, hfound, hselected, hlength, hbound⟩ :=
      selected_of_pos (zero_lt_succ f : 0 < f + 1) hestimate (magnitudeOf_pos hzero)
    refine ⟨digits, e, hselected, ?_⟩
    show (numberSignificantDigits estimate (magnitudeOf x) (f + 1) >>= fun found =>
      numberFormatExponentialDigits found.1 found.2 capacity) = _
    rw [hfound]
    have hne : digits ≠ [] := ne_nil_of_length_pos (by omega)
    have hroom : digits.length + 7 ≤ capacity := by omega
    exact numberFormatExponentialDigits_eq hne hbound hroom

lemma numberToExponential_selects (hestimate : Repairable estimate)
    (shortest : Binary64 → List Char × ℤ) (x : Binary64) {digits : Number} {f : ℕ}
    (hdigits : (numberIntegerOrInfinity digits).Is f) (hf : f ≤ 100) :
    ∃ significant e, Selected (f + 1) |x.value| significant e ∧
      numberToExponential estimate shortest (.finite x) (some digits) =
        .ok (signText x ++ exponentialText significant e) := by
  have hsignLength := length_signText x
  have hcount : exponentialDigitCount (some digits) = .ok (some f) := by
    dsimp only [exponentialDigitCount]
    rw [digitCount_of_is hdigits (zero_le f) hf]
  obtain ⟨significant, e, hselected, htext⟩ := numberFormatExponential_selects hestimate shortest x
    (by omega : f + 8 ≤ 160 - (signText x).length)
  refine ⟨significant, e, hselected, ?_⟩
  show (exponentialDigitCount (some digits) >>= fun f =>
    orFailed (numberFormatExponential estimate shortest (magnitudeOf x) f
      (160 - (signText x).length)) >>= fun text => .ok (signText x ++ text)) = _
  rw [hcount]
  show (orFailed (numberFormatExponential estimate shortest (magnitudeOf x) (some f)
    (160 - (signText x).length)) >>= fun text => .ok (signText x ++ text)) = _
  rw [htext]
  rfl

/-- The layout of toPrecision is that of the specification. -/
lemma precisionLayout_eq {digits : List Char} {capacity : ℕ} (hp : 0 < p)
    (hlength : digits.length = p) (he : e.natAbs < 10 ^ 4) (hcapacity : p + 7 ≤ capacity) :
    precisionLayout digits p e capacity = .ok (precisionText p digits e) := by
  unfold precisionLayout precisionText
  split
  · have hne : digits ≠ [] := ne_nil_of_length_pos (by omega)
    rw [numberFormatExponentialDigits_eq hne he (by omega)]
    rfl
  · rw [positionedDigits_eq hp hlength (by omega)]

lemma numberToPrecision_selects (numberText : Number → List Char)
    (hestimate : Repairable estimate) (x : Binary64) {precision : Number}
    (hprecision : (numberIntegerOrInfinity precision).Is p) (hlow : 1 ≤ p) (hhigh : p ≤ 100) :
    ∃ significant e, Selected p |x.value| significant e ∧
      numberToPrecision numberText estimate (.finite x) (some precision) =
        .ok (signText x ++ precisionText p significant e) := by
  have hsignLength := length_signText x
  obtain ⟨significant, e, hfound, hselected, hlength, hbound⟩ :=
    precisionDigits_selects hestimate x hlow
  refine ⟨significant, e, hselected, ?_⟩
  dsimp only [numberToPrecision]
  rw [digitCount_of_is hprecision hlow hhigh]
  show (precisionDigits estimate (magnitudeOf x) p >>= fun found =>
    precisionLayout found.1 p found.2 (256 - (signText x).length) >>= fun text =>
      .ok (signText x ++ text)) = _
  rw [hfound]
  show (precisionLayout significant p e (256 - (signText x).length) >>= fun text =>
    .ok (signText x ++ text)) = _
  rw [precisionLayout_eq hlow hlength hbound (by omega)]
  rfl

/-- Each format prints the decimal that the specification selects: the nearest one with the digits
asked for, the larger one of two that are as near, with its exponent. The logarithm may be
estimated in any way that stays within the reach of the correction. -/
theorem formats_select (numberText : Number → List Char) (shortest : Binary64 → List Char × ℤ)
    (hestimate : Repairable estimate) (x : Binary64) {digits : Number} {count : ℕ}
    (hdigits : (numberIntegerOrInfinity digits).Is count) (hcount : count ≤ 100) :
    (if |x.value| < 10 ^ 21 then
        ∃ n : ℕ, Nearest (fixedDecimals count) |x.value| (n / 10 ^ count) ∧
          numberToFixed numberText (.finite x) (some digits) =
            .ok (signText x ++ fixedText n count)
      else numberToFixed numberText (.finite x) (some digits) =
        .ok (signText x ++ numberText (.finite (magnitudeOf x)))) ∧
      (∃ significant e, Selected (count + 1) |x.value| significant e ∧
        numberToExponential estimate shortest (.finite x) (some digits) =
          .ok (signText x ++ exponentialText significant e)) ∧
      (1 ≤ count → ∃ significant e, Selected count |x.value| significant e ∧
        numberToPrecision numberText estimate (.finite x) (some digits) =
          .ok (signText x ++ precisionText count significant e)) := by
  refine ⟨?_, numberToExponential_selects hestimate shortest x hdigits hcount,
    fun hlow => numberToPrecision_selects numberText hestimate x hdigits hlow hcount⟩
  split
  · rename_i hsmall
    exact numberToFixed_selects numberText x hdigits hcount hsmall
  · rename_i hlarge
    rw [numberToFixed_eq numberText x hdigits hcount, if_pos (not_lt.mp hlarge)]

lemma numberIntegerOrInfinity_of_is {x : Number} {n : ℤ} (h : x.Is n) :
    (numberIntegerOrInfinity x).Is n := by
  obtain ⟨y, rfl, hy⟩ := h
  show (if y.value = 0 then Number.ofInt 0 else (Number.finite y).trunc).Is n
  split
  · rename_i hzero
    have hn : n = 0 := by exact_mod_cast hy.symm.trans hzero
    rw [hn]
    exact Number.ofInt_is (by decide)
  · exact Number.Is.trunc_int ⟨y, rfl, hy⟩

/-- The double of one tenth. -/
def tenth : Binary64 where
  value := 3602879701896397 / 2 ^ 55
  representable := ⟨3602879701896397, -55, by decide, by decide, by norm_num⟩
  bounded := by
    have hpower : (1 : ℚ) ≤ 2 ^ 1024 := one_le_pow₀ one_le_two
    have hsmall : |(3602879701896397 / 2 ^ 55 : ℚ)| < 1 := by
      rw [abs_of_pos (by norm_num)]
      norm_num
    exact hsmall.trans_le hpower

/-- Two digits of one tenth, from an estimate that is one too high. -/
theorem formats_select_tenth :
    (if |tenth.value| < 10 ^ 21 then
        ∃ n : ℕ, Nearest (fixedDecimals 2) |tenth.value| (n / 10 ^ 2) ∧
          numberToFixed (fun _ => []) (.finite tenth) (some (.ofInt 2)) =
            .ok (signText tenth ++ fixedText n 2)
      else numberToFixed (fun _ => []) (.finite tenth) (some (.ofInt 2)) =
        .ok (signText tenth ++ [])) ∧
      (∃ significant e, Selected (2 + 1) |tenth.value| significant e ∧
        numberToExponential (fun magnitude => Int.log 10 magnitude.value + 1) (fun _ => ([], 0))
          (.finite tenth) (some (.ofInt 2)) =
            .ok (signText tenth ++ exponentialText significant e)) ∧
      (1 ≤ 2 → ∃ significant e, Selected 2 |tenth.value| significant e ∧
        numberToPrecision (fun _ => []) (fun magnitude => Int.log 10 magnitude.value + 1)
          (.finite tenth) (some (.ofInt 2)) =
            .ok (signText tenth ++ precisionText 2 significant e)) :=
  formats_select (fun _ => []) (fun _ => ([], 0))
    (fun magnitude _ => by rw [add_sub_cancel_left]; decide) tenth
    (numberIntegerOrInfinity_of_is (Number.ofInt_is (n := 2) (by decide))) (by decide)

end Oseo.NumberFormatting
