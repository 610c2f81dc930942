import Oseo.BigInts.ArithmeticTheorems
import Oseo.NumberFormatting.NumberText
import Mathlib.Data.Sign.Basic

/-!
# Comparisons and numerals

The comparison of BigInts is the sign of their difference, and so is that of a BigInt with a double,
where neither side is rounded (`compareNumber_exact`). The text of a BigInt is its canonical numeral,
and it fits into the buffer (`bigintString_eq`).
-/

namespace Oseo.BigInts

open Nat

section

open Option
open Oseo.AgentBroadcast (OseoBigInt)
open Oseo.Library (Number Binary64 binary64 size_eq_log)
open Oseo.Library.FloatFormat

variable {limbs : List ℕ} {n m significand : ℕ} {shift x y : ℤ} {integer left' right' : BigIntObject}

/-! ## BigInts -/

lemma sign_neg_one {a b : ℤ} (h : a < b) : Int.sign (a - b) = -1 :=
  Int.sign_eq_neg_one_of_neg (by omega)

lemma sign_one {a b : ℤ} (h : b < a) : Int.sign (a - b) = 1 :=
  Int.sign_eq_one_of_pos (by omega)

/-- `oseo_internal_bigint_compare` is the sign of the difference. -/
lemma bigintCompare_eq (hleft : Holds left' x) (hright : Holds right' y) :
    bigintCompare left' right' = Int.sign (x - y) := by
  have hmagnitude := compareMagnitude_eq hleft.stands hright.stands
  unfold bigintCompare
  rw [hleft.negative, hright.negative, hmagnitude]
  by_cases hx : x < 0
  · by_cases hy : y < 0
    · -- of two negative ones the larger magnitude is the smaller integer
      rw [decide_eq_true hx, decide_eq_true hy, if_neg (by decide), if_pos rfl, ← Int.sign_neg]
      congr 1
      omega
    · rw [decide_eq_true hx, decide_eq_false hy, if_pos (by decide), if_pos rfl,
        sign_neg_one (by omega)]
  · by_cases hy : y < 0
    · rw [decide_eq_false hx, decide_eq_true hy, if_pos (by decide), if_neg (by decide),
        sign_one (by omega)]
    · rw [decide_eq_false hx, decide_eq_false hy, if_neg (by decide), if_neg (by decide)]
      congr 1
      omega

/-! ## Bits from the top down -/

/-- The comparison of the bits below a cursor is that of the numbers they make. -/
lemma compareBitsLoop_eq (h : Stands limbs n) {cursor : ℕ}
    (hbits : ∀ bit < cursor, significandBit significand shift bit = m.testBit bit) :
    compareBitsLoop limbs significand shift cursor =
      Int.sign (((n % 2 ^ cursor : ℕ) : ℤ) - (m % 2 ^ cursor : ℕ)) := by
  induction cursor with
  | zero =>
    rw [pow_zero, mod_one, mod_one]
    rfl
  | succ cursor ih =>
    have hlower := mod_lt n (Nat.two_pow_pos cursor)
    have hlower' := mod_lt m (Nat.two_pow_pos cursor)
    rw [compareBitsLoop, magnitudeBit_eq h, hbits cursor (lt_succ_self cursor),
      ih fun bit hbit => hbits bit (hbit.trans (lt_succ_self cursor)), mod_pow_succ,
      mod_pow_succ, ← toNat_testBit, ← toNat_testBit]
    generalize n % 2 ^ cursor = lower at *
    generalize m % 2 ^ cursor = lower' at *
    generalize 2 ^ cursor = power at *
    -- the first bits that differ decide, whatever is below them
    cases n.testBit cursor <;> cases m.testBit cursor
    · rw [if_neg (by decide)]
      congr 1
    · rw [if_pos (by decide), if_neg (by decide), sign_neg_one]
      simp
      omega
    · rw [if_pos (by decide), if_pos rfl, sign_one]
      simp
      omega
    · rw [if_neg (by decide)]
      congr 1
      simp

/-- A bit of the shifted significand is a bit of the number it makes. -/
lemma significandBit_eq (hbound : significand < 2 ^ doubleDigits)
    (hvalue : (significand : ℚ) * 2 ^ shift = m) (bit : ℕ) :
    significandBit significand shift bit = m.testBit bit := by
  unfold significandBit
  rcases le_or_gt 0 shift with hleft | hright
  · rw [if_pos hleft]
    obtain ⟨count, rfl⟩ := Int.eq_ofNat_of_zero_le hleft
    rw [zpow_natCast] at hvalue
    have hnat : significand * 2 ^ count = m := by exact_mod_cast hvalue
    rw [← hnat, testBit_mul_two_pow, Int.toNat_natCast]
    by_cases hle : count ≤ bit
    · rw [decide_eq_true hle, Bool.true_and, Bool.true_and]
      by_cases hdigit : bit - count < doubleDigits
      · rw [decide_eq_true hdigit, if_pos rfl, and_one_ne_zero]
      · have hpow : 2 ^ doubleDigits ≤ 2 ^ (bit - count) :=
          Nat.pow_le_pow_right (by decide) (by omega)
        rw [decide_eq_false hdigit, if_neg (by decide), testBit_lt_two_pow (by omega)]
    · rw [decide_eq_false hle, Bool.false_and, Bool.false_and, if_neg (by decide)]
  · rw [if_neg (by omega)]
    dsimp only
    obtain ⟨count, hcount⟩ : ∃ count : ℕ, shift = -(count : ℤ) := ⟨(-shift).toNat, by omega⟩
    rw [hcount, neg_neg, Int.toNat_natCast]
    rw [hcount, zpow_neg, zpow_natCast, ← div_eq_mul_inv,
      div_eq_iff (pow_ne_zero _ two_ne_zero)] at hvalue
    have hnat : significand = m * 2 ^ count := by exact_mod_cast hvalue
    have hshifted : significand.testBit (bit + count) = m.testBit bit := by
      rw [hnat, testBit_mul_two_pow, decide_eq_true (le_add_left count bit), Bool.true_and,
        Nat.add_sub_cancel]
    split
    · rw [and_one_ne_zero, hshifted]
    · next hdigit =>
      have hpow : 2 ^ doubleDigits ≤ 2 ^ (bit + count) :=
        Nat.pow_le_pow_right (by decide) (by omega)
      rw [← hshifted, Nat.testBit_lt_two_pow (by omega)]

/-- The comparison of a magnitude with an integral double. -/
lemma compareMagnitudeDouble_eq (h : Holds integer x) (hrep : binary64.Representable (m : ℚ)) :
    compareMagnitudeDouble integer m = Int.sign ((x.natAbs : ℤ) - m) := by
  unfold compareMagnitudeDouble
  dsimp only
  rw [h.isZero, magnitudeBits_eq h.stands]
  by_cases hm : m = 0
  · rw [hm, cast_zero, if_pos zero_lt_one]
    by_cases hx : x = 0
    · rw [hx]
      rfl
    · rw [decide_eq_false hx, if_neg (by decide), sign_one]
      omega
  · have hpos : (0 : ℚ) < m := by exact_mod_cast pos_of_ne_zero hm
    have hone : ¬(m : ℚ) < 1 := by
      rw [not_lt]
      exact_mod_cast pos_of_ne_zero hm
    obtain ⟨hvalue, hbound, -⟩ := Oseo.NumberFormatting.scaled_mantissa hrep hpos
    have hdigits : (doubleDigits : ℤ) = 53 := rfl
    have hsize : (Int.log 2 (m : ℚ) + 1).toNat = size m := by
      rw [Int.log_natCast, size_eq_log hm]
      rfl
    rw [if_neg hone, hsize, hdigits]
    split
    · next hlt =>
      rw [sign_neg_one]
      exact_mod_cast lt_of_lt_of_le (lt_size_self _) (lt_size.mp hlt)
    · next hge =>
      split
      · next hgt =>
        rw [sign_one]
        exact_mod_cast lt_of_lt_of_le (lt_size_self m) (lt_size.mp hgt)
      · have hsame : size x.natAbs = size m := by omega
        have hfits := lt_size_self x.natAbs
        have hfits' := lt_size_self m
        rw [compareBitsLoop_eq h.stands fun bit _ => significandBit_eq hbound hvalue bit,
          mod_eq_of_lt hfits, mod_eq_of_lt (by rwa [hsame])]

/-! ## Doubles -/

/-- The sign of a number, as the comparisons return it. -/
def signOf (q : ℚ) : ℤ := SignType.sign q

lemma signOf_neg (q : ℚ) : signOf (-q) = -signOf q := by
  unfold signOf
  rw [Left.sign_neg]
  exact SignType.coe_neg _

lemma signOf_neg_one {q r : ℚ} (h : q < r) : signOf (q - r) = -1 := by
  unfold signOf
  rw [sign_neg (sub_neg.mpr h)]
  rfl

lemma signOf_one {q r : ℚ} (h : r < q) : signOf (q - r) = 1 := by
  unfold signOf
  rw [sign_pos (sub_pos.mpr h)]
  rfl

lemma signOf_lt_zero (q : ℚ) : signOf q < 0 ↔ q < 0 := by
  unfold signOf
  rcases lt_trichotomy q 0 with hlt | rfl | hgt
  · rw [sign_neg hlt]
    simp [hlt]
  · rw [sign_zero]
    simp
  · rw [sign_pos hgt]
    simp [hgt.le]

lemma signOf_pos (q : ℚ) : 0 < signOf q ↔ 0 < q := by
  have hneg := signOf_lt_zero (-q)
  rw [signOf_neg] at hneg
  constructor
  · intro h
    linarith [hneg.mp (by omega)]
  · intro h
    have := hneg.mpr (by linarith)
    omega

lemma signOf_sub_self (q : ℚ) : signOf (q - q) = 0 := by
  unfold signOf
  rw [sub_self, sign_zero]
  rfl

/-- Above the integral part, a fraction decides only between equal numbers. -/
lemma sign_fraction {q : ℚ} (hfloor : (m : ℚ) ≤ q) (hnext : q < m + 1) :
    (if Int.sign ((n : ℤ) - m) = 0 ∧ q ≠ m then -1 else Int.sign ((n : ℤ) - m)) =
      signOf ((n : ℚ) - q) := by
  rcases lt_trichotomy n m with hlt | rfl | hgt
  · have hcast : (n : ℚ) < m := by exact_mod_cast hlt
    rw [sign_neg_one (by omega), if_neg (by simp), signOf_neg_one (by linarith)]
  · rw [sub_self, Int.sign_zero]
    by_cases heq : q = n
    · rw [if_neg (fun h => h.2 heq), heq, signOf_sub_self]
    · rw [if_pos ⟨rfl, heq⟩, signOf_neg_one (lt_of_le_of_ne hfloor (Ne.symm heq))]
  · have hcast : (m : ℚ) + 1 ≤ n := by exact_mod_cast hgt
    rw [sign_one (by omega), if_neg (by simp), signOf_one (by linarith)]

/-- The integral part of a double is a double. -/
lemma integral_representable (number : Binary64) (h : Number.truncated |number.value| = m) :
    binary64.Representable (m : ℚ) := by
  have hrep : binary64.Representable |number.value| := by
    rcases abs_choice number.value with habs | habs
    · rw [habs]
      exact number.representable
    · rw [habs]
      exact number.representable.neg
  have hbounded : |(|number.value|)| < 2 ^ 1024 := by
    rw [abs_abs]
    exact number.bounded
  obtain ⟨truncation, -, hvalue⟩ := Number.trunc_is ⟨|number.value|, hrep, hbounded⟩
  have hresult := truncation.representable
  rw [hvalue, h] at hresult
  exact_mod_cast hresult

/-- `oseo_internal_bigint_compare_number` on a finite double. -/
lemma compareNumber_finite (h : Holds integer x) (number : Binary64) :
    bigintCompareNumber integer (.finite number) = some (signOf (x - number.value)) := by
  obtain ⟨m, hm⟩ : ∃ m : ℕ, Number.truncated |number.value| = m := by
    refine ⟨⌊|number.value|⌋.toNat, ?_⟩
    unfold Number.truncated
    rw [if_pos (abs_nonneg _), Int.toNat_of_nonneg (Int.floor_nonneg.mpr (abs_nonneg _))]
  have hfloor : ⌊|number.value|⌋ = m := by
    rw [← hm]
    unfold Number.truncated
    rw [if_pos (abs_nonneg _)]
  have hlow : (m : ℚ) ≤ |number.value| := by
    have hle := Int.floor_le |number.value|
    rw [hfloor] at hle
    exact_mod_cast hle
  have hhigh : |number.value| < m + 1 := by
    have hlt := Int.lt_floor_add_one |number.value|
    rw [hfloor] at hlt
    exact_mod_cast hlt
  have hrep := integral_representable number hm
  have hmagnitude := compareMagnitudeDouble_eq h hrep
  have hdecide := @sign_fraction x.natAbs m _ hlow hhigh
  unfold bigintCompareNumber
  dsimp only
  rw [h.negative, hm, Int.cast_natCast, hmagnitude]
  by_cases hx : x < 0
  · rw [decide_eq_true hx]
    by_cases hnumber : number.value < 0
    · -- of two negative ones the larger magnitude is the smaller number
      rw [decide_eq_true hnumber, if_neg (by decide), if_pos rfl]
      have hflip : (x : ℚ) - number.value = -((x.natAbs : ℚ) - |number.value|) := by
        rw [abs_of_neg hnumber, cast_natAbs, abs_of_neg hx]
        push_cast
        ring
      rw [hflip, signOf_neg, ← hdecide, if_pos rfl]
      generalize Int.sign ((x.natAbs : ℤ) - m) = order
      by_cases hfraction : order = 0 ∧ |number.value| ≠ m
      · rw [if_pos hfraction, hfraction.1, decide_eq_true hfraction.2]
        rfl
      · rw [if_neg hfraction, if_neg]
        intro hboth
        rw [Bool.and_eq_true, decide_eq_true_iff, decide_eq_true_iff] at hboth
        exact hfraction ⟨by omega, hboth.2⟩
    · have hcast : (x : ℚ) < 0 := by exact_mod_cast hx
      rw [decide_eq_false hnumber, if_pos (by decide), if_pos rfl, signOf_neg_one (by linarith)]
  · rw [decide_eq_false hx]
    have hcast : (0 : ℚ) ≤ x := by exact_mod_cast not_lt.mp hx
    by_cases hnumber : number.value < 0
    · rw [decide_eq_true hnumber, if_pos (by decide), if_neg (by decide), signOf_one (by linarith)]
    · rw [decide_eq_false hnumber, if_neg (by decide), if_neg Bool.false_ne_true,
        if_neg Bool.false_ne_true]
      have hsame : (x : ℚ) - number.value = (x.natAbs : ℚ) - |number.value| := by
        rw [abs_of_nonneg (not_lt.mp hnumber), cast_natAbs, abs_of_nonneg (not_lt.mp hx)]
      rw [hsame, ← hdecide]
      generalize Int.sign ((x.natAbs : ℤ) - m) = order
      by_cases hfraction : order = 0 ∧ |number.value| ≠ m
      · rw [if_pos hfraction, hfraction.1, decide_eq_true hfraction.2]
        rfl
      · rw [if_neg hfraction, if_neg]
        intro hboth
        rw [Bool.and_eq_true, decide_eq_true_iff, decide_eq_true_iff] at hboth
        exact hfraction hboth

lemma compareNumber_infinite (integer : BigIntObject) (negative : Bool) :
    bigintCompareNumber integer (.infinite negative) = some (if negative then 1 else -1) := rfl

lemma compareNumber_zero (h : Holds integer x) (number : Number) :
    bigintCompareNumber integer number = some 0 ↔ number.Is x := by
  cases number with
  | nan =>
    constructor
    · intro hnone
      cases hnone
    · rintro ⟨_, hfinite, -⟩
      cases hfinite
  | infinite negative =>
    constructor
    · intro hzero
      cases negative <;> cases hzero
    · rintro ⟨_, hfinite, -⟩
      cases hfinite
  | finite number =>
    have hneg := signOf_lt_zero (x - number.value)
    have hpos := signOf_pos (x - number.value)
    rw [compareNumber_finite h]
    constructor
    · intro hzero
      have hsign := some.inj hzero
      refine ⟨number, rfl, ?_⟩
      have hle : ¬(x : ℚ) - number.value < 0 := fun hlt => absurd (hneg.mpr hlt) (by omega)
      have hge : ¬0 < (x : ℚ) - number.value := fun hlt => absurd (hpos.mpr hlt) (by omega)
      linarith [not_lt.mp hle, not_lt.mp hge]
    · rintro ⟨other, hsame, hvalue⟩
      rw [Number.finite.inj hsame, hvalue, signOf_sub_self]

/-! ## One order -/

/-- The sign of the difference of integers, as that of numbers. -/
lemma bigintCompare_signOf (hleft : Holds left' x) (hright : Holds right' y) :
    bigintCompare left' right' = signOf ((x : ℚ) - y) := by
  rw [bigintCompare_eq hleft hright]
  rcases lt_trichotomy x y with hlt | rfl | hgt
  · have hcast : (x : ℚ) < y := by exact_mod_cast hlt
    rw [sign_neg_one hlt, signOf_neg_one hcast]
  · rw [sub_self, signOf_sub_self, Int.sign_zero]
  · have hcast : (y : ℚ) < x := by exact_mod_cast hgt
    rw [sign_one hgt, signOf_one hcast]

lemma signOf_le_zero (q : ℚ) : signOf q ≤ 0 ↔ q ≤ 0 := by
  rw [← not_lt, ← not_lt, signOf_pos]

lemma signOf_nonneg (q : ℚ) : 0 ≤ signOf q ↔ 0 ≤ q := by
  rw [← not_lt, ← not_lt, signOf_lt_zero]

variable {number : Number} {s t : ℤ}

lemma compareNumber_below (hleft : Holds left' x) (hright : Holds right' y)
    (hnumber : bigintCompareNumber right' number = some t) (hle : bigintCompare left' right' ≤ 0)
    (ht : t ≤ 0) : ∃ r, bigintCompareNumber left' number = some r ∧ r ≤ 0 ∧
      (bigintCompare left' right' < 0 ∨ t < 0 → r < 0) := by
  cases number with
  | nan => cases hnumber
  | infinite negative => exact ⟨t, hnumber, ht, fun _ => by cases negative <;> cases hnumber <;> omega⟩
  | finite number =>
    rw [compareNumber_finite hright] at hnumber
    rw [bigintCompare_signOf hleft hright] at hle ⊢
    rw [← some.inj hnumber] at ht ⊢
    rw [signOf_le_zero] at hle ht
    refine ⟨_, compareNumber_finite hleft number, ?_, ?_⟩
    · rw [signOf_le_zero]
      linarith
    · rw [signOf_lt_zero, signOf_lt_zero, signOf_lt_zero]
      rintro (hstrict | hstrict)
      · linarith
      · linarith

lemma compareNumber_above (hleft : Holds left' x) (hright : Holds right' y)
    (hnumber : bigintCompareNumber right' number = some t) (hle : 0 ≤ bigintCompare left' right')
    (ht : 0 ≤ t) : ∃ r, bigintCompareNumber left' number = some r ∧ 0 ≤ r ∧
      (0 < bigintCompare left' right' ∨ 0 < t → 0 < r) := by
  cases number with
  | nan => cases hnumber
  | infinite negative => exact ⟨t, hnumber, ht, fun _ => by cases negative <;> cases hnumber <;> omega⟩
  | finite number =>
    rw [compareNumber_finite hright] at hnumber
    rw [bigintCompare_signOf hleft hright] at hle ⊢
    rw [← some.inj hnumber] at ht ⊢
    rw [signOf_nonneg] at hle ht
    refine ⟨_, compareNumber_finite hleft number, ?_, ?_⟩
    · rw [signOf_nonneg]
      linarith
    · rw [signOf_pos, signOf_pos, signOf_pos]
      rintro (hstrict | hstrict)
      · linarith
      · linarith

lemma compareNumber_between (hleft : Holds left' x) (hright : Holds right' y)
    (hnumber : bigintCompareNumber left' number = some s)
    (hnumber' : bigintCompareNumber right' number = some t) (hs : s ≤ 0) (ht : 0 ≤ t) :
    bigintCompare left' right' ≤ 0 ∧ (s < 0 ∨ 0 < t → bigintCompare left' right' < 0) := by
  cases number with
  | nan => cases hnumber
  | infinite negative => cases negative <;> cases hnumber <;> cases hnumber' <;> omega
  | finite number =>
    rw [compareNumber_finite hleft] at hnumber
    rw [compareNumber_finite hright] at hnumber'
    rw [bigintCompare_signOf hleft hright]
    rw [← some.inj hnumber, signOf_le_zero] at hs
    rw [← some.inj hnumber', signOf_nonneg] at ht
    rw [← some.inj hnumber, ← some.inj hnumber', signOf_le_zero, signOf_lt_zero,
      signOf_lt_zero, signOf_pos]
    refine ⟨by linarith, ?_⟩
    rintro (hstrict | hstrict)
    · linarith
    · linarith

/-- The comparisons are the signs of the differences, of a BigInt and of any double but NaN; equal
are only equal numbers, and the two comparisons make one order. -/
theorem compareNumber_exact (a b : OseoBigInt) :
    bigintCompare (bigintObject a) (bigintObject b) = Int.sign (a.value - b.value) ∧
    (∀ number : Binary64, bigintCompareNumber (bigintObject a) (.finite number) =
      some (signOf (a.value - number.value))) ∧
    (∀ negative, bigintCompareNumber (bigintObject a) (.infinite negative) =
      some (if negative then 1 else -1)) ∧
    (∀ number, bigintCompareNumber (bigintObject a) number = some 0 ↔ number.Is a.value) ∧
    (∀ number t, bigintCompareNumber (bigintObject b) number = some t →
      bigintCompare (bigintObject a) (bigintObject b) ≤ 0 → t ≤ 0 →
      ∃ r, bigintCompareNumber (bigintObject a) number = some r ∧ r ≤ 0 ∧
        (bigintCompare (bigintObject a) (bigintObject b) < 0 ∨ t < 0 → r < 0)) ∧
    (∀ number t, bigintCompareNumber (bigintObject b) number = some t →
      0 ≤ bigintCompare (bigintObject a) (bigintObject b) → 0 ≤ t →
      ∃ r, bigintCompareNumber (bigintObject a) number = some r ∧ 0 ≤ r ∧
        (0 < bigintCompare (bigintObject a) (bigintObject b) ∨ 0 < t → 0 < r)) ∧
    (∀ number s t, bigintCompareNumber (bigintObject a) number = some s →
      bigintCompareNumber (bigintObject b) number = some t → s ≤ 0 → 0 ≤ t →
      bigintCompare (bigintObject a) (bigintObject b) ≤ 0 ∧
        (s < 0 ∨ 0 < t → bigintCompare (bigintObject a) (bigintObject b) < 0)) :=
  ⟨bigintCompare_eq (holds_object a) (holds_object b), compareNumber_finite (holds_object a),
    compareNumber_infinite _, compareNumber_zero (holds_object a),
    fun _ _ => compareNumber_below (holds_object a) (holds_object b),
    fun _ _ => compareNumber_above (holds_object a) (holds_object b),
    fun _ _ _ => compareNumber_between (holds_object a) (holds_object b)⟩

end

/-! ## Numerals -/

open List
open Oseo.Library (size_eq_log)
open Oseo.AgentBroadcast (OseoBigInt bigintBits bigintBase)
open Oseo.Library.Limbs
open Oseo.UriCoding (CodeUnit codeUnit)

variable {working : List ℕ} {text : List CodeUnit} {radix n digit space : ℕ} {x : ℤ}
  {integer : BigIntObject}

/-! ## Numerals -/

/-- The unit of a digit. -/
def digitUnit (digit : ℕ) : CodeUnit := bigintDigitCharacters.getD digit 0

/-- The digits of a number, without a leading zero. -/
def numeralDigits (radix n : ℕ) : List ℕ := if n = 0 then [0] else (Nat.digits radix n).reverse

/-- The canonical numeral of an integer. -/
def numeral (radix : ℕ) (x : ℤ) : List CodeUnit :=
  (if x < 0 then [codeUnit '-'] else []) ++ (numeralDigits radix x.natAbs).map digitUnit

lemma numeralDigits_small (h : n < radix) : numeralDigits radix n = [n] := by
  unfold numeralDigits
  split
  · next hzero => rw [hzero]
  · next hne => rw [digits_of_lt radix n hne h, reverse_singleton]

lemma numeralDigits_step (hradix : 2 ≤ radix) (h : radix ≤ n) :
    numeralDigits radix n = numeralDigits radix (n / radix) ++ [n % radix] := by
  have hquotient : n / radix ≠ 0 := (div_pos h (by omega)).ne'
  unfold numeralDigits
  rw [if_neg (by omega), if_neg hquotient, digits_def' (by omega) (by omega),
    reverse_cons]

/-- A digit takes one bit at least. -/
lemma numeralDigits_length (hradix : 2 ≤ radix) (n : ℕ) :
    (numeralDigits radix n).length ≤ size n + 1 := by
  unfold numeralDigits
  split
  · exact le_add_left 1 _
  · next hne =>
    have hlog := @log_anti_left radix 2 n (by decide) hradix
    rw [length_reverse, length_digits radix n (by omega) hne, size_eq_log hne]
    omega

lemma numeralDigits_ne_nil (radix n : ℕ) : numeralDigits radix n ≠ [] := by
  unfold numeralDigits
  split
  · exact cons_ne_nil _ _
  · next hne =>
    rw [ne_eq, reverse_eq_nil_iff, digits_eq_nil_iff_eq_zero]
    exact hne

lemma numeralDigits_lt (hradix : 2 ≤ radix) : ∀ digit ∈ numeralDigits radix n, digit < radix := by
  intro digit hmem
  unfold numeralDigits at hmem
  split at hmem
  · rw [mem_singleton.mp hmem]
    omega
  · exact digits_lt_base (by omega) (mem_reverse.mp hmem)

/-- Only the numeral of zero leads with a zero. -/
lemma numeralDigits_lead (h : (numeralDigits radix n).head? = some 0) : n = 0 := by
  by_contra hne
  unfold numeralDigits at h
  rw [if_neg hne, head?_reverse] at h
  have hnil : digits radix n ≠ [] := digits_ne_nil_iff_ne_zero.mpr hne
  rw [getLast?_eq_getLast_of_ne_nil hnil] at h
  exact getLast_digit_ne_zero radix hne (Option.some.inj h)

/-! ## Writing -/

lemma divideLoop_eq (hradix : 0 < radix) (hsmall : radix ≤ 36) (h : Below bigintBase working) :
    divideLoop radix working = divided bigintBase radix working 0 := by
  induction working with
  | nil => rfl
  | cons limb working ih =>
    obtain ⟨hlimb, hworking⟩ := h.tail
    have hremainder := @divided_remainder bigintBase radix 0 hradix working
    have hbase : bigintBase = 2 ^ bigintBits := rfl
    have hvalue : bigintBase = 1073741824 := rfl
    rw [divideLoop, ih hworking, divided]
    dsimp only
    generalize (divided bigintBase radix working 0).2 = remainder at *
    -- the shifted remainder and the limb share no bit
    have hmul : remainder * bigintBase ≤ 36 * bigintBase := mul_le_mul_right _ (by omega)
    have hcurrent : (remainder <<< bigintBits) % 2 ^ 64 ||| limb = remainder * bigintBase + limb := by
      rw [shiftLeft_eq, ← hbase, mod_eq_of_lt (by omega), hbase, mul_comm,
        two_pow_add_eq_or_of_lt (by rwa [← hbase])]
    have hquotient : (remainder * bigintBase + limb) / radix < 2 ^ 32 := by
      have hnext : (remainder + 1) * bigintBase ≤ radix * bigintBase :=
        mul_le_mul_right _ hremainder
      rw [add_mul, one_mul] at hnext
      have hlt : (remainder * bigintBase + limb) / radix < bigintBase :=
        Nat.div_lt_of_lt_mul (by omega)
      omega
    rw [hcurrent, mod_eq_of_lt hquotient]

/-- One division of the loop. -/
lemma divideLoop_stands (hradix : 0 < radix) (hsmall : radix ≤ 36) (h : Stands working n) :
    Stands (divideLoop radix working).1 (n / radix) ∧ (divideLoop radix working).2 = n % radix := by
  have hvalue := @divided_value bigintBase radix working 0
  have hremainder := @divided_remainder bigintBase radix 0 hradix working
  have hbelow := @divided_below bigintBase _ radix 0 hradix h.below
  have hlength := @divided_length bigintBase radix working 0
  rw [divideLoop_eq hradix hsmall h.below]
  rw [h.value, mul_zero, add_zero] at hvalue
  rw [add_comm] at hvalue
  obtain ⟨hquotient, hrest⟩ := (Nat.div_mod_unique hradix).mpr ⟨hvalue, hremainder⟩
  refine ⟨⟨?_, hbelow, hquotient.symm⟩, hrest.symm⟩
  apply ne_nil_of_length_pos
  rw [hlength]
  exact h.length_pos

/-- The loop writes the numeral in front, and takes a place of the buffer for each digit. -/
lemma bigintStringLoop_eq (hradix : 2 ≤ radix) (hsmall : radix ≤ 36) (h : Stands working n)
    (hspace : (numeralDigits radix n).length ≤ space) :
    bigintStringLoop radix space working text =
      some ((numeralDigits radix n).map digitUnit ++ text,
        space - (numeralDigits radix n).length) := by
  induction space generalizing working n text with
  | zero =>
    have hpos := length_pos_of_ne_nil (numeralDigits_ne_nil radix n)
    omega
  | succ space ih =>
    obtain ⟨hquotient, hremainder⟩ := divideLoop_stands (by omega) hsmall h
    have hzero := hquotient.normalizedLimbs.eq_zero_iff (normalizedLimbs_normalized hquotient.nonempty)
    rw [bigintStringLoop]
    dsimp only
    rw [hremainder]
    rcases lt_or_ge n radix with hlast | hmore
    · rw [numeralDigits_small hlast, if_pos (hzero.mpr (div_eq_of_lt hlast)), mod_eq_of_lt hlast]
      rfl
    · have hpos := div_pos hmore (by omega : 0 < radix)
      rw [numeralDigits_step hradix hmore] at hspace ⊢
      rw [length_append, length_singleton] at hspace ⊢
      rw [if_neg (fun hlimbs => hpos.ne' (hzero.mp hlimbs)),
        ih hquotient.normalizedLimbs (by omega), map_append, append_assoc]
      congr 2
      omega

/-- The text of a BigInt is its canonical numeral: the buffer is long enough. -/
theorem bigintString_eq (h : Holds integer x) (hradix : 2 ≤ radix) (hsmall : radix ≤ 36) :
    bigintString integer radix = some (numeral radix x) := by
  have hlength := numeralDigits_length hradix x.natAbs
  unfold bigintString numeral
  dsimp only
  rw [magnitudeBits_eq h.stands, bigintStringLoop_eq hradix hsmall h.stands (by omega),
    h.negative, append_nil]
  show (if decide (x < 0) = true then _ else _) = _
  by_cases hneg : x < 0
  · rw [decide_eq_true hneg, if_pos rfl, if_pos hneg, if_neg (by omega)]
    rfl
  · rw [decide_eq_false hneg, if_neg Bool.false_ne_true, if_neg hneg]
    rfl

end Oseo.BigInts
