import Oseo.BigInts.TextTheorems

/-!
# BigInts and doubles

The conversions between BigInts and doubles of `runtime_bigint.c`. A magnitude becomes the double
nearest to it, and an integral double becomes the BigInt of its value; both ways together give the
double back, except the negative zero (`bigintNumber_exact`).

A double is a sign and a magnitude here, with a sign of zero.
-/

namespace Oseo.BigInts

open List
open Nat
open Oseo.AgentBroadcast (OseoBigInt bigintBits bigintBase)
open Oseo.Library (Number Binary64 binary64 roundsUp size_eq_log)
open Oseo.Library.FloatFormat
open Oseo.Library.Limbs
open Oseo.UriCoding (CodeUnit codeUnit between)

/-- A double: its sign and its magnitude. -/
structure Double where
  negative : Bool
  magnitude : Number

/-- The largest exponent of a double, as C counts. -/
def doubleMaxExponent : ℕ := 1024

/-! ## From magnitudes -/

/-- A bit of the limbs. -/
def limbBit (limbs : List ℕ) (bit : ℕ) : ℕ :=
  (limbs.getD (bit / bigintBits) 0 >>> (bit % bigintBits)) &&& 1

/-- The first bits of a magnitude, so many of them. -/
def significantBits (limbs : List ℕ) (bitLength keptBits : ℕ) : ℕ :=
  (List.range keptBits).foldl
    (fun significant offset => (significant <<< 1) ||| limbBit limbs (bitLength - offset - 1)) 0

/-- The rounding of `magnitude_to_number` when bits are discarded, with their number. -/
def roundSignificant (limbs : List ℕ) (significant discarded : ℕ) : ℕ × ℕ :=
  let roundIndex := discarded - 1
  let roundBit : Bool := limbBit limbs roundIndex ≠ 0
  let sticky := (List.range roundIndex).any (limbBit limbs · ≠ 0)
  if roundBit && (sticky || significant &&& 1 ≠ 0) then
    if significant + 1 = 1 <<< doubleDigits then ((significant + 1) >>> 1, discarded + 1)
    else (significant + 1, discarded)
  else (significant, discarded)

/-- `magnitude_to_number`. -/
def magnitudeToNumber (limbs : List ℕ) (negative : Bool) : Double :=
  let bitLength := magnitudeBits limbs
  if bitLength = 0 then ⟨false, .ofRat 0⟩
  else
    let keptBits := if bitLength < doubleDigits then bitLength else doubleDigits
    let significant := significantBits limbs bitLength keptBits
    let (significant, discarded) :=
      if 0 < bitLength - keptBits then roundSignificant limbs significant (bitLength - keptBits)
      else (significant, bitLength - keptBits)
    ⟨negative, if doubleMaxExponent - doubleDigits < discarded then .infinite false
      else .ofRat (significant * 2 ^ discarded)⟩

/-- `oseo_internal_bigint_to_number`. -/
def bigintToNumber (value : BigIntObject) : Double := magnitudeToNumber value.limbs value.negative

/-- The value of a digit. -/
def integerDigit (unit : CodeUnit) : Option ℕ :=
  if between '0' '9' unit then some (unit.toNat - (codeUnit '0').toNat)
  else if between 'a' 'z' unit then some (unit.toNat - (codeUnit 'a').toNat + 10)
  else if between 'A' 'Z' unit then some (unit.toNat - (codeUnit 'A').toNat + 10)
  else none

def numberLimbs : ℕ := (doubleMaxExponent + bigintBits) / bigintBits

/-- The loop of `oseo_internal_integer_digits_to_number`. -/
def integerDigitsLoop (radix : ℕ) : (units : List CodeUnit) → (limbs : List ℕ) → Double
  | [], limbs => magnitudeToNumber limbs false
  | unit :: units, limbs =>
    match integerDigit unit with
    | none => ⟨false, .nan⟩
    | some digit =>
      if radix ≤ digit then ⟨false, .nan⟩
      else
        let (limbs, carry) := carryLoop 64 (limbs.map (· * radix)) digit
        if carry ≠ 0 ∧ numberLimbs ≤ limbs.length then ⟨false, .infinite false⟩
        else
          let limbs := if carry ≠ 0 then limbs ++ [carry % 2 ^ 32] else limbs
          if doubleMaxExponent < magnitudeBits limbs then ⟨false, .infinite false⟩
          else integerDigitsLoop radix units limbs

/-- `oseo_internal_integer_digits_to_number`. -/
def integerDigitsToNumber (units : List CodeUnit) (radix : ℕ) : Double :=
  integerDigitsLoop radix units [0]

/-! ## From doubles -/

/-- The limbs with the bits of a significand set from an offset on. -/
def significandLimbs (significand offset length : ℕ) : List ℕ :=
  (((List.range 64).filter fun index => (significand >>> index) &&& 1 ≠ 0).map (offset + ·)).foldl
    (fun limbs bit => limbs.modify (bit / bigintBits) (· ||| 1 <<< (bit % bigintBits)))
    (List.replicate length 0)

/-- `oseo_internal_bigint_from_integral_number`, of a finite double with this sign and this
magnitude. frexp leaves a fraction that is a half at least. -/
def bigintFromIntegralNumber (negative : Bool) (magnitude : ℚ) : BigIntResult :=
  if magnitude = 0 then smallBigint false 0
  else
    let exponent := Int.log 2 magnitude + 1
    let significand := ⌊magnitude * 2 ^ (doubleDigits - exponent)⌋₊
    let shift := exponent - doubleDigits
    let (significand, offset) :=
      if shift < 0 then (significand >>> (-shift).toNat, 0) else (significand, shift.toNat)
    publishBigint negative
      (significandLimbs significand offset (exponent.toNat / bigintBits + 1))

/-! ## Rounding -/

section Rounding

variable {limbs : List ℕ} {n : ℕ} {negative : Bool}

lemma limbBit_eq (h : Stands limbs n) (bit : ℕ) : limbBit limbs bit = (n.testBit bit).toNat := by
  have hbit := @value_testBit limbs bigintBits (by decide) h.below bit
  rw [← base_eq, h.value] at hbit
  rw [hbit, toNat_testBit, ← shiftRight_eq_div_pow]
  exact and_one_is_mod _

/-- The loop reads the bits from the top on. -/
lemma significantBits_eq (h : Stands limbs n) {bitLength keptBits : ℕ} (hlt : n < 2 ^ bitLength)
    (hkept : keptBits ≤ bitLength) :
    significantBits limbs bitLength keptBits = n / 2 ^ (bitLength - keptBits) := by
  induction keptBits with
  | zero => exact (div_eq_of_lt hlt).symm
  | succ keptBits ih =>
    have hdouble : 2 ^ (bitLength - keptBits) = 2 ^ (bitLength - keptBits - 1) * 2 := by
      rw [← pow_succ]
      congr 1
      omega
    have hbit := limbBit_eq h (bitLength - keptBits - 1)
    rw [toNat_testBit] at hbit
    unfold significantBits at ih ⊢
    rw [range_succ, foldl_append, ih (by omega), foldl_cons, foldl_nil, hbit,
      Oseo.Library.or_eq_add (by omega), hdouble, ← Nat.div_div_eq_div_mul, Nat.sub_sub]
    have hsplit := Nat.div_add_mod (n / 2 ^ (bitLength - (keptBits + 1))) 2
    omega

/-- The sticky bit tells whether the bits below the guard are zero. -/
lemma any_limbBit (h : Stands limbs n) (guard : ℕ) :
    (range guard).any (limbBit limbs · ≠ 0) = decide (n % 2 ^ guard ≠ 0) := by
  apply Bool.eq_iff_iff.mpr
  rw [any_eq_true, decide_eq_true_iff]
  constructor
  · rintro ⟨bit, hmem, hset⟩ hzero
    rw [decide_eq_true_iff, limbBit_eq h] at hset
    have hbit := testBit_mod_two_pow n guard bit
    rw [hzero, zero_testBit, decide_eq_true (mem_range.mp hmem), Bool.true_and] at hbit
    rw [← hbit] at hset
    exact hset rfl
  · intro hne
    obtain ⟨bit, hbit⟩ := exists_testBit_of_ne_zero hne
    rw [testBit_mod_two_pow, Bool.and_eq_true, decide_eq_true_iff] at hbit
    refine ⟨bit, mem_range.mpr hbit.1, ?_⟩
    rw [limbBit_eq h, hbit.2]
    rfl

/-- Rounding of the first 53 bits of a longer number. -/
lemma roundSignificant_eq (h : Stands limbs n) {guard : ℕ}
    (hsize : size n = doubleDigits + (guard + 1)) :
    (roundSignificant limbs (n / 2 ^ (guard + 1)) (guard + 1)).1 < 2 ^ doubleDigits ∧
      2 ^ doubleDigits ≤ (roundSignificant limbs (n / 2 ^ (guard + 1)) (guard + 1)).1 * 2 ∧
      (roundSignificant limbs (n / 2 ^ (guard + 1)) (guard + 1)).1 *
          2 ^ (roundSignificant limbs (n / 2 ^ (guard + 1)) (guard + 1)).2 =
        (n / 2 ^ (guard + 1) + (roundsUp n guard).toNat) * 2 ^ (guard + 1) := by
  have hlow : 2 ^ (doubleDigits - 1) ≤ n / 2 ^ (guard + 1) := by
    rw [Nat.le_div_iff_mul_le (Nat.two_pow_pos _), ← Nat.pow_add]
    exact Nat.lt_size.mp (by rw [hsize]; unfold doubleDigits; omega)
  have hhigh : n / 2 ^ (guard + 1) < 2 ^ doubleDigits := by
    apply Nat.div_lt_of_lt_mul
    rw [← Nat.pow_add, Nat.add_comm, ← hsize]
    exact Nat.lt_size_self n
  have hguard : decide (limbBit limbs guard ≠ 0) = n.testBit guard := by
    rw [limbBit_eq h]
    cases n.testBit guard <;> rfl
  have hrounds : (n.testBit guard && (decide (n % 2 ^ guard ≠ 0) ||
      decide (n / 2 ^ (guard + 1) % 2 ≠ 0))) = roundsUp n guard := rfl
  have hpower : 2 ^ doubleDigits = 2 ^ (doubleDigits - 1) * 2 := rfl
  unfold roundSignificant
  dsimp only
  rw [Nat.add_sub_cancel, hguard, any_limbBit h, Nat.and_one_is_mod, hrounds, Nat.one_shiftLeft,
    Nat.shiftRight_one]
  generalize n / 2 ^ (guard + 1) = significant at *
  cases roundsUp n guard
  · rw [if_neg Bool.false_ne_true]
    exact ⟨hhigh, by omega, rfl⟩
  · rw [if_pos rfl]
    split
    · next hcarry =>
      -- the carry leaves a power of two, whose last bit is dropped
      refine ⟨by omega, by omega, ?_⟩
      rw [Bool.toNat_true, hcarry, hpower, Nat.mul_div_cancel _ two_pos, Nat.pow_succ 2 (guard + 1),
        Nat.mul_assoc, Nat.mul_comm 2]
    · exact ⟨by omega, by omega, rfl⟩

lemma ofRat_round {q : ℚ} (h : |binary64.round q| < 2 ^ 1024) :
    (Number.ofRat q).Is (binary64.round q) := by
  unfold Number.ofRat
  rw [dif_pos h]
  exact ⟨_, rfl, rfl⟩

lemma ofRat_large {q : ℚ} (hq : 0 ≤ q) (h : 2 ^ 1024 ≤ binary64.round q) :
    Number.ofRat q = .infinite false := by
  unfold Number.ofRat
  rw [dif_neg (not_lt.mpr (h.trans (le_abs_self _))), decide_eq_false (not_lt.mpr hq)]

/-- A significand of 53 bits, which it has all when it is scaled. -/
lemma scaled_ofRat {significant discarded : ℕ} (hlt : significant < 2 ^ doubleDigits)
    (hlead : discarded = 0 ∨ 2 ^ doubleDigits ≤ significant * 2)
    (hround : binary64.round n = (significant * 2 ^ discarded : ℕ)) :
    (if doubleMaxExponent - doubleDigits < discarded then Number.infinite false
      else .ofRat (significant * 2 ^ discarded)) = .ofRat n := by
  have hmax : 2 ^ doubleMaxExponent = 2 ^ doubleDigits * 2 ^ (doubleMaxExponent - doubleDigits) := by
    have hsum : doubleMaxExponent = doubleDigits + (doubleMaxExponent - doubleDigits) := rfl
    rw [← pow_add, ← hsum]
  split
  · next hlarge =>
    have hpower : 2 ^ doubleMaxExponent * 2 ≤ significant * 2 ^ discarded * 2 := by
      calc 2 ^ doubleMaxExponent * 2
          = 2 ^ doubleDigits * 2 ^ (doubleMaxExponent - doubleDigits + 1) := by
            rw [hmax, mul_assoc, ← pow_succ]
        _ ≤ significant * 2 * 2 ^ discarded :=
            Nat.mul_le_mul (by omega) (Nat.pow_le_pow_right two_pos hlarge)
        _ = significant * 2 ^ discarded * 2 := Nat.mul_right_comm _ _ _
    rw [ofRat_large (cast_nonneg n)]
    rw [hround]
    show (2 : ℚ) ^ doubleMaxExponent ≤ _
    exact_mod_cast le_of_mul_le_mul_right hpower two_pos
  · next hsmall =>
    have hpower : significant * 2 ^ discarded < 2 ^ doubleMaxExponent := by
      calc significant * 2 ^ discarded
          < 2 ^ doubleDigits * 2 ^ discarded := mul_lt_mul_of_pos_right hlt (Nat.two_pow_pos _)
        _ ≤ 2 ^ doubleDigits * 2 ^ (doubleMaxExponent - doubleDigits) :=
            Nat.mul_le_mul_left _ (Nat.pow_le_pow_right two_pos (by omega))
        _ = 2 ^ doubleMaxExponent := hmax.symm
    have hbound : |((significant * 2 ^ discarded : ℕ) : ℚ)| < 2 ^ 1024 := by
      rw [abs_of_nonneg (cast_nonneg _)]
      show _ < (2 : ℚ) ^ doubleMaxExponent
      exact_mod_cast hpower
    have hrep : binary64.Representable ((significant * 2 ^ discarded : ℕ) : ℚ) := by
      rw [← hround]
      exact binary64.round_representable n
    have hsame := Number.ofRat_is hrep hbound
    rw [cast_mul, cast_pow, cast_ofNat] at hsame
    refine hsame.ext ?_
    rw [cast_mul, cast_pow, cast_ofNat] at hround hbound
    rw [← hround] at hbound ⊢
    exact ofRat_round hbound

/-- `magnitude_to_number` rounds to the nearest double. -/
lemma magnitudeToNumber_eq (h : Stands limbs n) (negative : Bool) :
    magnitudeToNumber limbs negative = ⟨negative && n ≠ 0, .ofRat n⟩ := by
  unfold magnitudeToNumber
  dsimp only
  rw [magnitudeBits_eq h]
  by_cases hzero : n = 0
  · rw [hzero, if_pos size_zero, cast_zero, decide_eq_false (not_not.mpr rfl), Bool.and_false]
  · rw [if_neg (by rwa [size_eq_zero]), decide_eq_true hzero, Bool.and_true]
    have hlt := lt_size_self n
    congr 1
    rcases lt_or_ge doubleDigits (size n) with hlong | hshort
    · obtain ⟨guard, hguard⟩ : ∃ guard, size n = doubleDigits + (guard + 1) :=
        ⟨size n - doubleDigits - 1, by omega⟩
      obtain ⟨hdigits, hlead, hvalue⟩ := roundSignificant_eq h hguard
      have hround := Oseo.Library.round_natCast (F := binary64) (by decide) hguard
      have hkept : (if size n < doubleDigits then size n else doubleDigits) = doubleDigits :=
        if_neg (by omega)
      rw [hkept, significantBits_eq h hlt hlong.le, hguard, Nat.add_sub_cancel_left,
        if_pos (Nat.succ_pos guard)]
      apply scaled_ofRat hdigits (.inr hlead)
      rw [hround, hvalue]
      push_cast
      rfl
    · have hkept : (if size n < doubleDigits then size n else doubleDigits) = size n := by
        split <;> omega
      have hbound := Nat.pow_le_pow_right two_pos hshort
      rw [hkept, significantBits_eq h hlt (Nat.le_refl _), Nat.sub_self, if_neg (Nat.lt_irrefl 0),
        Nat.pow_zero, Nat.div_one]
      apply scaled_ofRat (Nat.lt_of_lt_of_le hlt hbound) (.inl rfl)
      rw [pow_zero, mul_one]
      apply round_of_representable
      apply representable_intCast (n := (n : ℤ)) (by decide)
      rw [abs_of_nonneg (Int.natCast_nonneg n)]
      exact_mod_cast (lt_of_lt_of_le hlt hbound).le

end Rounding

/-! ## Digits -/

section Digits

variable {limbs : List ℕ} {units : List CodeUnit} {digits : List ℕ} {n radix : ℕ}

lemma ofRat_beyond (h : 2 ^ doubleMaxExponent ≤ n) : Number.ofRat n = .infinite false := by
  apply ofRat_large (cast_nonneg n)
  have hpower : binary64.Representable ((2 : ℚ) ^ doubleMaxExponent) := by
    rw [← zpow_natCast]
    exact two_zpow_representable (by decide)
  have hmono := round_mono (F := binary64) (q := (2 : ℚ) ^ doubleMaxExponent) (r := n) (by
    exact_mod_cast h)
  rwa [round_of_representable hpower] at hmono

/-- The loop gives up only on numbers beyond the largest double, whatever follows. -/
lemma integerDigitsLoop_eq (hpos : 0 < radix) (hradix : radix ≤ 36)
    (hunits : units.mapM integerDigit = some digits) (hlt : ∀ digit ∈ digits, digit < radix)
    (h : Stands limbs n) : integerDigitsLoop radix units limbs =
      ⟨false, .ofRat (n * radix ^ digits.length + ofDigits radix digits.reverse : ℕ)⟩ := by
  induction units generalizing digits limbs n with
  | nil =>
    obtain rfl : [] = digits := Option.some.inj hunits
    rw [integerDigitsLoop, magnitudeToNumber_eq h, Bool.false_and, length_nil, pow_zero,
      mul_one, reverse_nil, ofDigits_nil, add_zero]
  | cons unit units ih =>
    rw [mapM_cons] at hunits
    cases hunit : integerDigit unit with
    | none =>
      rw [hunit] at hunits
      cases hunits
    | some digit =>
      cases hothers : units.mapM integerDigit with
      | none =>
        rw [hunit, hothers] at hunits
        cases hunits
      | some others =>
        rw [hunit, hothers] at hunits
        obtain rfl : digit :: others = digits := Option.some.inj hunits
        obtain ⟨hdigit, hrest⟩ := forall_mem_cons.mp hlt
        obtain ⟨hlength, hbelow, hcarry, hvalue⟩ := literalStep_value hradix hdigit h
        have htotal : n * radix ^ (digit :: others).length +
            ofDigits radix (digit :: others).reverse =
              (n * radix + digit) * radix ^ others.length + ofDigits radix others.reverse := by
          rw [reverse_cons, ofDigits_append, ofDigits_singleton, length_reverse,
            length_cons, pow_succ]
          ring
        have hgrows : n * radix + digit ≤
            (n * radix + digit) * radix ^ others.length + ofDigits radix others.reverse :=
          Nat.le_add_right_of_le (Nat.le_mul_of_pos_right _ (Nat.pow_pos hpos))
        have hword : bigintBase < 2 ^ 32 := by decide
        rw [htotal, integerDigitsLoop, hunit]
        dsimp only
        rw [if_neg (by omega)]
        generalize carryLoop 64 (limbs.map (· * radix)) digit = product at *
        obtain ⟨row, carry⟩ := product
        dsimp only at hlength hbelow hcarry hvalue ⊢
        split
        · next hfull =>
          rw [ofRat_beyond]
          calc 2 ^ doubleMaxExponent ≤ bigintBase ^ numberLimbs := by
                rw [base_eq, ← pow_mul]
                exact Nat.pow_le_pow_right two_pos (by decide)
            _ ≤ bigintBase ^ limbs.length * carry := by
                rw [← hlength]
                exact (Nat.pow_le_pow_right base_pos hfull.2).trans
                  (Nat.le_mul_of_pos_right _ (Nat.pos_of_ne_zero hfull.1))
            _ ≤ _ := by omega
        · have hstands : Stands (if carry ≠ 0 then row ++ [carry % 2 ^ 32] else row)
              (n * radix + digit) := by
            have hrow : row ≠ [] := by
              apply ne_nil_of_length_pos
              rw [hlength]
              exact h.length_pos
            split
            · rw [mod_eq_of_lt (by omega)]
              refine ⟨append_ne_nil_of_left_ne_nil hrow _, below_snoc hbelow hcarry, ?_⟩
              rw [value_snoc, hlength, hvalue]
            · next hzero =>
              refine ⟨hrow, hbelow, ?_⟩
              rw [show carry = 0 by omega, mul_zero, add_zero] at hvalue
              exact hvalue
          rw [magnitudeBits_eq hstands]
          split
          · next hlarge =>
            rw [ofRat_beyond]
            exact (lt_size.mp hlarge).trans hgrows
          · exact ih hothers hrest hstands

end Digits

/-! ## Integral doubles -/

section Integral

variable {bits limbs : List ℕ} {significand offset length n m : ℕ}

/-- Bits that are set one after another. -/
lemma setBits_value (h : Below bigintBase limbs) (hbits : ∀ bit ∈ bits, bit / bigintBits < limbs.length) :
    let result := bits.foldl
      (fun limbs bit => limbs.modify (bit / bigintBits) (· ||| 1 <<< (bit % bigintBits))) limbs
    result.length = limbs.length ∧ Below bigintBase result ∧ ∀ index,
      (ofDigits bigintBase result).testBit index =
        ((ofDigits bigintBase limbs).testBit index || decide (index ∈ bits)) := by
  induction bits generalizing limbs with
  | nil => exact ⟨rfl, h, fun index => (Bool.or_false _).symm⟩
  | cons bit bits ih =>
    obtain ⟨hbit, hothers⟩ := forall_mem_cons.mp hbits
    have hvalue := setBit_value (by decide) h hbit
    obtain ⟨hlength, hbelow, hresult⟩ := @ih (limbs.modify (bit / bigintBits)
      (· ||| 1 <<< (bit % bigintBits))) (setBit_below (by decide) h) (by rwa [length_modify])
    refine ⟨hlength.trans (length_modify ..), hbelow, fun index => ?_⟩
    rw [foldl_cons, hresult, base_eq, hvalue, testBit_or, testBit_two_pow, Bool.or_assoc,
      ← Bool.decide_or]
    congr 1
    rw [decide_eq_decide, mem_cons, eq_comm]

/-- The limbs are those of the shifted significand. -/
lemma significandLimbs_stands (hlt : significand < 2 ^ 64) (hvalue : significand * 2 ^ offset = n)
    (hlength : n < 2 ^ (length * bigintBits)) (hpos : 0 < length) :
    Stands (significandLimbs significand offset length) n := by
  have hmem (bit : ℕ) : bit ∈ ((range 64).filter fun index =>
      (significand >>> index) &&& 1 ≠ 0).map (offset + ·) ↔ n.testBit bit = true := by
    rw [← hvalue, testBit_mul_two_pow, mem_map]
    simp only [mem_filter, mem_range, and_one_ne_zero, Bool.and_eq_true, decide_eq_true_iff]
    constructor
    · rintro ⟨index, ⟨-, hset⟩, rfl⟩
      exact ⟨Nat.le_add_right _ _, by rwa [Nat.add_sub_cancel_left]⟩
    · rintro ⟨hle, hset⟩
      refine ⟨bit - offset, ⟨?_, hset⟩, Nat.add_sub_cancel' hle⟩
      by_contra hge
      have hpow := Nat.pow_le_pow_right two_pos (not_lt.mp hge)
      rw [Nat.testBit_lt_two_pow (hlt.trans_le hpow)] at hset
      cases hset
  have hbits : ∀ bit ∈ ((range 64).filter fun index =>
      (significand >>> index) &&& 1 ≠ 0).map (offset + ·),
      bit / bigintBits < (replicate length 0).length := by
    intro bit hset
    rw [length_replicate, div_lt_iff_lt_mul (by decide)]
    by_contra hge
    have hpow := Nat.pow_le_pow_right two_pos (not_lt.mp hge)
    rw [hmem, Nat.testBit_lt_two_pow (hlength.trans_le hpow)] at hset
    cases hset
  obtain ⟨hcount, hbelow, hresult⟩ := setBits_value (below_replicate_zero base_pos length) hbits
  refine ⟨?_, hbelow, ?_⟩
  · apply ne_nil_of_length_pos
    unfold significandLimbs
    rwa [hcount, length_replicate]
  · apply eq_of_testBit_eq
    intro index
    unfold significandLimbs
    rw [hresult, ofDigits_replicate_zero, zero_testBit, Bool.false_or]
    exact Bool.eq_iff_iff.mpr (by rw [decide_eq_true_iff, hmem])

/-- A BigInt that is published becomes the double of its value. -/
lemma Exact.toNumber {negative : Bool} {result : BigIntResult} (h : Exact (signed negative m) result)
    {number : Binary64} (hnumber : number.value = m) : ∃ integer : OseoBigInt,
      result = .ok (bigintObject integer) ∧
        bigintToNumber (bigintObject integer) = ⟨negative && m ≠ 0, .finite number⟩ := by
  have hbounded := number.bounded
  rw [hnumber, abs_of_nonneg (cast_nonneg m)] at hbounded
  have hsize : size m ≤ bigintMaxBits := by
    have hle : size m ≤ 1024 := size_le.mpr (by exact_mod_cast hbounded)
    exact hle.trans (by decide)
  unfold Exact at h
  rw [natAbs_signed, if_pos hsize] at h
  obtain ⟨_, rfl, integer, rfl, hvalue, -⟩ := h
  have hholds := holds_object integer
  rw [hvalue] at hholds
  have hstands := hholds.stands
  rw [natAbs_signed] at hstands
  refine ⟨integer, rfl, ?_⟩
  unfold bigintToNumber
  rw [magnitudeToNumber_eq hstands, hholds.negative]
  congr 1
  · unfold signed
    cases negative
    · simp
    · by_cases hzero : m = 0
      · simp [hzero]
      · simp [hzero, pos_of_ne_zero hzero]
  · have hfinite : (Number.ofRat m).Is m := by
      apply Number.ofRat_is
      · rw [← hnumber]
        exact number.representable
      · rwa [abs_of_nonneg (cast_nonneg m)]
    exact hfinite.ext ⟨number, rfl, hnumber⟩

/-- `oseo_internal_bigint_from_integral_number` is exact. -/
lemma bigintFromIntegralNumber_exact {number : Binary64} (hnumber : number.value = m)
    (negative : Bool) : ∃ integer : OseoBigInt,
      bigintFromIntegralNumber negative number.value = .ok (bigintObject integer) ∧
        bigintToNumber (bigintObject integer) = ⟨negative && m ≠ 0, .finite number⟩ := by
  unfold bigintFromIntegralNumber
  dsimp only
  by_cases hzero : m = 0
  · subst hzero
    rw [if_pos (by rw [hnumber, cast_zero])]
    obtain ⟨integer, hresult, hback⟩ := (smallBigint_exact base_pos false).toNumber hnumber
    exact ⟨integer, hresult, by rw [hback, decide_eq_false (not_not.mpr rfl), Bool.and_false, Bool.and_false]⟩
  · have hpos : 0 < number.value := by
      rw [hnumber]
      exact_mod_cast pos_of_ne_zero hzero
    rw [if_neg hpos.ne']
    obtain ⟨hvalue, hbound, -⟩ := Oseo.NumberFormatting.scaled_mantissa number.representable hpos
    have hdigits : (doubleDigits : ℤ) = 53 := rfl
    have hlog : Int.log 2 number.value + 1 = (size m : ℤ) := by
      rw [hnumber, Int.log_natCast, size_eq_log hzero]
      rfl
    rw [hlog] at hvalue hbound
    rw [hdigits, hlog]
    generalize ⌊number.value * 2 ^ (53 - (size m : ℤ))⌋₊ = significand at *
    rw [hnumber] at hvalue
    apply Exact.toNumber _ hnumber
    apply publishBigint_exact
    have hlength : m < 2 ^ ((size m / bigintBits + 1) * bigintBits) := by
      apply (Nat.lt_size_self m).trans_le
      apply Nat.pow_le_pow_right two_pos
      have hsplit := Nat.div_add_mod (Nat.size m) bigintBits
      have hrest := Nat.mod_lt (Nat.size m) (by decide : 0 < bigintBits)
      rw [add_mul, mul_comm]
      omega
    rw [Int.toNat_natCast]
    split
    · next hneg =>
      -- the significand has more digits than the integer
      obtain ⟨count, hcount⟩ : ∃ count : ℕ, (size m : ℤ) - 53 = -(count : ℤ) :=
        ⟨(53 - (size m : ℤ)).toNat, by omega⟩
      rw [hcount, zpow_neg, zpow_natCast, ← div_eq_mul_inv,
        div_eq_iff (pow_ne_zero _ two_ne_zero)] at hvalue
      have hnat : significand = m * 2 ^ count := by exact_mod_cast hvalue
      rw [hcount, neg_neg, Int.toNat_natCast]
      dsimp only
      rw [hnat, Nat.shiftRight_eq_div_pow, Nat.mul_div_cancel _ (Nat.two_pow_pos count)]
      have hle : m ≤ significand := hnat ▸ Nat.le_mul_of_pos_right m (Nat.two_pow_pos count)
      exact significandLimbs_stands (by omega) (mul_one m) hlength (succ_pos _)
    · next hnonneg =>
      obtain ⟨count, hcount⟩ := Int.eq_ofNat_of_zero_le (not_lt.mp hnonneg)
      rw [hcount, zpow_natCast] at hvalue
      rw [hcount]
      exact significandLimbs_stands (by omega) (by exact_mod_cast hvalue) hlength (succ_pos _)

end Integral

/-! ## The conversions -/

/-- A magnitude becomes the nearest double, infinity when that is beyond the doubles; an integral
double becomes a BigInt that becomes this double again, unless it is the negative zero; and the
digits of an integer become the nearest double. -/
theorem bigintNumber_exact :
    (∀ limbs n negative, Stands limbs n →
      (magnitudeToNumber limbs negative).negative = (negative && n ≠ 0) ∧
      (binary64.round n < 2 ^ 1024 →
        (magnitudeToNumber limbs negative).magnitude.Is (binary64.round n)) ∧
      (2 ^ 1024 ≤ binary64.round n →
        (magnitudeToNumber limbs negative).magnitude = .infinite false)) ∧
    (∀ (number : Binary64) (m : ℕ) (negative : Bool), number.value = m → m ≠ 0 ∨ negative = false →
      ∃ integer : OseoBigInt,
        bigintFromIntegralNumber negative number.value = .ok (bigintObject integer) ∧
          bigintToNumber (bigintObject integer) = ⟨negative, .finite number⟩) ∧
    ∀ radix units digits, 2 ≤ radix → radix ≤ 36 → units.mapM integerDigit = some digits →
      (∀ digit ∈ digits, digit < radix) →
        integerDigitsToNumber units radix =
          ⟨false, .ofRat (Nat.ofDigits radix digits.reverse : ℕ)⟩ := by
  refine ⟨fun limbs n negative h => ?_, fun number m negative hnumber hsign => ?_,
    fun radix units digits hlow hhigh hunits hlt => ?_⟩
  · rw [magnitudeToNumber_eq h]
    refine ⟨rfl, fun hsmall => ?_, ofRat_large (cast_nonneg n)⟩
    have hnonneg : 0 ≤ binary64.round n := by
      have hmono := round_mono (F := binary64) (cast_nonneg (α := ℚ) n)
      rwa [round_of_representable ⟨0, 0, by decide, by decide, by norm_num⟩] at hmono
    exact ofRat_round ((abs_of_nonneg hnonneg).trans_lt hsmall)
  · obtain ⟨integer, hresult, hback⟩ := bigintFromIntegralNumber_exact hnumber negative
    refine ⟨integer, hresult, ?_⟩
    rw [hback]
    rcases hsign with hne | rfl
    · rw [decide_eq_true hne, Bool.and_true]
    · rfl
  · unfold integerDigitsToNumber
    rw [integerDigitsLoop_eq (by omega) hhigh hunits hlt stands_zero, zero_mul, zero_add]

/-- The negative zero comes back as the positive one. -/
theorem integralNumber_negativeZero :
    ¬∀ (number : Binary64) (m : ℕ) (negative : Bool), number.value = m → ∃ integer : BigIntObject,
      bigintFromIntegralNumber negative number.value = .ok integer ∧
        bigintToNumber integer = ⟨negative, .finite number⟩ := by
  intro h
  obtain ⟨integer, hresult, hback⟩ := h ⟨0, ⟨0, 0, by decide, by decide, by norm_num⟩, by norm_num⟩ 0
    true cast_zero.symm
  have hzero : bigintFromIntegralNumber true 0 = .ok ⟨false, [0]⟩ := rfl
  obtain rfl : (⟨false, [0]⟩ : BigIntObject) = integer := Except.ok.inj (hzero.symm.trans hresult)
  cases congrArg Double.negative hback

end Oseo.BigInts
