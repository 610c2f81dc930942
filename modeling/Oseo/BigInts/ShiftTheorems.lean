import Oseo.BigInts.ArithmeticTheorems

/-!
# Shifts

A shift multiplies by a power of two and rounds down, within the limit of bits (`shift_exact`). The
bits that a right shift loses decide whether a negative magnitude is incremented.
-/

namespace Oseo.BigInts

open Nat
open List
open Oseo.AgentBroadcast (OseoBigInt bigintBits bigintBase)
open Oseo.Library.Limbs

variable {limbs : List ℕ} {n carry shift bitShift : ℕ} {x y : ℤ} {left' right' integer : BigIntObject}

/-! ## To the left -/

lemma shiftTerms_bound (h : Below bigintBase limbs) :
    ∀ term ∈ limbs.map (2 ^ bitShift * ·),
      term + (2 ^ bitShift - 1) < bigintBase * (2 ^ bitShift - 1 + 1) := by
  intro term hmem
  obtain ⟨limb, hlimb, rfl⟩ := mem_map.mp hmem
  have hlt := h limb hlimb
  have hpow := Nat.two_pow_pos bitShift
  have hmul : 2 ^ bitShift * (limb + 1) ≤ 2 ^ bitShift * bigintBase := mul_le_mul_left _ hlt
  rw [mul_add, mul_one] at hmul
  rw [Nat.sub_add_cancel hpow, Nat.mul_comm bigintBase]
  omega

lemma leftShiftLoop_eq (h : Below bigintBase limbs) (hcarry : carry < 2 ^ bitShift) :
    leftShiftLoop bitShift limbs carry =
      carried bigintBase (limbs.map (2 ^ bitShift * ·)) carry := by
  induction limbs generalizing carry with
  | nil => rfl
  | cons limb limbs ih =>
    obtain ⟨hlimb, hrest⟩ := h.tail
    have hshifted : (limb <<< bitShift) ||| carry = 2 ^ bitShift * limb + carry := by
      rw [shiftLeft_eq, mul_comm, two_pow_add_eq_or_of_lt hcarry]
    have hnext : (2 ^ bitShift * limb + carry) / bigintBase < 2 ^ bitShift := by
      apply Nat.div_lt_of_lt_mul
      have hbound := shiftTerms_bound h (2 ^ bitShift * limb) mem_cons_self
      have hpow := Nat.two_pow_pos bitShift
      rw [Nat.sub_add_cancel hpow] at hbound
      omega
    rw [leftShiftLoop, map_cons, carried, hshifted, and_mask, shift_bits, ih hrest hnext]

lemma leftShiftMagnitude_stands (h : Stands limbs n) (shift : ℕ) :
    Stands (leftShiftMagnitude limbs shift) (2 ^ shift * n) := by
  have hpow := Nat.two_pow_pos (shift % bigintBits)
  have hloop := @leftShiftLoop_eq limbs 0 (shift % bigintBits) h.below hpow
  have hvalue := @carried_value bigintBase (limbs.map (2 ^ (shift % bigintBits) * ·)) 0
  have hbelow := @carried_below bigintBase base_pos (limbs.map (2 ^ (shift % bigintBits) * ·)) 0
  have hlength := @carried_length bigintBase (limbs.map (2 ^ (shift % bigintBits) * ·)) 0
  have hcarry := carried_carry (shiftTerms_bound h.below) (zero_le (2 ^ (shift % bigintBits) - 1))
  have hwidth : 2 ^ (shift % bigintBits) ≤ bigintBase := by
    rw [base_eq]
    exact Nat.pow_le_pow_right (by decide) (mod_lt _ (by decide)).le
  unfold leftShiftMagnitude
  rw [hloop]
  apply Stands.normalizedLimbs
  rw [← mul_ofDigits, h.value, add_zero] at hvalue
  generalize carried bigintBase (limbs.map (2 ^ (shift % bigintBits) * ·)) 0 = rest at *
  rw [← hlength] at hvalue
  rw [append_assoc]
  refine ⟨?_, (below_replicate_zero base_pos _).append (below_snoc hbelow (by omega)), ?_⟩
  · exact append_ne_nil_of_right_ne_nil _
      (append_ne_nil_of_right_ne_nil _ (cons_ne_nil _ _))
  · rw [ofDigits_append, ofDigits_replicate_zero, length_replicate, value_snoc, hvalue,
      zero_add, base_eq, ← pow_mul, ← mul_assoc, ← pow_add, div_add_mod]

/-! ## To the right -/

lemma rightShiftLoop_eq (h : Below bigintBase limbs) (hshift : bitShift < bigintBits) :
    rightShiftLoop bitShift limbs = divided bigintBase (2 ^ bitShift) limbs 0 := by
  induction limbs with
  | nil => rfl
  | cons limb limbs ih =>
    obtain ⟨hlimb, hrest⟩ := h.tail
    have hcarry := @divided_remainder bigintBase (2 ^ bitShift) 0 (Nat.two_pow_pos _) limbs
    rw [rightShiftLoop, divided, ih hrest]
    dsimp only
    generalize divided bigintBase (2 ^ bitShift) limbs 0 = rest at *
    have hsplit : bigintBase = 2 ^ bitShift * 2 ^ (bigintBits - bitShift) := by
      rw [base_eq, ← pow_add, Nat.add_sub_cancel' hshift.le]
    split
    · next hzero =>
      rw [hzero, pow_zero] at hcarry ⊢
      have hnone : rest.2 = 0 := by omega
      rw [hnone, Nat.zero_mul, Nat.zero_add, Nat.div_one, Nat.mod_one]
    · have hhigh : limb >>> bitShift < 2 ^ (bigintBits - bitShift) := by
        rw [Nat.shiftRight_eq_div_pow]
        apply Nat.div_lt_of_lt_mul
        rw [← hsplit]
        exact hlimb
      have hor : (limb >>> bitShift) ||| (rest.2 <<< (bigintBits - bitShift)) =
          (rest.2 * bigintBase + limb) / 2 ^ bitShift := by
        have hproduct : rest.2 * bigintBase + limb =
            limb + 2 ^ bitShift * (2 ^ (bigintBits - bitShift) * rest.2) := by
          rw [hsplit]
          ring
        rw [hproduct, Nat.add_mul_div_left _ _ (Nat.two_pow_pos _), Nat.or_comm, Nat.shiftLeft_eq,
          Nat.mul_comm rest.2, ← Nat.two_pow_add_eq_or_of_lt hhigh, Nat.shiftRight_eq_div_pow,
          add_comm]
      have hand : limb &&& (1 <<< bitShift - 1) = (rest.2 * bigintBase + limb) % 2 ^ bitShift := by
        have hproduct : rest.2 * bigintBase + limb =
            limb + 2 ^ bitShift * (2 ^ (bigintBits - bitShift) * rest.2) := by
          rw [hsplit]
          ring
        rw [hproduct, add_mul_mod_self_left, one_shiftLeft, and_two_pow_sub_one_eq_mod]
      rw [hor, hand]

/-- Limbs stand for zero when none of them is another one. -/
lemma any_ne_zero (limbs : List ℕ) :
    limbs.any (· ≠ 0) = decide (ofDigits bigintBase limbs ≠ 0) := by
  have hpos := base_pos
  induction limbs with
  | nil => rfl
  | cons limb limbs ih =>
    rw [any_cons, ih, ofDigits_cons, ← Bool.decide_or, decide_eq_decide]
    constructor
    · rintro (h | h)
      · omega
      · have hmul := mul_pos hpos (pos_of_ne_zero h)
        omega
    · intro h
      by_contra hcontra
      obtain ⟨hlimb, hrest⟩ := not_or.mp hcontra
      rw [not_not] at hlimb hrest
      rw [hlimb, hrest, mul_zero] at h
      exact h rfl

/-- The quotient and whether there is a remainder. -/
lemma rightShiftMagnitude_stands (h : Holds integer x) (shift : ℕ) :
    Stands (rightShiftMagnitude integer shift).1 (x.natAbs / 2 ^ shift) ∧
      (rightShiftMagnitude integer shift).2 = decide (x.natAbs % 2 ^ shift ≠ 0) := by
  have hstands := h.stands
  have hpower : 2 ^ shift = bigintBase ^ (shift / bigintBits) * 2 ^ (shift % bigintBits) := by
    rw [base_eq, ← pow_mul, ← pow_add, div_add_mod]
  unfold rightShiftMagnitude
  dsimp only
  split
  · next hle =>
    have hlt : x.natAbs < 2 ^ shift := by
      have hmono : bigintBase ^ integer.limbs.length ≤ bigintBase ^ (shift / bigintBits) :=
        Nat.pow_le_pow_right base_pos hle
      rw [hpower]
      exact (hstands.lt_pow.trans_le hmono).trans_le (Nat.le_mul_of_pos_right _ (Nat.two_pow_pos _))
    rw [div_eq_of_lt hlt, mod_eq_of_lt hlt, take_of_length_le hle, any_ne_zero,
      hstands.value, h.isZero]
    refine ⟨stands_zero, ?_⟩
    rcases eq_or_ne x 0 with rfl | hne
    · rfl
    · rw [decide_eq_true (Int.natAbs_ne_zero.mpr hne)]
      rfl
  · next hlong =>
    have hsplit := @value_split bigintBase integer.limbs (shift / bigintBits) (by omega)
    have hdrop : Below bigintBase (integer.limbs.drop (shift / bigintBits)) :=
      fun limb hmem => hstands.below limb (mem_of_mem_drop hmem)
    have hlower := value_take_lt one_lt_base hstands.below (shift / bigintBits)
    have hpos := Nat.two_pow_pos (shift % bigintBits)
    have hvalue := @divided_value bigintBase (2 ^ (shift % bigintBits))
      (integer.limbs.drop (shift / bigintBits)) 0
    have hbelow := divided_below hpos hdrop
    have hlength := @divided_length bigintBase (2 ^ (shift % bigintBits))
      (integer.limbs.drop (shift / bigintBits)) 0
    have hremainder := @divided_remainder bigintBase _ 0 hpos
      (integer.limbs.drop (shift / bigintBits))
    rw [rightShiftLoop_eq hdrop (mod_lt _ (by decide)), any_ne_zero]
    rw [hstands.value] at hsplit
    rw [mul_zero, add_zero] at hvalue
    rw [← hvalue] at hsplit
    generalize divided bigintBase (2 ^ (shift % bigintBits))
      (integer.limbs.drop (shift / bigintBits)) 0 = rest at *
    generalize ofDigits bigintBase (integer.limbs.take (shift / bigintBits)) = lower at *
    generalize bigintBase ^ (shift / bigintBits) = power at *
    generalize 2 ^ (shift % bigintBits) = factor at *
    -- the number is the quotient with what the limbs below and the last carry keep
    have hsum : x.natAbs = 2 ^ shift * ofDigits bigintBase rest.1 + (lower + power * rest.2) := by
      rw [hsplit, hpower]
      ring
    have hrest : lower + power * rest.2 < 2 ^ shift := by
      rw [hpower]
      have hmul : power * (rest.2 + 1) ≤ power * factor := mul_le_mul_left _ hremainder
      rw [mul_add, mul_one] at hmul
      omega
    rw [hsum, mul_add_div (Nat.two_pow_pos _), div_eq_of_lt hrest, mul_add_mod,
      mod_eq_of_lt hrest, add_zero]
    refine ⟨Stands.normalizedLimbs ⟨?_, hbelow, rfl⟩, ?_⟩
    · apply ne_nil_of_length_pos
      rw [hlength, length_drop]
      omega
    · rw [← Bool.decide_or, decide_eq_decide]
      have hpositive : 0 < power := by omega
      constructor
      · rintro (hne | hne)
        · omega
        · have hmul := mul_pos hpositive (pos_of_ne_zero hne)
          omega
      · intro hne
        by_contra hcontra
        obtain ⟨hlow, hcarry⟩ := not_or.mp hcontra
        rw [not_not] at hlow hcarry
        rw [hlow, hcarry, mul_zero] at hne
        exact hne rfl

/-! ## Increments -/

lemma below_bound (h : Below bigintBase limbs) :
    ∀ term ∈ limbs, term + 1 < bigintBase * (1 + 1) := by
  intro term hmem
  have hlt := h term hmem
  omega

/-- Ending early leaves what a carry of zero leaves. -/
lemma incrementLoop_eq (h : Below bigintBase limbs) (hcarry : carry ≤ 1) :
    incrementLoop limbs carry = carried bigintBase limbs carry := by
  induction limbs generalizing carry with
  | nil => rfl
  | cons limb limbs ih =>
    obtain ⟨hlimb, hrest⟩ := h.tail
    rw [incrementLoop]
    dsimp only
    split
    · next hzero => rw [hzero, carried_zero h]
    · have hbase : bigintBase = 1073741824 := rfl
      have hnext : (limb + carry) / bigintBase ≤ 1 := by
        rw [hbase]
        omega
      rw [carried, mod_eq_of_lt (by omega), and_mask, shift_bits, ih hrest hnext]

lemma incrementMagnitude_stands (h : Stands limbs n) : Stands (incrementMagnitude limbs) (n + 1) := by
  have hvalue := @carried_value bigintBase limbs 1
  have hbelow := @carried_below bigintBase base_pos limbs 1
  have hlength := @carried_length bigintBase limbs 1
  have hcarry := @carried_carry bigintBase limbs 1 1 (below_bound h.below) (le_refl 1)
  have hsmall := one_lt_base
  unfold incrementMagnitude
  rw [incrementLoop_eq h.below (le_refl 1)]
  apply Stands.normalizedLimbs
  refine ⟨append_ne_nil_of_right_ne_nil _ (cons_ne_nil _ _),
    below_snoc hbelow (by omega), ?_⟩
  rw [value_snoc, hlength, hvalue, h.value]

/-! ## Shifts of integers -/

/-- An integer times a power of two, rounded down. -/
def shifted (x y : ℤ) : ℤ := ⌊(x : ℚ) * 2 ^ y⌋

lemma shifted_left (x : ℤ) (shift : ℕ) : shifted x shift = x * 2 ^ shift := by
  have hcast : (x : ℚ) * 2 ^ (shift : ℤ) = ((x * 2 ^ shift : ℤ) : ℚ) := by
    rw [zpow_natCast]
    push_cast
    rfl
  unfold shifted
  rw [hcast, Int.floor_intCast]

lemma shifted_right (x : ℤ) (shift : ℕ) : shifted x (-(shift : ℤ)) = x / 2 ^ shift := by
  have hcast : (x : ℚ) * 2 ^ (-(shift : ℤ)) = (x : ℚ) / ((2 ^ shift : ℕ) : ℚ) := by
    rw [zpow_neg, zpow_natCast, div_eq_mul_inv]
    push_cast
    rfl
  unfold shifted
  rw [hcast, Rat.floor_intCast_div_natCast]
  rfl

lemma shifted_zero (y : ℤ) : shifted 0 y = 0 := by
  unfold shifted
  rw [Int.cast_zero, zero_mul, Int.floor_zero]

/-- The magnitude of a number that is divided and rounded down. -/
lemma signed_shifted (negative : Bool) (n shift : ℕ) :
    signed negative (if negative && decide (n % 2 ^ shift ≠ 0) then n / 2 ^ shift + 1
      else n / 2 ^ shift) = signed negative n / 2 ^ shift := by
  cases negative with
  | false =>
    rw [Bool.false_and, if_neg (by decide)]
    show ((n / 2 ^ shift : ℕ) : ℤ) = (n : ℤ) / 2 ^ shift
    rfl
  | true =>
    have hquotient : (n : ℤ) / 2 ^ shift = ((n / 2 ^ shift : ℕ) : ℤ) := by
      rfl
    have hsign : ((2 : ℤ) ^ shift).sign = 1 := Int.sign_eq_one_of_pos (by positivity)
    have hdvd : (2 : ℤ) ^ shift ∣ (n : ℤ) ↔ n % 2 ^ shift = 0 := by
      rw [← dvd_iff_mod_eq_zero]
      exact_mod_cast Int.natCast_dvd_natCast
    show -((if true && decide (n % 2 ^ shift ≠ 0) then n / 2 ^ shift + 1 else n / 2 ^ shift : ℕ) : ℤ) =
      -(n : ℤ) / 2 ^ shift
    rw [Int.neg_ediv, hquotient, hsign, Bool.true_and]
    by_cases hzero : n % 2 ^ shift = 0
    · rw [if_pos (hdvd.mpr hzero), if_neg (by rw [decide_eq_true_iff]; exact not_not_intro hzero)]
      omega
    · rw [if_neg (fun h => hzero (hdvd.mp h)), if_pos (decide_eq_true hzero)]
      omega

/-- A right shift by some size. -/
lemma rightShift_exact (h : Holds integer x) (shift : ℕ) :
    Exact (shifted x (-(shift : ℤ))) (publishBigint integer.negative
      (if integer.negative && (rightShiftMagnitude integer shift).2
        then incrementMagnitude (rightShiftMagnitude integer shift).1
        else (rightShiftMagnitude integer shift).1)) := by
  obtain ⟨hquotient, hdiscarded⟩ := rightShiftMagnitude_stands h shift
  have hstands : Stands (if integer.negative && (rightShiftMagnitude integer shift).2
      then incrementMagnitude (rightShiftMagnitude integer shift).1
      else (rightShiftMagnitude integer shift).1)
      (if integer.negative && decide (x.natAbs % 2 ^ shift ≠ 0) then x.natAbs / 2 ^ shift + 1
        else x.natAbs / 2 ^ shift) := by
    rw [hdiscarded]
    split
    · exact incrementMagnitude_stands hquotient
    · exact hquotient
  have hexact := publishBigint_exact hstands integer.negative
  rwa [signed_shifted, h.signed, ← shifted_right] at hexact

/-- A left shift by some size, which the limit of bits may not allow. -/
lemma leftShift_exact (h : Holds integer x) (hne : x ≠ 0) (shift : ℕ) :
    Exact (shifted x shift)
      (if bigintMaxBits < shift || bigintMaxBits - shift < magnitudeBits integer.limbs then
        .error bigintLimitError
      else publishBigint integer.negative (leftShiftMagnitude integer.limbs shift)) := by
  have hresult : signed integer.negative (2 ^ shift * x.natAbs) = shifted x shift := by
    have hsigned := h.signed
    rw [shifted_left]
    nth_rewrite 2 [← hsigned]
    unfold signed
    split
    · push_cast
      ring
    · push_cast
      ring
  have hsize : size (shifted x shift).natAbs = size x.natAbs + shift := by
    rw [← hresult, natAbs_signed, mul_comm, ← shiftLeft_eq, size_shiftLeft]
    exact Int.natAbs_ne_zero.mpr hne
  rw [magnitudeBits_eq h.stands]
  split
  · next hlarge =>
    rw [Bool.or_eq_true, decide_eq_true_iff, decide_eq_true_iff] at hlarge
    apply Exact.error
    omega
  · rw [← hresult]
    exact publishBigint_exact (leftShiftMagnitude_stands h.stands shift) _

/-- A left shift by more than any size. -/
lemma largeLeftShift_exact (h : Holds integer x) (hne : x ≠ 0) (hlarge : sizeMax < shift) :
    Exact (shifted x shift) (.error bigintLimitError) := by
  have hmax : bigintMaxBits ≤ sizeMax := by decide
  have hexact := leftShift_exact h hne shift
  rwa [if_pos (by rw [Bool.or_eq_true, decide_eq_true_iff]; omega)] at hexact

/-- A right shift by more than any size leaves nothing but the sign. -/
lemma largeRightShift_exact (h : Holds integer x) (hne : x ≠ 0)
    (hfits : size x.natAbs ≤ bigintMaxBits) (hlarge : sizeMax < shift) :
    Exact (shifted x (-(shift : ℤ)))
      (smallBigint integer.negative (if integer.negative then 1 else 0)) := by
  have hmax : bigintMaxBits ≤ sizeMax := by decide
  have hlt : x.natAbs < 2 ^ shift :=
    (Nat.lt_size_self _).trans_le (Nat.pow_le_pow_right (by decide) (by omega))
  have hround := signed_shifted integer.negative x.natAbs shift
  rw [Nat.div_eq_of_lt hlt, Nat.mod_eq_of_lt hlt, decide_eq_true (Int.natAbs_ne_zero.mpr hne),
    Bool.and_true, h.signed, ← shifted_right] at hround
  rw [← hround]
  apply smallBigint_exact
  split
  · exact one_lt_base
  · exact base_pos

/-- `shift_result`, to the left by the integer or to the right by it. -/
lemma shiftResult_exact (hleft : Holds left' x) (hright : Holds right' y)
    (hfits : size x.natAbs ≤ bigintMaxBits) (requestedLeft : Bool) :
    Exact (shifted x (if requestedLeft then y else -y)) (shiftResult left' right' requestedLeft) := by
  have hzero := hleft.stands.eq_zero_iff hleft.normalized
  rw [Int.natAbs_eq_zero] at hzero
  have hdirection : (if requestedLeft then y else -y) =
      if bne requestedLeft right'.negative then (y.natAbs : ℤ) else -(y.natAbs : ℤ) := by
    rw [hright.negative]
    cases requestedLeft with
    | true =>
      rcases Int.lt_or_le y 0 with hneg | hpos
      · rw [decide_eq_true hneg, if_pos rfl, if_neg (by decide)]
        omega
      · rw [decide_eq_false (not_lt.mpr hpos), if_pos rfl, if_pos (by decide)]
        omega
    | false =>
      rcases Int.lt_or_le y 0 with hneg | hpos
      · rw [decide_eq_true hneg, if_neg (by decide), if_pos (by decide)]
        omega
      · rw [decide_eq_false (not_lt.mpr hpos), if_neg (by decide), if_neg (by decide)]
        omega
  rw [hdirection]
  unfold shiftResult
  generalize bne requestedLeft right'.negative = leftDirection
  by_cases hx : x = 0
  · rw [if_pos (hzero.mpr hx), hx, shifted_zero]
    exact smallBigint_exact base_pos false
  · rw [if_neg (fun hlimbs => hx (hzero.mp hlimbs))]
    cases hsize : bigintToSize right'.limbs with
    | none =>
      have hlarge := bigintToSize_none hright.stands hsize
      cases leftDirection with
      | true => exact largeLeftShift_exact hleft hx hlarge
      | false => exact largeRightShift_exact hleft hx hfits hlarge
    | some shift =>
      rw [bigintToSize_some hright.stands hsize]
      cases leftDirection with
      | true => exact leftShift_exact hleft hx y.natAbs
      | false => exact rightShift_exact hleft y.natAbs

/-- Shifts in both directions and by any integer: the product with a power of two, rounded down, or
the RangeError about its bits. -/
theorem shift_exact (a b : OseoBigInt) (hfits : Fits a) :
    Exact ⌊(a.value : ℚ) * 2 ^ b.value⌋
        (bigintBinary (bigintObject a) (bigintObject b) .shiftLeft) ∧
      Exact ⌊(a.value : ℚ) * 2 ^ (-b.value)⌋
        (bigintBinary (bigintObject a) (bigintObject b) .shiftRight) := by
  constructor
  · rw [bigintBinary]
    exact shiftResult_exact (holds_object a) (holds_object b) hfits true
  · rw [bigintBinary]
    exact shiftResult_exact (holds_object a) (holds_object b) hfits false

/-- Minus five by one bit. -/
theorem shift_exact_five : ∃ a b : OseoBigInt, a.value = -5 ∧ b.value = 1 ∧
    Exact ⌊(a.value : ℚ) * 2 ^ b.value⌋
        (bigintBinary (bigintObject a) (bigintObject b) .shiftLeft) ∧
      Exact ⌊(a.value : ℚ) * 2 ^ (-b.value)⌋
        (bigintBinary (bigintObject a) (bigintObject b) .shiftRight) := by
  refine ⟨⟨true, [5], by decide, by decide, by decide, by decide⟩,
    ⟨false, [1], by decide, by decide, by decide, by decide⟩, by decide, by decide, ?_⟩
  exact shift_exact _ _ (by unfold Fits; decide)

end Oseo.BigInts
