import Oseo.BigInts.BigIntOperations

/-!
# Arithmetic

The four operations and powers are those of the integers, within the limit of bits: sums,
differences, products and negation (`arithmetic_exact`), quotient and remainder
(`division_exact`), and powers (`exponentiate_exact`).
-/

namespace Oseo.BigInts

open Nat
open List
open Oseo.AgentBroadcast (OseoBigInt bigintBits bigintBase)
open Oseo.Library.Limbs

variable {limbs left right window terms : List ℕ} {n m limb carry : ℕ} {x y : ℤ}

/-! ## Products -/

/-- The value of a row of a product, before its carries. -/
lemma row_value {base : ℕ} (hlength : left.length = right.length) :
    ofDigits base (zipWith (fun other sum => limb * other + sum) left right) =
      limb * ofDigits base left + ofDigits base right := by
  induction left generalizing right with
  | nil =>
    rw [length_eq_zero_iff.mp hlength.symm]
    rfl
  | cons first left ih =>
    cases right with
    | nil => cases hlength
    | cons second right =>
      rw [zipWith_cons_cons, ofDigits_cons, ofDigits_cons, ofDigits_cons,
        ih (succ.inj hlength)]
      ring

lemma row_bound (hlimb : limb < bigintBase) (hleft : Below bigintBase left)
    (hright : Below bigintBase right) :
    ∀ term ∈ zipWith (fun other sum => limb * other + sum) left right,
      term + (bigintBase - 1) < bigintBase * (bigintBase - 1 + 1) := by
  intro term hmem
  have hbase : bigintBase = 1073741824 := rfl
  have hsquare : bigintBase * (bigintBase - 1 + 1) = 1073741824 * 1073741824 := by decide
  rw [mem_iff_getElem] at hmem
  obtain ⟨index, hindex, rfl⟩ := hmem
  rw [getElem_zipWith]
  rw [length_zipWith] at hindex
  have hother := hleft _ (getElem_mem (Nat.lt_of_lt_of_le hindex (Nat.min_le_left _ _)))
  have hsum := hright _ (getElem_mem (Nat.lt_of_lt_of_le hindex (Nat.min_le_right _ _)))
  have hproduct : limb * left[index] ≤ 1073741823 * 1073741823 :=
    Nat.mul_le_mul (by omega) (by omega)
  omega

/-- One row: the window over the sum so far moves up by one limb. -/
lemma multiplyRows_cons (hright : right ≠ []) (hwindow : window.length = right.length) (count : ℕ) :
    ∃ first rest,
      (carryLoop 64 (zipWith (fun other sum => limb * other + sum) right window) 0).1 =
        first :: rest ∧
      multiplyRows (limb :: left) right (window ++ replicate (count + 1) 0) =
        first :: multiplyRows left right (rest ++ [(carryLoop 64
          (zipWith (fun other sum => limb * other + sum) right window) 0).2 % 2 ^ 32] ++
            replicate count 0) := by
  have hterms : zipWith (fun other sum => limb * other + sum) right
      (window ++ replicate (count + 1) 0) =
        zipWith (fun other sum => limb * other + sum) right window := by
    have happend := @zipWith_append _ _ _ (fun other sum => limb * other + sum) right []
      window (replicate (count + 1) 0) hwindow.symm
    rwa [append_nil, zipWith_nil_left, append_nil] at happend
  have hdrop : (window ++ replicate (count + 1) 0).drop (right.length + 1) =
      replicate count 0 := by
    rw [← hwindow, drop_append, drop_of_length_le (by omega), nil_append,
      Nat.add_sub_cancel_left, drop_replicate, Nat.add_sub_cancel]
  rw [multiplyRows, hterms, hdrop]
  cases right with
  | nil => exact absurd rfl hright
  | cons other right =>
    cases window with
    | nil => cases hwindow
    | cons sum window =>
      refine ⟨_, _, rfl, ?_⟩
      rw [append_assoc, singleton_append]
      rfl

/-- The rows add the product to the window. -/
lemma multiplyRows_value (hleft : Below bigintBase left) (hright : Stands right m)
    (hwindow : Below bigintBase window) (hlength : window.length = right.length) :
    Below bigintBase (multiplyRows left right (window ++ replicate left.length 0)) ∧
      (multiplyRows left right (window ++ replicate left.length 0)).length =
        left.length + right.length ∧
      ofDigits bigintBase (multiplyRows left right (window ++ replicate left.length 0)) =
        ofDigits bigintBase left * m + ofDigits bigintBase window := by
  induction left generalizing window with
  | nil =>
    rw [multiplyRows, length_nil, replicate_zero, append_nil, ofDigits_nil,
      zero_mul, zero_add, zero_add]
    exact ⟨hwindow, hlength, rfl⟩
  | cons limb left ih =>
    obtain ⟨hlimb, hrest⟩ := hleft.tail
    obtain ⟨first, rest, hrow, hrows⟩ :=
      @multiplyRows_cons left right window limb hright.nonempty hlength left.length
    have hbound := row_bound hlimb hright.below hwindow
    have hcarry := @carried_carry bigintBase _ (bigintBase - 1) 0 hbound (zero_le _)
    have hvalue := @carried_value bigintBase
      (zipWith (fun other sum => limb * other + sum) right window) 0
    have hbelow := @carried_below bigintBase base_pos
      (zipWith (fun other sum => limb * other + sum) right window) 0
    have hlengths := @carried_length bigintBase
      (zipWith (fun other sum => limb * other + sum) right window) 0
    have hterms : (zipWith (fun other sum => limb * other + sum) right window).length =
        right.length := by rw [length_zipWith, hlength, min_self]
    rw [carryLoop_eq (by decide) hbound (zero_le _)] at hrow hrows
    rw [row_value hlength.symm, hright.value, hterms, add_zero, hrow] at hvalue
    rw [hrow] at hbelow hlengths
    rw [hterms, length_cons] at hlengths
    generalize (carried bigintBase
      (zipWith (fun other sum => limb * other + sum) right window) 0).2 = carry at *
    have hsmall : bigintBase ≤ 2 ^ 32 := by decide
    rw [mod_eq_of_lt (by omega)] at hrows
    obtain ⟨hfirst, hbelow⟩ := hbelow.tail
    have hwindow' : Below bigintBase (rest ++ [carry]) := below_snoc hbelow (by omega)
    obtain ⟨hout, houtLength, houtValue⟩ := ih hrest hwindow' (by
      rw [length_append, length_singleton]
      omega)
    have hstep : first + bigintBase * ofDigits bigintBase (rest ++ [carry]) =
        limb * m + ofDigits bigintBase window := by
      rw [← hvalue, value_snoc, ofDigits_cons, ← hlengths, pow_succ]
      ring
    rw [length_cons, hrows]
    refine ⟨?_, ?_, ?_⟩
    · intro other hmem
      rcases mem_cons.mp hmem with rfl | hmem
      · exact hfirst
      · exact hout other hmem
    · rw [length_cons, houtLength]
      omega
    · rw [ofDigits_cons, ofDigits_cons, houtValue]
      linear_combination hstep

lemma multiplyMagnitude_stands (hleft : Stands left n) (hright : Stands right m) :
    Stands (multiplyMagnitude left right) (n * m) := by
  have hzeros := below_replicate_zero base_pos right.length
  obtain ⟨hbelow, hlength, hvalue⟩ :=
    multiplyRows_value hleft.below hright hzeros length_replicate
  have hstart : replicate (left.length + right.length) 0 =
      replicate right.length 0 ++ replicate left.length 0 := by
    rw [replicate_append_replicate, add_comm]
  rw [hleft.value, ofDigits_replicate_zero, add_zero] at hvalue
  unfold multiplyMagnitude
  rw [hstart]
  apply Stands.normalizedLimbs
  refine ⟨?_, hbelow, hvalue⟩
  apply ne_nil_of_length_pos
  rw [hlength]
  have hpos := hleft.length_pos
  omega

/-! ## Sums and products of BigInts -/

/-- An object of the heap that holds an integer. -/
structure Holds (integer : BigIntObject) (value : ℤ) : Prop where
  stands : Stands integer.limbs value.natAbs
  normalized : Normalized integer.limbs
  negative : integer.negative = decide (value < 0)

lemma holds_object (integer : OseoBigInt) : Holds (bigintObject integer) integer.value := by
  refine ⟨stands_object integer, object_normalized integer, ?_⟩
  have hsigned := integer.signed
  show integer.negative = _
  unfold OseoBigInt.value
  cases hsign : integer.negative with
  | true =>
    have hne := hsigned hsign
    rw [if_pos rfl]
    symm
    apply decide_eq_true
    omega
  | false =>
    rw [if_neg (by decide)]
    symm
    apply decide_eq_false
    omega

lemma Publishes.holds {integer : BigIntObject} (h : Publishes x integer) : Holds integer x := by
  obtain ⟨published, rfl, rfl, -⟩ := h
  exact holds_object published

lemma Holds.signed {integer : BigIntObject} (h : Holds integer x) :
    signed integer.negative x.natAbs = x := by
  rw [h.negative]
  unfold BigInts.signed
  split
  · next hneg =>
    rw [decide_eq_true_iff] at hneg
    omega
  · next hpos =>
    rw [decide_eq_true_iff] at hpos
    omega

lemma Holds.isZero {integer : BigIntObject} (h : Holds integer x) :
    integer.isZero = decide (x = 0) := by
  unfold BigIntObject.isZero
  rw [decide_eq_decide, h.stands.eq_zero_iff h.normalized]
  exact Int.natAbs_eq_zero

lemma signed_add (negative : Bool) (a b : ℕ) :
    signed negative (a + b) = signed negative a + signed negative b := by
  unfold signed
  split <;> omega

lemma signed_not (negative : Bool) (a : ℕ) : signed (!negative) a = -signed negative a := by
  cases negative with
  | true => exact (neg_neg _).symm
  | false => rfl

lemma signed_mul (sign sign' : Bool) (a b : ℕ) :
    signed (bne sign sign') (a * b) = signed sign a * signed sign' b := by
  cases sign with
  | true =>
    cases sign' with
    | true =>
      show ((a * b : ℕ) : ℤ) = -(a : ℤ) * -(b : ℤ)
      push_cast
      ring
    | false =>
      show -((a * b : ℕ) : ℤ) = -(a : ℤ) * (b : ℤ)
      push_cast
      ring
  | false =>
    cases sign' with
    | true =>
      show -((a * b : ℕ) : ℤ) = (a : ℤ) * -(b : ℤ)
      push_cast
      ring
    | false =>
      show ((a * b : ℕ) : ℤ) = (a : ℤ) * (b : ℤ)
      rfl

variable {left' right' integer : BigIntObject}

/-- A normalized number is not longer than one that is not smaller. -/
lemma Stands.length_le (hleft : Stands left n) (hright : Stands right m) (hnormal : Normalized right)
    (hle : m ≤ n) : right.length ≤ left.length := by
  have hpos := hleft.length_pos
  by_contra hcontra
  have hpow := hright.pow_le hnormal (by omega)
  have hlt := hleft.lt_pow
  have hmono : bigintBase ^ left.length ≤ bigintBase ^ (right.length - 1) :=
    Nat.pow_le_pow_right base_pos (by omega)
  omega

lemma subtractMagnitude_stands (hleft : Stands left n) (hright : Stands right m)
    (hnormal : Normalized right) (hle : m ≤ n) : Stands (subtractMagnitude left right) (n - m) :=
  (subtractLoop_stands hleft hright (hleft.length_le hright hnormal hle) hle).1.normalizedLimbs

/-- A sign and the smaller of two magnitudes against the larger one. -/
lemma signed_sub (negative : Bool) {a b : ℕ} (hle : b ≤ a) :
    signed negative (a - b) = signed negative a - signed negative b := by
  unfold signed
  split <;> omega

section
variable (hleft : Holds left' x) (hright : Holds right' y)
include hleft hright

/-- What `add_or_subtract` does with two signs. -/
lemma addOrSubtract_signed (subtract : Bool) :
    Exact (x + signed (bne right'.negative subtract) y.natAbs)
      (addOrSubtract left' right' subtract) := by
  have hcompare := compareMagnitude_eq hleft.stands hright.stands
  have hx := hleft.signed
  unfold addOrSubtract
  generalize bne right'.negative subtract = sign
  by_cases hsign : left'.negative = sign
  · rw [if_pos hsign]
    rw [hsign] at hx ⊢
    nth_rewrite 1 [← hx]
    rw [← signed_add]
    exact publishBigint_exact (addMagnitude_stands hleft.stands hright.stands) _
  · have hother : left'.negative = !sign := by
      rw [Bool.eq_not]
      exact hsign
    rw [if_neg hsign, hcompare]
    rw [hother, signed_not] at hx
    rcases lt_trichotomy x.natAbs y.natAbs with hlt | heq | hgt
    · have hminus : Int.sign ((x.natAbs : ℤ) - y.natAbs) = -1 :=
        Int.sign_eq_neg_one_of_neg (by omega)
      have hresult : x + signed sign y.natAbs = signed sign (y.natAbs - x.natAbs) := by
        rw [signed_sub _ hlt.le]
        omega
      rw [hminus, hresult]
      exact publishBigint_exact
        (subtractMagnitude_stands hright.stands hleft.stands hleft.normalized hlt.le) _
    · have hresult : x + signed sign y.natAbs = 0 := by
        rw [← heq]
        omega
      rw [heq, Int.sub_self, hresult]
      exact smallBigint_exact base_pos false
    · have hplus : Int.sign ((x.natAbs : ℤ) - y.natAbs) = 1 := Int.sign_eq_one_of_pos (by omega)
      have hresult : x + signed sign y.natAbs = signed (!sign) (x.natAbs - y.natAbs) := by
        rw [signed_sub _ hgt.le, signed_not, signed_not]
        omega
      rw [hplus, hresult, hother]
      exact publishBigint_exact
        (subtractMagnitude_stands hleft.stands hright.stands hright.normalized hgt.le) _

lemma add_exact :
    Exact (x + y) (addOrSubtract left' right' false) := by
  have h := addOrSubtract_signed hleft hright false
  rwa [Bool.bne_false, hright.signed] at h

lemma subtract_exact :
    Exact (x - y) (addOrSubtract left' right' true) := by
  have h := addOrSubtract_signed hleft hright true
  rwa [Bool.bne_true, signed_not, hright.signed, ← Int.sub_eq_add_neg] at h

lemma multiply_exact :
    Exact (x * y) (multiply left' right') := by
  have h := publishBigint_exact (multiplyMagnitude_stands hleft.stands hright.stands)
    (bne left'.negative right'.negative)
  rwa [signed_mul, hleft.signed, hright.signed] at h

end

lemma negate_exact (h : Holds integer x) : Exact (-x) (bigintNegate integer) := by
  have hresult := publishBigint_exact h.stands (if integer.isZero then false else !integer.negative)
  have hsigned : signed (if integer.isZero then false else !integer.negative) x.natAbs = -x := by
    rw [h.isZero]
    split
    · next hzero =>
      rw [of_decide_eq_true hzero]
      rfl
    · rw [signed_not, h.signed]
  rwa [hsigned] at hresult

/-- Sums, differences, products and negation: the BigInt of the exact integer, or the RangeError
about its bits. -/
theorem arithmetic_exact (a b : OseoBigInt) :
    Exact (a.value + b.value) (bigintBinary (bigintObject a) (bigintObject b) .add) ∧
    Exact (a.value - b.value) (bigintBinary (bigintObject a) (bigintObject b) .subtract) ∧
    Exact (a.value * b.value) (bigintBinary (bigintObject a) (bigintObject b) .multiply) ∧
    Exact (-a.value) (bigintNegate (bigintObject a)) :=
  ⟨add_exact (holds_object a) (holds_object b), subtract_exact (holds_object a) (holds_object b),
    multiply_exact (holds_object a) (holds_object b), negate_exact (holds_object a)⟩

/-! ## Division -/

/-- A shift by one bit is twice the number, when that fits. -/
lemma shiftOneAdd_eq (h : Below bigintBase limbs) (hcarry : carry ≤ 1) :
    shiftOneAdd limbs carry = (carried bigintBase (limbs.map (2 * ·)) carry).1 := by
  induction limbs generalizing carry with
  | nil => rfl
  | cons limb limbs ih =>
    obtain ⟨hlimb, hrest⟩ := h.tail
    have hbase : bigintBase = 1073741824 := rfl
    have hhigh : limb >>> (bigintBits - 1) = (2 * limb + carry) / bigintBase := by
      show limb >>> 29 = _
      rw [shiftRight_eq_div_pow, hbase]
      omega
    have hlow : ((limb <<< 1) &&& bigintMask) ||| carry = (2 * limb + carry) % bigintBase := by
      have heven : (limb <<< 1) % bigintBase = 2 ^ 1 * (limb % 536870912) := by
        rw [shiftLeft_eq, hbase]
        omega
      rw [and_mask, heven, ← two_pow_add_eq_or_of_lt (by omega), hbase]
      omega
    have hnext : (2 * limb + carry) / bigintBase ≤ 1 := by
      rw [hbase]
      omega
    rw [shiftOneAdd, hlow, hhigh, ih hrest hnext]
    rfl

lemma shiftOneAdd_stands (h : Stands limbs n) (hcarry : carry ≤ 1)
    (hfits : 2 * n + carry < bigintBase ^ limbs.length) :
    Stands (shiftOneAdd limbs carry) (2 * n + carry) ∧
      (shiftOneAdd limbs carry).length = limbs.length := by
  have hvalue := @carried_value bigintBase (limbs.map (2 * ·)) carry
  have hbelow := @carried_below bigintBase base_pos (limbs.map (2 * ·)) carry
  have hlength := @carried_length bigintBase (limbs.map (2 * ·)) carry
  rw [length_map] at hlength
  rw [← mul_ofDigits, h.value, length_map] at hvalue
  rw [← shiftOneAdd_eq h.below hcarry] at hvalue hbelow hlength
  have hnone : (carried bigintBase (limbs.map (2 * ·)) carry).2 = 0 := by
    by_contra hcontra
    have hle : bigintBase ^ limbs.length * 1 ≤
        bigintBase ^ limbs.length * (carried bigintBase (limbs.map (2 * ·)) carry).2 :=
      mul_le_mul_left _ (by omega)
    omega
  rw [hnone, mul_zero, add_zero] at hvalue
  refine ⟨⟨?_, hbelow, hvalue⟩, hlength⟩
  apply ne_nil_of_length_pos
  rw [hlength]
  exact h.length_pos

/-- The bits of the dividend from a cursor on are divided: the quotient has their quotient, the
remainder is below the divisor. -/
structure Divided (dividend divisor : List ℕ) (n m cursor : ℕ) (state : Division) : Prop where
  quotient_below : Below bigintBase state.quotient
  quotient_length : state.quotient.length = dividend.length
  remainder_length : state.remainder.length = divisor.length + 1
  remainder_stands : Stands state.remainder (n / 2 ^ cursor % m)
  quotient_value : Nat.ofDigits bigintBase state.quotient = 2 ^ cursor * (n / 2 ^ cursor / m)

variable {dividend divisor : List ℕ} {cursor bit : ℕ} {state : Division}

lemma divideStart_divided (dividend divisor : List ℕ) (n m : ℕ) :
    Divided dividend divisor n m (size n) (divideStart dividend divisor) := by
  have hzero : n / 2 ^ size n = 0 := div_eq_of_lt (lt_size_self n)
  refine ⟨below_replicate_zero base_pos _, length_replicate, length_replicate, ?_, ?_⟩
  · rw [hzero, zero_mod]
    refine ⟨?_, below_replicate_zero base_pos _, ofDigits_replicate_zero⟩
    exact cons_ne_nil _ _
  · rw [hzero, Nat.zero_div, Nat.mul_zero]
    exact Nat.ofDigits_replicate_zero

/-- The next bit of the dividend joins the bits that are divided. -/
lemma next_bits (n bit : ℕ) :
    n / 2 ^ bit = 2 * (n / 2 ^ (bit + 1)) + if n.testBit bit then 1 else 0 := by
  have hhalf : n / 2 ^ (bit + 1) = n / 2 ^ bit / 2 := by
    rw [Nat.div_div_eq_div_mul, pow_succ]
  have hbit : n.testBit bit = decide (n / 2 ^ bit % 2 = 1) := by
    rw [testBit_eq_decide_div_mod_eq]
  rw [hhalf, hbit]
  split
  · next hone =>
    rw [decide_eq_true_iff] at hone
    omega
  · next hzero =>
    rw [decide_eq_true_iff] at hzero
    omega

/-- A remainder below the divisor can be shifted: there is a limb to spare. -/
lemma remainder_fits (hdivisor : Stands divisor m) {remainder : ℕ} (hlt : remainder < m)
    (hcarry : carry ≤ 1) : 2 * remainder + carry < bigintBase ^ (divisor.length + 1) := by
  have hpow := hdivisor.lt_pow
  have hbase : (2 : ℕ) ≤ bigintBase := by decide
  rw [pow_succ]
  calc 2 * remainder + carry < m * 2 := by omega
    _ ≤ bigintBase ^ divisor.length * bigintBase := Nat.mul_le_mul hpow.le hbase

lemma divideStep_divided (hdividend : Stands dividend n) (hdivisor : Stands divisor m) (hpos : 0 < m)
    (hbit : bit < size n) (h : Divided dividend divisor n m (bit + 1) state) :
    Divided dividend divisor n m bit (divideStep dividend divisor state bit) := by
  obtain ⟨hbelow, hlength, hlengths, hremainder, hquotient⟩ := h
  have hlt := mod_lt (n / 2 ^ (bit + 1)) hpos
  have hnext := next_bits n bit
  have hsplit := div_add_mod (n / 2 ^ (bit + 1)) m
  have hcarry : (if magnitudeBit dividend bit then 1 else 0) ≤ 1 := by split <;> omega
  have hshifted := shiftOneAdd_stands hremainder hcarry (by
    rw [hlengths]
    exact remainder_fits hdivisor hlt hcarry)
  have hcompare := compareMagnitude_nonneg hshifted.1 hdivisor
  have hplace : bit / bigintBits < state.quotient.length := by
    have hsize : n < 2 ^ (bigintBits * dividend.length) := by
      have hpow := hdividend.lt_pow
      rwa [base_eq, ← pow_mul] at hpow
    have hbits := size_le.mpr hsize
    rw [hlength]
    apply Nat.div_lt_of_lt_mul
    omega
  rw [magnitudeBit_eq hdividend] at hcarry hshifted hcompare
  unfold divideStep
  dsimp only
  rw [magnitudeBit_eq hdividend]
  generalize (if n.testBit bit then 1 else 0) = carry at *
  generalize n / 2 ^ (bit + 1) % m = remainder at *
  generalize n / 2 ^ (bit + 1) / m = ratio at *
  have hdivided : n / 2 ^ bit = m * (2 * ratio) + (2 * remainder + carry) := by
    rw [hnext, ← hsplit]
    ring
  split
  · next hge =>
    rw [hcompare] at hge
    obtain ⟨hstands, hlen⟩ := subtractLoop_stands hshifted.1 hdivisor (by omega) hge
    have hbelowMod : 2 * remainder + carry - m < m := by omega
    have hsum : n / 2 ^ bit = m * (2 * ratio + 1) + (2 * remainder + carry - m) := by
      rw [hdivided, mul_add, mul_one]
      omega
    have hdiv : n / 2 ^ bit / m = 2 * ratio + 1 := by
      rw [hsum, mul_add_div hpos, div_eq_of_lt hbelowMod, add_zero]
    have hmod : n / 2 ^ bit % m = 2 * remainder + carry - m := by
      rw [hsum, mul_add_mod, mod_eq_of_lt hbelowMod]
    refine ⟨setBit_below (by decide) hbelow, ?_, ?_, ?_, ?_⟩
    · rw [length_modify]
      exact hlength
    · rw [hlen, hshifted.2, hlengths]
    · rw [hmod]
      exact hstands
    · have hset := setBit_value (by decide) hbelow hplace
      rw [← base_eq] at hset
      rw [hset, hquotient, hdiv, ← two_pow_add_eq_or_of_lt
        (Nat.pow_lt_pow_right (by decide) (lt_succ_self bit)), pow_succ]
      ring
  · next hlt' =>
    rw [hcompare] at hlt'
    have hbelowMod : 2 * remainder + carry < m := by omega
    have hdiv : n / 2 ^ bit / m = 2 * ratio := by
      rw [hdivided, mul_add_div hpos, div_eq_of_lt hbelowMod, add_zero]
    have hmod : n / 2 ^ bit % m = 2 * remainder + carry := by
      rw [hdivided, mul_add_mod, mod_eq_of_lt hbelowMod]
    refine ⟨hbelow, hlength, ?_, ?_, ?_⟩
    · rw [hshifted.2, hlengths]
    · rw [hmod]
      exact hshifted.1
    · rw [hquotient, hdiv, pow_succ]
      ring

/-- What is left of the bits that count down. -/
lemma countdown_suffix {bits : ℕ} {done more : List ℕ}
    (h : (range bits).reverse = done ++ more) : more = (range more.length).reverse := by
  have hdrop : more = (range bits).reverse.drop done.length := by
    rw [h, drop_left]
  have hlength := congrArg length h
  rw [length_reverse, length_range, length_append] at hlength
  rw [drop_reverse, length_range, take_range] at hdrop
  nth_rewrite 1 [hdrop]
  congr 2
  omega

/-- Before every bit the bits above it are divided. -/
lemma divide_divided (hdividend : Stands dividend n) (hdivisor : Stands divisor m) (hpos : 0 < m)
    {done more : List ℕ} (h : (range (magnitudeBits dividend)).reverse = done ++ more) :
    Divided dividend divisor n m more.length
      (done.foldl (divideStep dividend divisor) (divideStart dividend divisor)) := by
  rw [magnitudeBits_eq hdividend] at h
  induction done using reverseRecOn generalizing more with
  | nil =>
    have hlength := congrArg length h
    rw [length_reverse, length_range, nil_append] at hlength
    rw [← hlength]
    exact divideStart_divided dividend divisor n m
  | append_singleton done bit ih =>
    rw [append_assoc, singleton_append] at h
    have hrest := ih h
    have hsuffix := countdown_suffix h
    rw [length_cons, range_succ, reverse_append, reverse_singleton,
      singleton_append] at hsuffix
    have hbit : bit = more.length := (cons.inj hsuffix).1
    have hlength := congrArg length h
    rw [length_reverse, length_range, length_append, length_cons] at hlength
    rw [foldl_append, foldl_cons, foldl_nil, hbit]
    exact divideStep_divided hdividend hdivisor hpos (by omega) hrest

lemma divideMagnitude_stands (hdividend : Stands dividend n) (hdivisor : Stands divisor m)
    (hpos : 0 < m) : Stands (divideMagnitude dividend divisor).quotient (n / m) ∧
      Stands (divideMagnitude dividend divisor).remainder (n % m) := by
  obtain ⟨hbelow, hlength, -, hremainder, hquotient⟩ :=
    divide_divided hdividend hdivisor hpos (append_nil _).symm
  rw [length_nil, Nat.pow_zero, Nat.div_one] at hremainder hquotient
  rw [Nat.one_mul] at hquotient
  refine ⟨Stands.normalizedLimbs ⟨?_, hbelow, hquotient⟩, Stands.normalizedLimbs hremainder⟩
  apply ne_nil_of_length_pos
  rw [hlength]
  exact hdividend.length_pos

lemma signed_div (sign sign' : Bool) (a b : ℕ) :
    signed (bne sign sign') (a / b) = (signed sign a).tdiv (signed sign' b) := by
  cases sign with
  | true =>
    cases sign' with
    | true =>
      show ((a / b : ℕ) : ℤ) = (-(a : ℤ)).tdiv (-(b : ℤ))
      rw [Int.neg_tdiv, Int.tdiv_neg, neg_neg]
      rfl
    | false =>
      show -((a / b : ℕ) : ℤ) = (-(a : ℤ)).tdiv b
      rw [Int.neg_tdiv]
      rfl
  | false =>
    cases sign' with
    | true =>
      show -((a / b : ℕ) : ℤ) = (a : ℤ).tdiv (-(b : ℤ))
      rw [Int.tdiv_neg]
      rfl
    | false => rfl

lemma signed_mod (sign sign' : Bool) (a b : ℕ) :
    signed sign (a % b) = (signed sign a).tmod (signed sign' b) := by
  cases sign with
  | true =>
    cases sign' with
    | true =>
      show -((a % b : ℕ) : ℤ) = (-(a : ℤ)).tmod (-(b : ℤ))
      rw [Int.neg_tmod, Int.tmod_neg]
      rfl
    | false =>
      show -((a % b : ℕ) : ℤ) = (-(a : ℤ)).tmod b
      rw [Int.neg_tmod]
      rfl
  | false =>
    cases sign' with
    | true =>
      show ((a % b : ℕ) : ℤ) = (a : ℤ).tmod (-(b : ℤ))
      rw [Int.tmod_neg]
      rfl
    | false => rfl

lemma divide_exact (hleft : Holds left' x) (hright : Holds right' y) (hne : y ≠ 0) :
    Exact (x.tdiv y) (bigintBinary left' right' .divide) ∧
      Exact (x.tmod y) (bigintBinary left' right' .remainder) := by
  have hpos : 0 < y.natAbs := by omega
  obtain ⟨hquotient, hremainder⟩ := divideMagnitude_stands hleft.stands hright.stands hpos
  have hdivide := publishBigint_exact hquotient (bne left'.negative right'.negative)
  have hmod := publishBigint_exact hremainder left'.negative
  rw [signed_div, hleft.signed, hright.signed] at hdivide
  rw [signed_mod _ right'.negative, hleft.signed, hright.signed] at hmod
  have hzero : ¬right'.isZero = true := by
    rw [hright.isZero, decide_eq_true_iff]
    exact hne
  constructor
  · rw [bigintBinary, if_neg hzero]
    exact hdivide
  · rw [bigintBinary, if_neg hzero]
    exact hmod

/-- The limit of bits that every published BigInt keeps. -/
def Fits (integer : OseoBigInt) : Prop := Nat.size integer.value.natAbs ≤ bigintMaxBits

lemma Exact.ok {result : BigIntResult} (h : Exact x result)
    (hfits : size x.natAbs ≤ bigintMaxBits) :
    ∃ published : OseoBigInt, result = .ok (bigintObject published) ∧ published.value = x := by
  unfold Exact at h
  rw [if_pos hfits] at h
  obtain ⟨integer, hresult, published, rfl, hvalue, -⟩ := h
  exact ⟨published, hresult, hvalue⟩

/-- A divisor other than zero: quotient and remainder, truncated; before every shift of the loop the
remainder is below the divisor, so that the shift loses nothing. -/
theorem division_exact (a b : OseoBigInt) (hfits : Fits a) (hb : b.value ≠ 0) :
    (∃ q r : OseoBigInt,
      bigintBinary (bigintObject a) (bigintObject b) .divide = .ok (bigintObject q) ∧
      bigintBinary (bigintObject a) (bigintObject b) .remainder = .ok (bigintObject r) ∧
      a.value = b.value * q.value + r.value ∧ |r.value| < |b.value| ∧
      q.value = a.value.tdiv b.value ∧ (r.value = 0 ∨ r.value.sign = a.value.sign)) ∧
    ∀ done bit more, (List.range (magnitudeBits a.limbs)).reverse = done ++ bit :: more →
      ∃ remainder < Nat.ofDigits bigintBase b.limbs,
        Stands (done.foldl (divideStep a.limbs b.limbs) (divideStart a.limbs b.limbs)).remainder
          remainder ∧
        ∀ carry ≤ 1, Nat.ofDigits bigintBase (shiftOneAdd
          (done.foldl (divideStep a.limbs b.limbs) (divideStart a.limbs b.limbs)).remainder carry) =
            2 * remainder + carry := by
  have hleft := holds_object a
  have hright := holds_object b
  have hpos : 0 < b.value.natAbs := by omega
  constructor
  · obtain ⟨hquotient, hremainder⟩ := divide_exact hleft hright hb
    have hq : (a.value.tdiv b.value).natAbs ≤ a.value.natAbs := by
      rw [Int.natAbs_tdiv]
      exact div_le_self _ _
    have hr : (a.value.tmod b.value).natAbs ≤ a.value.natAbs := by
      rw [Int.natAbs_tmod]
      exact mod_le _ _
    obtain ⟨q, hqResult, hqValue⟩ := hquotient.ok ((size_le_size hq).trans hfits)
    obtain ⟨r, hrResult, hrValue⟩ := hremainder.ok ((size_le_size hr).trans hfits)
    refine ⟨q, r, hqResult, hrResult, ?_, ?_, hqValue, ?_⟩
    · rw [hqValue, hrValue]
      exact (Int.mul_tdiv_add_tmod _ _).symm
    · rw [hrValue, Int.abs_eq_natAbs, Int.abs_eq_natAbs, Int.natAbs_tmod]
      exact_mod_cast mod_lt _ hpos
    · rw [hrValue]
      rcases eq_or_ne (a.value.tmod b.value) 0 with hzero | hne
      · exact .inl hzero
      · right
        rw [Int.sign_tmod, if_neg (fun hdvd => hne (Int.tmod_eq_zero_of_dvd hdvd))]
  · intro done bit more h
    have hdivided := divide_divided hleft.stands hright.stands hpos h
    have hlt := mod_lt (a.value.natAbs / 2 ^ (bit :: more).length) hpos
    refine ⟨_, ?_, hdivided.remainder_stands, ?_⟩
    · rw [← b.natAbs_value]
      exact hlt
    · intro carry hcarry
      apply (shiftOneAdd_stands hdivided.remainder_stands hcarry ?_).1.value
      rw [hdivided.remainder_length]
      exact remainder_fits hright.stands hlt hcarry

/-- Minus seven by two. -/
theorem division_exact_seven : ∃ a b : OseoBigInt, a.value = -7 ∧ b.value = 2 ∧
    ∃ q r : OseoBigInt,
      bigintBinary (bigintObject a) (bigintObject b) .divide = .ok (bigintObject q) ∧
      bigintBinary (bigintObject a) (bigintObject b) .remainder = .ok (bigintObject r) ∧
      a.value = b.value * q.value + r.value ∧ |r.value| < |b.value| ∧
      q.value = a.value.tdiv b.value ∧ (r.value = 0 ∨ r.value.sign = a.value.sign) := by
  refine ⟨⟨true, [7], by decide, by decide, by decide, by decide⟩,
    ⟨false, [2], by decide, by decide, by decide, by decide⟩, by decide, by decide, ?_⟩
  exact (division_exact _ _ (by unfold Fits; decide) (by decide)).1

/-! ## Sizes -/

/-- A magnitude as a size, when there is one. -/
lemma bigintToSize_eq (h : Below bigintBase limbs) : bigintToSize limbs =
    if ofDigits bigintBase limbs ≤ sizeMax then some (ofDigits bigintBase limbs) else none := by
  induction limbs with
  | nil => rfl
  | cons limb limbs ih =>
    obtain ⟨hlimb, hrest⟩ := h.tail
    have hmax : bigintBase ≤ sizeMax := by decide
    have hpos := base_pos
    have hiff : (sizeMax - limb) / bigintBase < ofDigits bigintBase limbs ↔
        sizeMax < limb + bigintBase * ofDigits bigintBase limbs := by
      rw [div_lt_iff_lt_mul hpos, mul_comm]
      omega
    rw [bigintToSize, ih hrest, ofDigits_cons]
    generalize ofDigits bigintBase limbs = rest at *
    by_cases hfits : rest ≤ sizeMax
    · rw [if_pos hfits, Option.bind_some]
      by_cases hlarge : sizeMax < limb + bigintBase * rest
      · rw [if_pos (hiff.mpr hlarge), if_neg (by omega)]
      · rw [if_neg (fun hlt => hlarge (hiff.mp hlt)), if_pos (by omega), mul_comm, add_comm]
    · have hle : rest ≤ bigintBase * rest := Nat.le_mul_of_pos_left _ hpos
      rw [if_neg hfits, Option.bind_none, if_neg (by omega)]

lemma bigintToSize_some {size : ℕ} (h : Stands limbs n) (hsize : bigintToSize limbs = some size) :
    size = n := by
  rw [bigintToSize_eq h.below, h.value] at hsize
  split at hsize
  · exact (Option.some.inj hsize).symm
  · cases hsize

lemma bigintToSize_none (h : Stands limbs n) (hsize : bigintToSize limbs = none) : sizeMax < n := by
  rw [bigintToSize_eq h.below, h.value] at hsize
  split at hsize
  · cases hsize
  · omega

/-! ## Powers -/

/-- An operation that is refused because of the bits of its result. -/
lemma Exact.error (h : bigintMaxBits < size x.natAbs) : Exact x (.error bigintLimitError) := by
  unfold Exact
  rw [if_neg (by omega)]

/-- What follows an exact step, when its result having too many bits means that the last one has. -/
lemma Exact.bind {result : BigIntResult} {next : BigIntObject → BigIntResult} (h : Exact x result)
    (hgrows : bigintMaxBits < size x.natAbs → x.natAbs ≤ y.natAbs) (hnext : ∀ integer, Publishes x integer → Exact y (next integer)) :
    Exact y (result.bind next) := by
  unfold Exact at h
  split at h
  · obtain ⟨integer, rfl, hpublishes⟩ := h
    exact hnext integer hpublishes
  · next hlarge =>
    rw [h]
    apply Exact.error
    have hmono := size_le_size (hgrows (by omega))
    omega

lemma exact_ok (h : Publishes x integer) : Exact x (.ok integer) := by
  obtain ⟨published, rfl, rfl, hfits⟩ := h
  unfold Exact
  rw [if_pos hfits]
  exact ⟨_, rfl, published, rfl, rfl, hfits⟩

lemma two_pow_le_size {bits : ℕ} (hbits : bigintMaxBits ≤ bits) (hle : 2 ^ bits ≤ n) :
    bigintMaxBits < size n :=
  Nat.lt_size.mpr ((Nat.pow_le_pow_right (by decide) hbits).trans hle)

/-- Powers of a factor do not get smaller. -/
lemma natAbs_le_pow {exponent : ℕ} (hexponent : 0 < exponent) (x : ℤ) :
    x.natAbs ≤ (x ^ exponent).natAbs := by
  rw [Int.natAbs_pow]
  rcases Nat.eq_zero_or_pos x.natAbs with hzero | hpos
  · rw [hzero]
    exact Nat.zero_le _
  · calc x.natAbs = x.natAbs ^ 1 := (pow_one _).symm
      _ ≤ x.natAbs ^ exponent := Nat.pow_le_pow_right hpos hexponent

lemma natAbs_le_mul (h : y ≠ 0 ∨ x = 0) : x.natAbs ≤ (y * x).natAbs := by
  rw [Int.natAbs_mul]
  rcases h with hne | rfl
  · exact Nat.le_mul_of_pos_left _ (by omega)
  · exact Nat.zero_le _

/-- A power is not smaller than what its loop multiplies on the way. -/
lemma exponentiateLoop_exact {remaining : ℕ} {power square : BigIntObject}
    (hpower : Publishes x power) (hsquare : Holds square y) (hsteady : x ≠ 0 ∨ y = 0) :
    Exact (x * y ^ remaining) (exponentiateLoop remaining power square) := by
  induction remaining using Nat.strongRecOn generalizing x y power square with
  | ind remaining ih =>
    rw [exponentiateLoop]
    split
    · next hzero =>
      rw [hzero, pow_zero, mul_one]
      exact exact_ok hpower
    · next hne =>
      have hhalf : remaining >>> 1 = remaining / 2 := shiftRight_eq_div_pow _ _
      have hpow : y ^ remaining = y ^ (remaining % 2) * (y * y) ^ (remaining / 2) := by
        rw [← pow_two, ← pow_mul, ← pow_add]
        congr 1
        omega
      have hfactor : Exact (x * y ^ (remaining % 2))
          (if remaining &&& 1 ≠ 0 then multiply power square else .ok power) := by
        rw [and_one_is_mod]
        rcases mod_two_eq_zero_or_one remaining with heven | hodd
        · rw [heven, if_neg (by decide), pow_zero, mul_one]
          exact exact_ok hpower
        · rw [hodd, if_pos (by decide), pow_one]
          exact multiply_exact hpower.holds hsquare
      have hsteady' : x * y ^ (remaining % 2) ≠ 0 ∨ y * y = 0 := by
        rcases hsteady with hx | rfl
        · rcases eq_or_ne y 0 with rfl | hy
          · exact .inr (mul_zero 0)
          · exact .inl (mul_ne_zero hx (pow_ne_zero _ hy))
        · exact .inr (mul_zero 0)
      have hgrows : bigintMaxBits < size (x * y ^ (remaining % 2)).natAbs →
          (x * y ^ (remaining % 2)).natAbs ≤
            (x * y ^ (remaining % 2) * (y * y) ^ (remaining / 2)).natAbs := by
        intro hlarge
        rcases eq_or_ne y 0 with rfl | hy
        · obtain ⟨-, -, -, hfits⟩ := hpower
          rcases mod_two_eq_zero_or_one remaining with heven | hodd
          · rw [heven, pow_zero, mul_one] at hlarge
            omega
          · rw [hodd, pow_one, mul_zero, Int.natAbs_zero, size_zero] at hlarge
            omega
        · rw [Int.natAbs_mul _ ((y * y) ^ _)]
          apply Nat.le_mul_of_pos_right
          exact Int.natAbs_pos.mpr (pow_ne_zero _ (mul_ne_zero hy hy))
      rw [hpow, ← mul_assoc, hhalf]
      generalize x * y ^ (remaining % 2) = product at *
      apply hfactor.bind hgrows
      intro power' hpower'
      split
      · next hlast =>
        rw [hlast, pow_zero, mul_one]
        exact exact_ok hpower'
      · next hmore =>
        have hsquares : y.natAbs * y.natAbs = (y * y).natAbs := (Int.natAbs_mul y y).symm
        have hnext := publishBigint_exact (multiplyMagnitude_stands hsquare.stands hsquare.stands)
          false
        have hnonneg : signed false (y.natAbs * y.natAbs) = y * y := by
          rw [hsquares]
          exact Int.natAbs_of_nonneg (mul_self_nonneg y)
        rw [hnonneg] at hnext
        apply hnext.bind
        · intro _
          exact (natAbs_le_pow (pos_of_ne_zero hmore) (y * y)).trans (natAbs_le_mul (by
            rcases hsteady' with hne' | hzero
            · exact .inl hne'
            · right
              rw [hzero, zero_pow hmore]))
        · intro square' hsquare'
          exact ih _ (by omega) hpower' hsquare'.holds hsteady'

/-- The parity of a number stands in its lowest limb. -/
lemma headD_odd (h : Stands limbs n) : limbs.headD 0 &&& 1 = n % 2 := by
  have hvalue := @value_headD bigintBase limbs
  have hbase : bigintBase = 2 * 536870912 := rfl
  rw [h.value, hbase, mul_assoc] at hvalue
  rw [and_one_is_mod]
  omega

/-- A power beyond the precheck has too many bits. -/
lemma large_power {bits exponent : ℕ} (hbits : 2 ^ bits ≤ x.natAbs)
    (hexponent : bigintMaxBits ≤ bits * exponent) :
    bigintMaxBits < size (x ^ exponent).natAbs := by
  apply two_pow_le_size hexponent
  rw [Int.natAbs_pow, pow_mul]
  exact Nat.pow_le_pow_left hbits exponent

lemma exponentiate_holds {base exponent : BigIntObject} {k : ℕ} (hbase : Holds base x)
    (hexponent : Holds exponent (k : ℤ)) : Exact (x ^ k) (exponentiate base exponent) := by
  have hnonneg : ¬exponent.negative = true := by
    rw [hexponent.negative, decide_eq_true_iff]
    omega
  unfold exponentiate
  rw [if_neg hnonneg]
  cases hsize : bigintToSize exponent.limbs with
  | none =>
    have hlarge := bigintToSize_none hexponent.stands hsize
    rw [Int.natAbs_natCast] at hlarge
    have hmax : bigintMaxBits ≤ sizeMax := by decide
    dsimp only
    split
    · next hzero =>
      rw [hbase.isZero, decide_eq_true_iff] at hzero
      rw [hzero, zero_pow (by omega)]
      exact smallBigint_exact base_pos false
    · next hne =>
      split
      · next hone =>
        have hunit : x.natAbs = 1 := by
          have hvalue := hbase.stands.value
          rw [hone] at hvalue
          exact hvalue.symm
        have hsigned := hbase.signed
        have hparity : (base.negative && decide (exponent.limbs.headD 0 &&& 1 ≠ 0)) =
            (base.negative && decide (k % 2 ≠ 0)) := by
          rw [headD_odd hexponent.stands, Int.natAbs_natCast]
        have hpower : signed (base.negative && decide (k % 2 ≠ 0)) 1 = x ^ k := by
          rw [← hsigned, hunit]
          unfold signed
          cases base.negative with
          | false =>
            rw [Bool.false_and]
            exact (one_pow k).symm
          | true =>
            rw [Bool.true_and]
            rcases even_or_odd k with heven | hodd
            · rw [if_neg (by rw [decide_eq_true_iff, even_iff.mp heven]; decide)]
              exact heven.neg_one_pow.symm
            · rw [if_pos (by rw [decide_eq_true_iff, odd_iff.mp hodd]; decide)]
              exact hodd.neg_one_pow.symm
        rw [hparity, ← hpower]
        exact smallBigint_exact one_lt_base _
      · next hother =>
        apply Exact.error
        have hzero : x ≠ 0 := by
          intro hx
          rw [hbase.isZero, decide_eq_true hx] at hne
          exact hne rfl
        have hone : x.natAbs ≠ 1 := by
          intro hx
          apply hother
          have hstands := hbase.stands
          rw [hx] at hstands
          exact hstands.unique stands_one hbase.normalized
            (fun _ hlong => absurd hlong (lt_irrefl 1))
        apply @large_power x 1 k
        · omega
        · omega
  | some size =>
    have heq := bigintToSize_some hexponent.stands hsize
    rw [Int.natAbs_natCast] at heq
    dsimp only
    rw [magnitudeBits_eq hbase.stands, heq]
    split
    · next hlarge =>
      rw [Bool.and_eq_true, decide_eq_true_iff, decide_eq_true_iff] at hlarge
      obtain ⟨hbits, hprecheck⟩ := hlarge
      rw [div_lt_iff_lt_mul (by omega)] at hprecheck
      apply Exact.error
      apply @large_power x (Nat.size x.natAbs - 1) k
      · exact Nat.lt_size.mp (by omega)
      · rw [mul_comm]
        omega
    · have hone : Exact 1 (smallBigint false 1) := smallBigint_exact one_lt_base false
      apply hone.bind
      · intro hcontra
        exact absurd hcontra (by decide)
      · intro one hpublishes
        have hloop := @exponentiateLoop_exact 1 x k one base hpublishes hbase (.inl one_ne_zero)
        rwa [one_mul] at hloop

/-- Powers: a negative exponent is refused, any other one gives the BigInt of the power or the
RangeError about its bits. -/
theorem exponentiate_exact (a b : OseoBigInt) :
    (b.value < 0 → bigintBinary (bigintObject a) (bigintObject b) .exponentiate =
      .error (.rangeError "A BigInt exponent cannot be negative.")) ∧
    ∀ k : ℕ, b.value = k →
      Exact (a.value ^ k) (bigintBinary (bigintObject a) (bigintObject b) .exponentiate) := by
  have hbase := holds_object a
  have hexponent := holds_object b
  constructor
  · intro hneg
    have hsign := hexponent.negative
    rw [decide_eq_true hneg] at hsign
    rw [bigintBinary]
    unfold exponentiate
    rw [if_pos hsign]
  · intro k hk
    rw [hk] at hexponent
    rw [bigintBinary]
    exact exponentiate_holds hbase hexponent

end Oseo.BigInts
