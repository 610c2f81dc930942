import Oseo.BigInts.ShiftTheorems
import Mathlib.Data.Int.Bitwise

/-!
# Bits and widths

The operators on bits are those of the infinite two's complement (`bitwise_exact`), and the
conversions to a width give the residue of that width (`asWidth_exact`). Both work on limbs of a
fixed number, which hold a residue of a power of two.
-/

namespace Oseo.BigInts

open Nat (add_zero mod_eq_of_lt mod_lt ofDigits pow_add pow_le_pow_right pow_mul pow_succ
  two_pow_pos)
open Int
open List
open Oseo.AgentBroadcast (OseoBigInt bigintBits bigintBase bigintToRawUint64)
open Oseo.Library.Limbs

variable {limbs left right : List ℕ} {n m carry bits : ℕ} {x y z : ℤ}
  {left' right' integer : BigIntObject}

/-! ## Bits of integers -/

/-- The bits of a residue are those of the integer, up to its width. -/
lemma testBit_residue {width r : ℕ} (h : (r : ℤ) = x % 2 ^ width) (index : ℕ) :
    r.testBit index = (decide (index < width) && x.testBit index) := by
  cases x with
  | ofNat value =>
    have hr : r = value % 2 ^ width := by
      have hcast : ((value % 2 ^ width : ℕ) : ℤ) = (ofNat value) % 2 ^ width := by
        rfl
      rw [← hcast] at h
      exact_mod_cast h
    rw [hr, Nat.testBit_mod_two_pow]
    rfl
  | negSucc value =>
    have hlt := mod_lt value (two_pow_pos width)
    have hr : r = 2 ^ width - (value % 2 ^ width + 1) := by
      have hcast : ((value % 2 ^ width : ℕ) : ℤ) = value % 2 ^ width := by push_cast; rfl
      have hpow : (((2 ^ width : ℕ) : ℤ)) = 2 ^ width := by push_cast; rfl
      rw [negSucc_emod _ (by positivity), ← hcast, ← hpow] at h
      omega
    rw [hr, Nat.testBit_two_pow_sub_succ hlt, Nat.testBit_mod_two_pow]
    show _ = (decide (index < width) && !value.testBit index)
    cases decide (index < width) <;> rfl

/-- From the bits of its magnitude on, an integer has nothing but its sign. -/
lemma testBit_sign {width index : ℕ} (h : x.natAbs < 2 ^ width) (hindex : width ≤ index) :
    x.testBit index = decide (x < 0) := by
  have hpow : 2 ^ width ≤ 2 ^ index := pow_le_pow_right (by decide) hindex
  cases x with
  | ofNat value =>
    have hlt : value < 2 ^ index := Nat.lt_of_lt_of_le h hpow
    show value.testBit index = _
    rw [Nat.testBit_lt_two_pow hlt]
    rfl
  | negSucc value =>
    have hlt : value < 2 ^ index := by
      rw [natAbs_negSucc] at h
      omega
    show (!value.testBit index) = _
    rw [Nat.testBit_lt_two_pow hlt, decide_eq_true (negSucc_lt_zero value)]
    rfl

/-- An integer whose bits from a width on are all the same. -/
lemma natAbs_le_of_testBit {width : ℕ} {negative : Bool}
    (h : ∀ index, width ≤ index → z.testBit index = negative) :
    z.natAbs ≤ 2 ^ width ∧ negative = decide (z < 0) := by
  cases z with
  | ofNat value =>
    have hfalse : negative = false := by
      have hbit := h (max width value) (le_max_left _ _)
      rw [← hbit]
      apply Nat.testBit_lt_two_pow
      exact Nat.lt_of_le_of_lt (le_max_right _ _) Nat.lt_two_pow_self
    have hlt := Nat.lt_pow_two_of_testBit _ fun index hindex => (h index hindex).trans hfalse
    exact ⟨hlt.le, hfalse⟩
  | negSucc value =>
    have htrue : negative = true := by
      have hbit := h (max width value) (le_max_left _ _)
      rw [← hbit]
      show (!value.testBit _) = true
      rw [Nat.testBit_lt_two_pow (Nat.lt_of_le_of_lt (le_max_right width value) Nat.lt_two_pow_self)]
      rfl
    have hlt : value < 2 ^ width := by
      apply Nat.lt_pow_two_of_testBit
      intro index hindex
      have hbit := h index hindex
      rw [htrue] at hbit
      exact Bool.not_eq_true' _ ▸ hbit
    exact ⟨hlt, htrue.trans (decide_eq_true (negSucc_lt_zero value)).symm⟩

/-! ## Complements -/

lemma complementLimb_eq {limb : ℕ} (h : limb < bigintBase) :
    complementLimb limb = bigintBase - 1 - limb := by
  have hbase : bigintBase = 1073741824 := rfl
  unfold complementLimb
  rw [and_mask, hbase]
  rw [hbase] at h
  omega

lemma map_complementLimb (h : Below bigintBase limbs) :
    limbs.map complementLimb = complemented bigintBase limbs := by
  apply map_congr_left
  intro limb hmem
  exact complementLimb_eq (h limb hmem)

/-- The two's complement over all of the limbs. -/
lemma complementLoop_value (h : Below bigintBase limbs) :
    Below bigintBase (complementLoop limbs) ∧ (complementLoop limbs).length = limbs.length ∧
      ofDigits bigintBase (complementLoop limbs) =
        (bigintBase ^ limbs.length - ofDigits bigintBase limbs) % bigintBase ^ limbs.length := by
  have hlimbs := map_complementLimb h
  have hcomplemented := complemented_below base_pos limbs
  have hbelow := @carried_below bigintBase base_pos (complemented bigintBase limbs) 1
  have hlength := @carried_length bigintBase (complemented bigintBase limbs) 1
  have hvalue := @carried_value bigintBase (complemented bigintBase limbs) 1
  have hsum := complemented_value h
  rw [complemented_length] at hlength hvalue
  unfold complementLoop
  rw [hlimbs, carryLoop_eq (by decide) (below_bound hcomplemented) (Nat.le_refl 1)]
  have hlt := value_lt one_lt_base hbelow
  rw [hlength] at hlt
  refine ⟨hbelow, hlength, ?_⟩
  have hdifference : bigintBase ^ limbs.length - ofDigits bigintBase limbs =
      ofDigits bigintBase (carried bigintBase (complemented bigintBase limbs) 1).1 +
        bigintBase ^ limbs.length * (carried bigintBase (complemented bigintBase limbs) 1).2 := by
    omega
  rw [hdifference, Nat.add_mul_mod_self_left, mod_eq_of_lt hlt]

/-- A magnitude with its sign as a residue. -/
lemma residue_signed {width : ℕ} (hlt : n < 2 ^ width) (negative : Bool) :
    (((if negative then (2 ^ width - n) % 2 ^ width else n) : ℕ) : ℤ) =
      signed negative n % 2 ^ width := by
  unfold signed
  cases negative with
  | false =>
    rw [if_neg (by decide), if_neg (by decide)]
    symm
    exact emod_eq_of_lt (by omega) (by exact_mod_cast hlt)
  | true =>
    rw [if_pos rfl, if_pos rfl]
    have hcast : ((2 ^ width - n : ℕ) : ℤ) = -(n : ℤ) + 2 ^ width := by
      rw [Nat.cast_sub hlt.le]
      push_cast
      ring
    rw [natCast_mod, hcast]
    exact add_emod_right _ _

/-! ## Operators on bits -/

/-- An operand of `bitwise_magnitude`. -/
def operandLimbs (integer : BigIntObject) (width : ℕ) : List ℕ :=
  if integer.negative then complementLoop (padded integer.limbs width)
  else padded integer.limbs width

/-- An operand over a fixed number of limbs is the residue of its integer. -/
lemma operand_residue (h : Holds integer x) {width : ℕ} (hwidth : integer.limbs.length ≤ width) :
    Below bigintBase (operandLimbs integer width) ∧ (operandLimbs integer width).length = width ∧
      ((ofDigits bigintBase (operandLimbs integer width) : ℕ) : ℤ) =
        x % 2 ^ (bigintBits * width) := by
  have hbelow := padded_below base_pos h.stands.below width
  have hvalue := @padded_value bigintBase integer.limbs width hwidth
  have hlength := padded_length integer.limbs width
  obtain ⟨hcomplement, hcomplementLength, hcomplementValue⟩ := complementLoop_value hbelow
  have hpow : bigintBase ^ width = 2 ^ (bigintBits * width) := by rw [base_eq, ← pow_mul]
  have hlt : x.natAbs < 2 ^ (bigintBits * width) := by
    rw [← hpow]
    exact h.stands.lt_pow.trans_le (pow_le_pow_right base_pos hwidth)
  rw [hlength] at hcomplementLength hcomplementValue
  rw [hvalue, h.stands.value, hpow] at hcomplementValue
  rw [h.stands.value] at hvalue
  have hresidue := residue_signed hlt integer.negative
  rw [h.signed] at hresidue
  unfold operandLimbs
  rw [← hresidue]
  split
  · exact ⟨hcomplement, hcomplementLength, congrArg _ hcomplementValue⟩
  · exact ⟨hbelow, hlength, congrArg _ hvalue⟩

/-- The top bit of limbs is the sign of the residue they hold, and the two's complement of a negative
one is its magnitude. -/
lemma residue_magnitude {width : ℕ} (hbelow : Below bigintBase limbs)
    (hlength : limbs.length = width + 1)
    (hresidue : ((ofDigits bigintBase limbs : ℕ) : ℤ) = z % 2 ^ (bigintBits * (width + 1)))
    (hbits : ∀ index, bigintBits * width ≤ index → z.testBit index = decide (z < 0)) :
    (decide (limbs.getD width 0 >>> (bigintBits - 1) ≠ 0)) = decide (z < 0) ∧
      Stands (if decide (z < 0) = true then complementLoop limbs else limbs) z.natAbs := by
  obtain ⟨hcomplement, hcomplementLength, hcomplementValue⟩ := complementLoop_value hbelow
  obtain ⟨hnatAbs, -⟩ := natAbs_le_of_testBit hbits
  have hpow : bigintBase ^ (width + 1) = 2 ^ (bigintBits * (width + 1)) := by
    rw [base_eq, ← pow_mul]
  have hsmall : 2 ^ (bigintBits * width) < 2 ^ (bigintBits * (width + 1)) :=
    Nat.pow_lt_pow_right (by decide) (by rw [Nat.mul_succ]; exact Nat.lt_add_of_pos_right (by decide))
  constructor
  · have htop : limbs.getD width 0 < 2 ^ bigintBits := hbelow.getD base_pos width
    have hbit := testBit_residue hresidue (bigintBits * width + (bigintBits - 1))
    rw [base_eq, value_testBit (by decide) hbelow, Nat.mul_add_div (by decide), Nat.mul_add_mod,
      hbits _ (Nat.le_add_right _ _)] at hbit
    have hindex : bigintBits * width + (bigintBits - 1) < bigintBits * (width + 1) := by
      have hbitsPos : 0 < bigintBits := by decide
      rw [Nat.mul_succ]
      omega
    have hplace : (bigintBits - 1) / bigintBits = 0 := by decide
    have hoffset : (bigintBits - 1) % bigintBits = bigintBits - 1 := by decide
    rw [hplace, hoffset, add_zero, decide_eq_true hindex, Bool.true_and] at hbit
    rw [← hbit, Nat.testBit_eq_decide_div_mod_eq, decide_eq_decide, Nat.shiftRight_eq_div_pow]
    have hhalf : limbs.getD width 0 / 2 ^ (bigintBits - 1) < 2 := by
      apply Nat.div_lt_of_lt_mul
      exact htop
    generalize limbs.getD width 0 / 2 ^ (bigintBits - 1) = top at hhalf ⊢
    omega
  · have hnonempty : limbs ≠ [] := by
      apply ne_nil_of_length_pos
      omega
    rw [hlength, hpow] at hcomplementValue
    have hcast : ((2 ^ (bigintBits * (width + 1)) : ℕ) : ℤ) = 2 ^ (bigintBits * (width + 1)) := by
      rfl
    rw [← hcast] at hresidue
    generalize 2 ^ (bigintBits * (width + 1)) = power at *
    rcases Int.lt_or_le z 0 with hneg | hpos
    · have hvalue : z % (power : ℤ) = z + power := by
        rw [← Int.add_emod_right]
        exact emod_eq_of_lt (by omega) (by omega)
      rw [if_pos (decide_eq_true hneg)]
      refine ⟨?_, hcomplement, ?_⟩
      · apply ne_nil_of_length_pos
        omega
      · rw [hcomplementValue, mod_eq_of_lt (by omega)]
        omega
    · have hvalue : z % (power : ℤ) = z := emod_eq_of_lt hpos (by omega)
      rw [if_neg (by rw [decide_eq_true_iff]; omega)]
      exact ⟨hnonempty, hbelow, by omega⟩

/-- What an operator does with a pair of bits. -/
def bitOperation : BigIntOperator → Bool → Bool → Bool
  | .and => (· && ·)
  | .or => (· || ·)
  | _ => bne

lemma combine_testBit (operator : BigIntOperator) (a b index : ℕ) :
    (operator.combine a b).testBit index = bitOperation operator (a.testBit index) (b.testBit index) := by
  unfold BigIntOperator.combine
  split
  · next hand =>
    rw [hand]
    exact Nat.testBit_and a b index
  · split
    · next hor =>
      rw [hor]
      exact Nat.testBit_or a b index
    · next hand hor =>
      have hxor : bitOperation operator = bne := by
        cases operator with
        | and => exact absurd rfl hand
        | or => exact absurd rfl hor
        | _ => rfl
      rw [hxor]
      exact Nat.testBit_xor a b index

lemma bitOperation_false (operator : BigIntOperator) :
    bitOperation operator false false = false := by
  cases operator <;> rfl

/-- Combined residues are the residue of the integer with the combined bits. -/
lemma combined_residue (operator : BigIntOperator) {width : ℕ} (hbelow : Below bigintBase left)
    (hbelow' : Below bigintBase right) (hlength : left.length = right.length)
    (hresidue : ((ofDigits bigintBase left : ℕ) : ℤ) = x % 2 ^ width)
    (hresidue' : ((ofDigits bigintBase right : ℕ) : ℤ) = y % 2 ^ width)
    (hz : ∀ index, z.testBit index = bitOperation operator (x.testBit index) (y.testBit index)) :
    ((ofDigits bigintBase (zipWith operator.combine left right) : ℕ) : ℤ) =
      z % 2 ^ width := by
  have hvalue := zipWith_value (by decide) (combine_testBit operator) (bitOperation_false operator)
    hbelow hbelow' hlength
  have hnonneg : 0 ≤ z % 2 ^ width := emod_nonneg _ (pow_ne_zero _ two_ne_zero)
  obtain ⟨residue, hresidueZ⟩ := eq_ofNat_of_zero_le hnonneg
  rw [hresidueZ]
  apply congrArg Nat.cast
  rw [base_eq, hvalue, ← base_eq]
  apply Nat.eq_of_testBit_eq
  intro index
  rw [combine_testBit, testBit_residue hresidue, testBit_residue hresidue',
    testBit_residue hresidueZ.symm, hz]
  cases decide (index < width) with
  | true => rfl
  | false => exact bitOperation_false operator

/-- The combined bits from the width of both magnitudes on are those of the signs. -/
lemma combined_signs (operator : BigIntOperator) {width : ℕ} (hlt : x.natAbs < 2 ^ width)
    (hlt' : y.natAbs < 2 ^ width)
    (hz : ∀ index, z.testBit index = bitOperation operator (x.testBit index) (y.testBit index)) :
    ∀ index, width ≤ index → z.testBit index = decide (z < 0) := by
  have hsigns : ∀ index, width ≤ index →
      z.testBit index = bitOperation operator (decide (x < 0)) (decide (y < 0)) := by
    intro index hindex
    rw [hz, testBit_sign hlt hindex, testBit_sign hlt' hindex]
  have hnegative := (natAbs_le_of_testBit hsigns).2
  rwa [hnegative] at hsigns

lemma holds_lt_pow (h : Holds integer x) {width : ℕ} (hle : integer.limbs.length ≤ width) :
    x.natAbs < 2 ^ (bigintBits * width) := by
  rw [pow_mul, ← base_eq]
  exact h.stands.lt_pow.trans_le (pow_le_pow_right base_pos hle)

lemma signed_decide (z : ℤ) : signed (decide (z < 0)) z.natAbs = z := by
  unfold signed
  split
  · next hneg =>
    rw [decide_eq_true_iff] at hneg
    omega
  · next hpos =>
    rw [decide_eq_true_iff] at hpos
    omega

lemma bitwiseMagnitude_eq (operator : BigIntOperator) {width : ℕ}
    (hwidth : width = max left'.limbs.length right'.limbs.length) :
    bitwiseMagnitude left' right' operator =
      (normalizedLimbs
        (if decide ((zipWith operator.combine (operandLimbs left' (width + 1))
            (operandLimbs right' (width + 1))).getD width 0 >>> (bigintBits - 1) ≠ 0) = true then
          complementLoop (zipWith operator.combine (operandLimbs left' (width + 1))
            (operandLimbs right' (width + 1)))
        else zipWith operator.combine (operandLimbs left' (width + 1))
          (operandLimbs right' (width + 1))),
        decide ((zipWith operator.combine (operandLimbs left' (width + 1))
          (operandLimbs right' (width + 1))).getD width 0 >>> (bigintBits - 1) ≠ 0)) := by
  unfold bitwiseMagnitude
  rw [← hwidth]
  rfl

/-- The limbs of `bitwise_magnitude` and its sign are those of the integer with the combined
bits. -/
lemma bitwiseMagnitude_exact (operator : BigIntOperator) (hleft : Holds left' x)
    (hright : Holds right' y)
    (hz : ∀ index, z.testBit index = bitOperation operator (x.testBit index) (y.testBit index)) :
    Exact z (publishBigint (bitwiseMagnitude left' right' operator).2
      (bitwiseMagnitude left' right' operator).1) := by
  obtain ⟨width, hwidth⟩ : ∃ width, width = max left'.limbs.length right'.limbs.length := ⟨_, rfl⟩
  have hle : left'.limbs.length ≤ width := by omega
  have hle' : right'.limbs.length ≤ width := by omega
  obtain ⟨hbelow, hlength, hresidue⟩ := @operand_residue _ _ hleft (width + 1) (by omega)
  obtain ⟨hbelow', hlength', hresidue'⟩ := @operand_residue _ _ hright (width + 1) (by omega)
  have hresidueZ := combined_residue operator hbelow hbelow' (hlength.trans hlength'.symm) hresidue
    hresidue' hz
  have hsigns := combined_signs operator (holds_lt_pow hleft hle) (holds_lt_pow hright hle') hz
  have hcombined := zipWith_below (combine_testBit operator) (bitOperation_false operator) hbelow
    hbelow'
  have hlengths : (zipWith operator.combine (operandLimbs left' (width + 1))
      (operandLimbs right' (width + 1))).length = width + 1 := by
    rw [length_zipWith]
    exact (congrArg₂ min hlength hlength').trans (Nat.min_self _)
  obtain ⟨hsign, hstands⟩ := residue_magnitude hcombined hlengths hresidueZ hsigns
  have hexact := publishBigint_exact hstands.normalizedLimbs (decide (z < 0))
  rw [signed_decide] at hexact
  rw [bitwiseMagnitude_eq operator hwidth]
  rw [hsign]
  exact hexact

/-- `oseo_internal_bigint_not`. -/
lemma not_exact (h : Holds integer x) (hfits : Nat.size x.natAbs ≤ bigintMaxBits) :
    Exact (-x - 1) (bigintNot integer) := by
  have hone : Exact 1 (smallBigint false 1) := smallBigint_exact one_lt_base false
  apply hone.bind
  · intro hcontra
    exact absurd hcontra (by decide)
  · intro one hpublishes
    apply (negate_exact h).bind
    · intro hcontra
      rw [natAbs_neg] at hcontra
      omega
    · intro negated hnegated
      exact subtract_exact hnegated.holds hpublishes.holds

/-- The operators on bits are those of the infinite two's complement. -/
theorem bitwise_exact (a b : OseoBigInt) :
    Exact (Int.land a.value b.value) (bigintBinary (bigintObject a) (bigintObject b) .and) ∧
    Exact (Int.lor a.value b.value) (bigintBinary (bigintObject a) (bigintObject b) .or) ∧
    Exact (Int.xor a.value b.value) (bigintBinary (bigintObject a) (bigintObject b) .xor) ∧
    (Fits a → Exact (-a.value - 1) (bigintNot (bigintObject a))) := by
  refine ⟨?_, ?_, ?_, not_exact (holds_object a)⟩
  · rw [bigintBinary]
    · exact bitwiseMagnitude_exact .and (holds_object a) (holds_object b)
        fun index => testBit_land _ _ index
    all_goals exact fun h => by cases h
  · rw [bigintBinary]
    · exact bitwiseMagnitude_exact .or (holds_object a) (holds_object b)
        fun index => testBit_lor _ _ index
    all_goals exact fun h => by cases h
  · rw [bigintBinary]
    · exact bitwiseMagnitude_exact .xor (holds_object a) (holds_object b)
        fun index => testBit_lxor _ _ index
    all_goals exact fun h => by cases h

/-! ## Widths -/

/-- Limbs that are cut off. -/
lemma padded_value_mod (h : Below bigintBase limbs) (length : ℕ) :
    ofDigits bigintBase (padded limbs length) =
      ofDigits bigintBase limbs % bigintBase ^ length := by
  rcases Nat.le_total limbs.length length with hle | hge
  · have hlt := (value_lt one_lt_base h).trans_le (pow_le_pow_right base_pos hle)
    rw [padded_value limbs hle, mod_eq_of_lt hlt]
  · have htake : padded limbs length = limbs.take length := by
      apply ext_getElem
      · rw [padded_length, length_take, Nat.min_eq_left hge]
      · intro index hleft hright
        rw [padded_length] at hleft
        rw [← getD_eq_getElem _ 0, padded_getD _ hleft, getElem_take,
          getD_eq_getElem _ _ (by omega)]
    rw [htake, Nat.ofDigits_mod_pow_eq_ofDigits_take _ base_pos _ h]

/-- The mask of the top limb. -/
def topMaskOf (bits : ℕ) : ℕ := if bits % bigintBits = 0 then 0 else (1 <<< (bits % bigintBits)) - 1

lemma and_topMask (limb bits : ℕ) : limb &&& topMaskOf bits = limb % 2 ^ (bits % bigintBits) := by
  unfold topMaskOf
  split
  · next hzero => rw [hzero, Nat.and_zero, Nat.pow_zero, Nat.mod_one]
  · rw [Nat.one_shiftLeft, Nat.and_two_pow_sub_one_eq_mod]

lemma pow_bits (bits : ℕ) :
    bigintBase ^ (bits / bigintBits) * 2 ^ (bits % bigintBits) = 2 ^ bits := by
  rw [base_eq, ← pow_mul, ← pow_add, Nat.div_add_mod]

/-- The mask of the top limb leaves the residue of the width. -/
lemma masked_value (h : Below bigintBase limbs) (hlength : limbs.length = bits / bigintBits + 1) :
    Below bigintBase (limbs.modify (bits / bigintBits) (· &&& topMaskOf bits)) ∧
      (limbs.modify (bits / bigintBits) (· &&& topMaskOf bits)).length = bits / bigintBits + 1 ∧
      ofDigits bigintBase (limbs.modify (bits / bigintBits) (· &&& topMaskOf bits)) =
        ofDigits bigintBase limbs % 2 ^ bits := by
  have hbelow : Below bigintBase (limbs.modify (bits / bigintBits) (· &&& topMaskOf bits)) := by
    apply h.modify
    intro limb hlimb
    exact Nat.lt_of_le_of_lt Nat.and_le_left hlimb
  have hmodified := length_modify (· &&& topMaskOf bits) limbs (bits / bigintBits)
  refine ⟨hbelow, hmodified.trans hlength, ?_⟩
  have hlower := value_take_lt one_lt_base h (bits / bigintBits)
  have hsplit := @value_take_succ bigintBase limbs (bits / bigintBits)
  have hsplit' := @value_take_succ bigintBase
    (limbs.modify (bits / bigintBits) (· &&& topMaskOf bits)) (bits / bigintBits)
  have htake : (limbs.modify (bits / bigintBits) (· &&& topMaskOf bits)).take (bits / bigintBits) =
      limbs.take (bits / bigintBits) := by
    rw [take_modify]
    apply modify_eq_self
    rw [length_take]
    exact Nat.min_le_left _ _
  rw [take_of_length_le hlength.le] at hsplit
  rw [take_of_length_le (hmodified.trans hlength).le, htake, modify_getD,
    if_pos ⟨rfl, by omega⟩, and_topMask] at hsplit'
  rw [hsplit, hsplit', ← pow_bits bits, Nat.mod_mul, Nat.add_mul_mod_self_left,
    mod_eq_of_lt hlower, Nat.add_mul_div_left _ _ (Nat.pow_pos base_pos),
    Nat.div_eq_of_lt hlower, Nat.zero_add]

/-- `width_complement` takes a residue other than zero from the power of the width. -/
lemma widthComplement_value (h : Below bigintBase limbs)
    (hlength : limbs.length = bits / bigintBits + 1)
    (hpos : 0 < ofDigits bigintBase limbs) (hlt : ofDigits bigintBase limbs < 2 ^ bits) :
    Stands (widthComplement limbs (bits / bigintBits) (topMaskOf bits))
        (2 ^ bits - ofDigits bigintBase limbs) ∧
      (widthComplement limbs (bits / bigintBits) (topMaskOf bits)).length =
        bits / bigintBits + 1 := by
  have hcomplemented := complemented_below base_pos limbs
  have hsum := complemented_value h
  have hlengths : (complemented bigintBase limbs).length = bits / bigintBits + 1 :=
    (complemented_length limbs).trans hlength
  obtain ⟨hbelow, hmodified, hvalue⟩ := masked_value hcomplemented hlengths
  have hwidth : bits % bigintBits < bigintBits := mod_lt _ (by decide)
  -- all limbs together hold a multiple of the power of the width
  have hmultiple : bigintBase ^ limbs.length = 2 ^ bits * 2 ^ (bigintBits - bits % bigintBits) := by
    rw [hlength, pow_succ, ← pow_bits, Nat.mul_assoc, ← pow_add,
      Nat.add_sub_cancel' hwidth.le, ← base_eq]
  have hfactor := two_pow_pos (bigintBits - bits % bigintBits)
  have hresidue : ofDigits bigintBase (complemented bigintBase limbs) % 2 ^ bits =
      2 ^ bits - 1 - ofDigits bigintBase limbs := by
    have hdifference : ofDigits bigintBase (complemented bigintBase limbs) =
        2 ^ bits * (2 ^ (bigintBits - bits % bigintBits) - 1) +
          (2 ^ bits - 1 - ofDigits bigintBase limbs) := by
      rw [Nat.mul_sub, Nat.mul_one, ← hmultiple]
      have hle : 2 ^ bits ≤ bigintBase ^ limbs.length := by
        rw [hmultiple]
        exact Nat.le_mul_of_pos_right _ hfactor
      omega
    rw [hdifference, Nat.mul_add_mod, mod_eq_of_lt (by omega)]
  rw [hresidue] at hvalue
  unfold widthComplement
  rw [map_complementLimb h, incrementLoop_eq hbelow (Nat.le_refl 1)]
  have hcarried := @carried_value bigintBase
    ((complemented bigintBase limbs).modify (bits / bigintBits) (· &&& topMaskOf bits)) 1
  have hbelowOut := @carried_below bigintBase base_pos
    ((complemented bigintBase limbs).modify (bits / bigintBits) (· &&& topMaskOf bits)) 1
  have hlengthOut := @carried_length bigintBase
    ((complemented bigintBase limbs).modify (bits / bigintBits) (· &&& topMaskOf bits)) 1
  rw [hmodified] at hcarried hlengthOut
  rw [hvalue] at hcarried
  generalize carried bigintBase
    ((complemented bigintBase limbs).modify (bits / bigintBits) (· &&& topMaskOf bits)) 1 = out at *
  have hle : 2 ^ bits ≤ bigintBase ^ (bits / bigintBits + 1) := by
    rw [← hlength, hmultiple]
    exact Nat.le_mul_of_pos_right _ hfactor
  have hnone : out.2 = 0 := by
    by_contra hcontra
    have hmul : bigintBase ^ (bits / bigintBits + 1) * 1 ≤
        bigintBase ^ (bits / bigintBits + 1) * out.2 := Nat.mul_le_mul_left _ (by omega)
    omega
  rw [hnone, Nat.mul_zero, add_zero] at hcarried
  refine ⟨⟨?_, hbelowOut, by omega⟩, hlengthOut⟩
  apply ne_nil_of_length_pos
  rw [hlengthOut]
  exact Nat.succ_pos _

/-- A residue of a width, of either sign. -/
lemma signed_residue (negative : Bool) (n bits : ℕ) :
    signed negative n % 2 ^ bits = (if negative && n % 2 ^ bits ≠ 0 then 2 ^ bits - n % 2 ^ bits
      else n % 2 ^ bits : ℕ) := by
  have hcast : ((2 ^ bits : ℕ) : ℤ) = 2 ^ bits := by
    rfl
  have hlt := mod_lt n (two_pow_pos bits)
  cases negative with
  | false =>
    show (n : ℤ) % 2 ^ bits = (n % 2 ^ bits : ℕ)
    rfl
  | true =>
    have hdiv := Nat.div_add_mod n (2 ^ bits)
    show -(n : ℤ) % 2 ^ bits = (if true && decide (n % 2 ^ bits ≠ 0) then 2 ^ bits - n % 2 ^ bits
      else n % 2 ^ bits : ℕ)
    rw [Bool.true_and, ← hcast]
    generalize 2 ^ bits = power at *
    generalize n % power = residue at *
    by_cases hzero : residue = 0
    · rw [if_neg (by rw [decide_eq_true_iff]; exact not_not_intro hzero), hzero]
      rw [hzero, add_zero] at hdiv
      rw [← hdiv]
      push_cast
      rw [← mul_neg]
      exact mul_emod_right _ _
    · rw [if_pos (decide_eq_true hzero)]
      have hsum : -(n : ℤ) = ((power - residue : ℕ) : ℤ) + power * (-((n / power : ℕ) : ℤ) - 1) := by
        rw [Nat.cast_sub hlt.le]
        have hcastDiv : (power : ℤ) * (n / power : ℕ) + residue = n := by exact_mod_cast hdiv
        linear_combination hcastDiv
      rw [hsum, add_mul_emod_self_left]
      exact emod_eq_of_lt (by omega) (by omega)

/-- The residue of a width in the signed range. -/
def IsSignedResidue (x : ℤ) (bits : ℕ) (z : ℤ) : Prop :=
  z ≡ x [ZMOD 2 ^ bits] ∧ -2 ^ bits ≤ 2 * z ∧ 2 * z < 2 ^ bits

/-- The residue of a number in the signed range. -/
def signedResidue (n bits : ℕ) : ℤ := if 2 ^ (bits - 1) ≤ n then (n : ℤ) - 2 ^ bits else n

/-- There is one residue in the signed range. -/
lemma isSignedResidue_iff (hbits : 0 < bits) (hn : (n : ℤ) = x % 2 ^ bits) :
    IsSignedResidue x bits z ↔ z = signedResidue n bits := by
  have hhalf : (2 : ℤ) ^ bits = 2 * 2 ^ (bits - 1) := by
    rw [← pow_succ', Nat.sub_add_cancel hbits]
  have hhalfCast : ((2 ^ (bits - 1) : ℕ) : ℤ) = 2 ^ (bits - 1) := by
    rfl
  have hlow := emod_nonneg x (pow_ne_zero bits two_ne_zero : (2 : ℤ) ^ bits ≠ 0)
  have hhigh := emod_lt_of_pos x (by positivity : (0 : ℤ) < 2 ^ bits)
  have hsame : signedResidue n bits ≡ x [ZMOD 2 ^ bits] := by
    have hmod : (n : ℤ) ≡ x [ZMOD 2 ^ bits] := by
      rw [hn]
      exact mod_modEq x _
    unfold signedResidue
    split
    · exact (modEq_sub_modulus_iff.mpr hmod.symm).symm
    · exact hmod
  have hrange : -2 ^ bits ≤ 2 * signedResidue n bits ∧ 2 * signedResidue n bits < 2 ^ bits := by
    unfold signedResidue
    rw [← hn] at hlow hhigh
    rw [hhalf] at hhigh ⊢
    split <;> omega
  constructor
  · rintro ⟨hmod, hlower, hupper⟩
    obtain ⟨k, hk⟩ := (hmod.trans hsame.symm).dvd
    have hpower : (0 : ℤ) < 2 ^ bits := by positivity
    generalize (2 : ℤ) ^ bits = power at *
    have hzero : k = 0 := by
      rcases lt_trichotomy k 0 with hneg | hzero | hpos
      · have hmul : power * k ≤ power * (-1) := mul_le_mul_of_nonneg_left (by omega) hpower.le
        omega
      · exact hzero
      · have hmul : power * 1 ≤ power * k := mul_le_mul_of_nonneg_left (by omega) hpower.le
        omega
    rw [hzero, mul_zero] at hk
    omega
  · rintro rfl
    exact ⟨hsame, hrange⟩

/-- The limbs that `bigint_as_width` reads the result from. -/
def wrappedLimbs (integer : BigIntObject) (bits : ℕ) : List ℕ :=
  let limbs := (padded integer.limbs (bits / bigintBits + 1)).modify (bits / bigintBits)
    (· &&& topMaskOf bits)
  if integer.negative && !(decide (normalizedLimbs limbs = [0])) then
    widthComplement limbs (bits / bigintBits) (topMaskOf bits)
  else limbs

lemma bigintAsWidth_eq (integer : BigIntObject) (bits : ℕ) (signedResult : Bool) :
    bigintAsWidth integer bits signedResult =
      if bits = 0 then smallBigint false 0
      else if magnitudeBits integer.limbs < bits && (signedResult || !integer.negative) then
        .ok integer
      else if magnitudeBits integer.limbs < bits && bigintMaxBits < bits then
        .error bigintLimitError
      else if signedResult && magnitudeBit (wrappedLimbs integer bits) (bits - 1) then
        publishBigint true
          (widthComplement (wrappedLimbs integer bits) (bits / bigintBits) (topMaskOf bits))
      else publishBigint false (wrappedLimbs integer bits) := rfl

/-- They hold the residue of the width. -/
lemma wrappedLimbs_stands (h : Holds integer x) (bits : ℕ) :
    ∃ n : ℕ, (n : ℤ) = x % 2 ^ bits ∧ n < 2 ^ bits ∧ Stands (wrappedLimbs integer bits) n ∧
      (wrappedLimbs integer bits).length = bits / bigintBits + 1 := by
  have hpadded := padded_below base_pos h.stands.below (bits / bigintBits + 1)
  obtain ⟨hbelow, hlength, hvalue⟩ := masked_value hpadded (padded_length _ _)
  have hpow : bigintBase ^ (bits / bigintBits + 1) = 2 ^ bits * 2 ^ (bigintBits - bits % bigintBits) := by
    rw [pow_succ, ← pow_bits bits, Nat.mul_assoc, ← pow_add,
      Nat.add_sub_cancel' (mod_lt _ (by decide)).le, ← base_eq]
  rw [padded_value_mod h.stands.below, h.stands.value, hpow,
    Nat.mod_mul_right_mod] at hvalue
  have hlt := mod_lt x.natAbs (two_pow_pos bits)
  have hresidue := signed_residue integer.negative x.natAbs bits
  rw [h.signed] at hresidue
  refine ⟨_, hresidue.symm, ?_, ?_⟩
  · split
    · next hcomplement =>
      rw [Bool.and_eq_true, decide_eq_true_iff] at hcomplement
      omega
    · exact hlt
  · unfold wrappedLimbs
    dsimp only
    generalize (padded integer.limbs (bits / bigintBits + 1)).modify (bits / bigintBits)
      (· &&& topMaskOf bits) = limbs at *
    have hstands : Stands limbs (x.natAbs % 2 ^ bits) := by
      refine ⟨?_, hbelow, hvalue⟩
      apply ne_nil_of_length_pos
      rw [hlength]
      exact Nat.succ_pos _
    have hzero := hstands.normalizedLimbs.eq_zero_iff (normalizedLimbs_normalized hstands.nonempty)
    have hflag : (!decide (normalizedLimbs limbs = [0])) = decide (x.natAbs % 2 ^ bits ≠ 0) := by
      rw [← decide_not, decide_eq_decide]
      exact not_congr hzero
    rw [hflag]
    split
    · next hcomplement =>
      rw [Bool.and_eq_true, decide_eq_true_iff] at hcomplement
      have hwidth := widthComplement_value hbelow hlength (by omega) (by omega)
      rwa [hvalue] at hwidth
    · exact ⟨hstands, hlength⟩

/-- The unsigned conversion. -/
lemma asUintN_exact (h : Publishes x integer) (bits : ℕ) :
    Exact (x % 2 ^ bits) (bigintAsWidth integer bits false) := by
  obtain ⟨n, hn, hlt, hstands, hlength⟩ := wrappedLimbs_stands h.holds bits
  rw [bigintAsWidth_eq, magnitudeBits_eq h.holds.stands]
  split
  · next hzero =>
    rw [hzero, pow_zero, emod_one]
    exact smallBigint_exact base_pos false
  · split
    · next hwide =>
      rw [Bool.and_eq_true, decide_eq_true_iff, Bool.false_or, h.holds.negative, ← decide_not,
        decide_eq_true_iff, not_lt] at hwide
      have hsmall : x.natAbs < 2 ^ bits :=
        (Nat.lt_size_self _).trans_le (pow_le_pow_right (by decide) hwide.1.le)
      have hcast : ((2 ^ bits : ℕ) : ℤ) = 2 ^ bits := by
        rfl
      rw [emod_eq_of_lt hwide.2 (by omega)]
      exact exact_ok h
    · next hnot =>
      split
      · next hlarge =>
        rw [Bool.and_eq_true, decide_eq_true_iff, decide_eq_true_iff] at hlarge
        rw [← hn]
        apply Exact.error
        -- a negative operand is short of the power of the width by less than half of it
        have hnegative : x < 0 := by
          by_contra hcontra
          apply hnot
          rw [Bool.and_eq_true, decide_eq_true_iff, Bool.false_or, h.holds.negative,
            decide_eq_false hcontra]
          exact ⟨hlarge.1, rfl⟩
        have hsmall : x.natAbs < 2 ^ (bits - 1) :=
          (Nat.lt_size_self _).trans_le (pow_le_pow_right (by decide) (by omega))
        have hhalf : 2 ^ bits = 2 * 2 ^ (bits - 1) := by
          rw [← Nat.pow_succ', Nat.succ_eq_add_one, Nat.sub_add_cancel (by omega)]
        have hcast : ((2 ^ bits : ℕ) : ℤ) = 2 ^ bits := by
          rfl
        have hvalue : x % 2 ^ bits = x + 2 ^ bits := by
          rw [← add_emod_right]
          exact emod_eq_of_lt (by omega) (by omega)
        rw [natAbs_natCast]
        apply @two_pow_le_size n (bits - 1) (by omega)
        omega
      · rw [Bool.false_and, if_neg (by decide), ← hn]
        exact publishBigint_exact hstands false

lemma testBit_top (hbits : 0 < bits) (hlt : n < 2 ^ bits) :
    n.testBit (bits - 1) = decide (2 ^ (bits - 1) ≤ n) := by
  have hhalf : 2 ^ bits = 2 ^ (bits - 1) * 2 := by
    rw [← pow_succ, Nat.succ_eq_add_one, Nat.sub_add_cancel hbits]
  have hdiv : n / 2 ^ (bits - 1) < 2 := Nat.div_lt_of_lt_mul (by omega)
  have hle : 2 ^ (bits - 1) ≤ n ↔ 1 ≤ n / 2 ^ (bits - 1) := by
    rw [Nat.le_div_iff_mul_le (two_pow_pos _), Nat.one_mul]
  rw [Nat.testBit_eq_decide_div_mod_eq, decide_eq_decide, hle]
  generalize n / 2 ^ (bits - 1) = top at *
  omega

/-- The signed conversion. -/
lemma asIntN_exact (h : Publishes x integer) (hbits : 0 < bits) (hn : (n : ℤ) = x % 2 ^ bits) :
    Exact (signedResidue n bits) (bigintAsWidth integer bits true) := by
  obtain ⟨n', hn', hlt, hstands, hlength⟩ := wrappedLimbs_stands h.holds bits
  have hsame : n' = n := by
    rw [← hn] at hn'
    exact_mod_cast hn'
  rw [hsame] at hlt hstands
  have hhalf : 2 ^ bits = 2 * 2 ^ (bits - 1) := by
    rw [← Nat.pow_succ', Nat.succ_eq_add_one, Nat.sub_add_cancel hbits]
  have hcast : ((2 ^ bits : ℕ) : ℤ) = 2 ^ bits := by
    rfl
  rw [bigintAsWidth_eq, magnitudeBits_eq h.holds.stands, if_neg (by omega)]
  split
  · next hwide =>
    rw [Bool.true_or, Bool.and_true, decide_eq_true_iff] at hwide
    have hsmall : x.natAbs < 2 ^ (bits - 1) :=
      (Nat.lt_size_self _).trans_le (pow_le_pow_right (by decide) (by omega))
    have hresidue : signedResidue n bits = x := by
      symm
      apply (isSignedResidue_iff hbits hn).mp
      refine ⟨Int.ModEq.refl x, ?_, ?_⟩ <;> omega
    rw [hresidue]
    exact exact_ok h
  · next hnot =>
    rw [Bool.true_or, Bool.and_true, decide_eq_true_iff] at hnot
    rw [if_neg (by rw [Bool.and_eq_true, decide_eq_true_iff]; exact fun hcontra => hnot hcontra.1),
      magnitudeBit_eq hstands, Bool.true_and, testBit_top hbits hlt]
    unfold signedResidue
    split
    · next htop =>
      have hvalue := hstands.value
      obtain ⟨hcomplement, -⟩ := widthComplement_value hstands.below hlength (by omega) (by omega)
      rw [hvalue] at hcomplement
      have hexact := publishBigint_exact hcomplement true
      have hsigned : signed true (2 ^ bits - n) = (n : ℤ) - 2 ^ bits := by
        show -((2 ^ bits - n : ℕ) : ℤ) = _
        omega
      rw [if_pos (decide_eq_true htop)]
      rwa [hsigned] at hexact
    · next htop =>
      rw [if_neg (by rwa [decide_eq_true_iff])]
      exact publishBigint_exact hstands false

/-- The low 64 bits of limbs. -/
lemma rawBits_eq (h : Below bigintBase limbs) :
    limbs.foldr (fun limb magnitude => (magnitude <<< bigintBits) % 2 ^ 64 ||| limb) 0 =
      ofDigits bigintBase limbs % 2 ^ 64 := by
  induction limbs with
  | nil => rfl
  | cons limb limbs ih =>
    obtain ⟨hlimb, hrest⟩ := h.tail
    have hbase : bigintBase = 2 ^ 30 := rfl
    have hlow : limb < 2 ^ 30 := hlimb
    have hshift : ((ofDigits bigintBase limbs % 2 ^ 64) <<< bigintBits) % 2 ^ 64 =
        2 ^ 30 * (ofDigits bigintBase limbs % 2 ^ 34) := by
      show ((ofDigits bigintBase limbs % 2 ^ 64) <<< 30) % 2 ^ 64 = _
      rw [Nat.shiftLeft_eq]
      omega
    rw [foldr_cons, ih hrest, hshift, ← Nat.two_pow_add_eq_or_of_lt hlow, Nat.ofDigits_cons]
    rw [hbase]
    omega

lemma bigintToRawUint64_residue (a : OseoBigInt) :
    ((bigintToRawUint64 a : ℕ) : ℤ) = a.value % 2 ^ 64 := by
  have hbelow : Below bigintBase (a.limbs.take 3) :=
    fun limb hmem => a.below limb (mem_of_mem_take hmem)
  have htake := Nat.ofDigits_mod_pow_eq_ofDigits_take 3 base_pos a.limbs a.below
  have hbase : bigintBase ^ 3 = 2 ^ 64 * 2 ^ 26 := by decide
  have hmagnitude : (a.limbs.take 3).foldr
      (fun limb magnitude => (magnitude <<< bigintBits) % 2 ^ 64 ||| limb) 0 =
      a.value.natAbs % 2 ^ 64 := by
    rw [rawBits_eq hbelow, ← htake, hbase, Nat.mod_mul_right_mod, a.natAbs_value]
  have hresidue := signed_residue a.negative a.value.natAbs 64
  have hsigned := (holds_object a).signed
  have hnegative : (bigintObject a).negative = a.negative := rfl
  rw [hnegative] at hsigned
  rw [hsigned] at hresidue
  rw [hresidue]
  unfold bigintToRawUint64
  rw [hmagnitude]
  apply congrArg Nat.cast
  generalize a.value.natAbs % 2 ^ 64 = residue at *
  cases a.negative with
  | false => rfl
  | true =>
    rw [if_pos rfl, Bool.true_and]
    by_cases hzero : residue = 0
    · rw [hzero]
      decide
    · rw [if_pos (decide_eq_true hzero), mod_eq_of_lt (by omega)]

/-- Conversions to a width: the residue of that width, from zero on or in the signed range, or the
RangeError about its bits; the raw 64 bits are the unsigned ones. -/
theorem asWidth_exact (a : OseoBigInt) (hfits : Fits a) (bits : ℕ) :
    Exact (a.value % 2 ^ bits) (bigintAsWidth (bigintObject a) bits false) ∧
    (∃ z, (∀ other, IsSignedResidue a.value bits other ↔ other = z) ∧
      Exact z (bigintAsWidth (bigintObject a) bits true)) ∧
    ((bigintToRawUint64 a : ℕ) : ℤ) = a.value % 2 ^ 64 := by
  have hpublishes : Publishes a.value (bigintObject a) := ⟨a, rfl, rfl, hfits⟩
  refine ⟨asUintN_exact hpublishes bits, ?_, bigintToRawUint64_residue a⟩
  rcases Nat.eq_zero_or_pos bits with rfl | hpos
  · refine ⟨0, fun other => ⟨?_, ?_⟩, smallBigint_exact base_pos false⟩
    · rintro ⟨-, hlow, hhigh⟩
      rw [pow_zero] at hlow hhigh
      omega
    · rintro rfl
      refine ⟨?_, by decide, by decide⟩
      rw [pow_zero]
      exact modEq_one
  · obtain ⟨n, hn, -⟩ := wrappedLimbs_stands hpublishes.holds bits
    exact ⟨_, fun other => isSignedResidue_iff hpos hn, asIntN_exact hpublishes hpos hn⟩

/-- Minus one in eight bits. -/
theorem asWidth_exact_eight : ∃ a : OseoBigInt, a.value = -1 ∧
    Exact (a.value % 2 ^ 8) (bigintAsWidth (bigintObject a) 8 false) ∧
    (∃ z, (∀ other, IsSignedResidue a.value 8 other ↔ other = z) ∧
      Exact z (bigintAsWidth (bigintObject a) 8 true)) ∧
    ((bigintToRawUint64 a : ℕ) : ℤ) = a.value % 2 ^ 64 := by
  refine ⟨⟨true, [1], by decide, by decide, by decide, by decide⟩, by decide, ?_⟩
  exact asWidth_exact _ (by unfold Fits; decide) 8

end Oseo.BigInts
