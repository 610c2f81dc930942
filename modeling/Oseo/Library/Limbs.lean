import Mathlib.Data.List.GetD
import Mathlib.Data.Nat.Digits.Lemmas
import Mathlib.Data.Nat.Size
import Mathlib.Tactic.LinearCombination

/-!
# Limbs

Numbers as lists of limbs over a base, the lowest limb first; their value is `Nat.ofDigits`. The
passes over the limbs that arithmetic is made of are here once each, with the equation between the
values before and after: upwards with a carry or a borrow, downwards with a remainder.
-/

namespace Oseo.Library.Limbs

open Nat
open List

variable {base : ℕ} {limbs left right terms : List ℕ}

/-- Every limb is below the base. -/
def Below (base : ℕ) (limbs : List ℕ) : Prop := ∀ limb ∈ limbs, limb < base

/-! ## Values -/

lemma Below.tail {limb : ℕ} (h : Below base (limb :: limbs)) : limb < base ∧ Below base limbs :=
  ⟨h limb mem_cons_self, fun other hmem => h other (mem_cons_of_mem _ hmem)⟩

lemma Below.append (hleft : Below base left) (hright : Below base right) :
    Below base (left ++ right) := by
  intro limb hmem
  rcases mem_append.mp hmem with hmem | hmem
  · exact hleft limb hmem
  · exact hright limb hmem

lemma Below.getD (h : Below base limbs) (hpos : 0 < base) (index : ℕ) : limbs.getD index 0 < base := by
  rcases lt_or_ge index limbs.length with hlt | hge
  · rw [getD_eq_getElem _ _ hlt]
    exact h _ (getElem_mem hlt)
  · rwa [getD_eq_default _ _ hge]

lemma below_replicate_zero (hpos : 0 < base) (count : ℕ) : Below base (replicate count 0) := by
  intro limb hmem
  rw [eq_of_mem_replicate hmem]
  exact hpos

lemma value_lt (hbase : 1 < base) (h : Below base limbs) :
    ofDigits base limbs < base ^ limbs.length :=
  ofDigits_lt_base_pow_length hbase h

/-- The limbs up to an index and those from it on. -/
lemma value_split (limbs : List ℕ) {index : ℕ} (hindex : index ≤ limbs.length) :
    ofDigits base limbs =
      ofDigits base (limbs.take index) + base ^ index * ofDigits base (limbs.drop index) := by
  conv_lhs => rw [← take_append_drop index limbs]
  rw [ofDigits_append, length_take, min_eq_left hindex]

lemma value_take_succ (limbs : List ℕ) (index : ℕ) :
    ofDigits base (limbs.take (index + 1)) =
      ofDigits base (limbs.take index) + base ^ index * limbs.getD index 0 := by
  rcases lt_or_ge index limbs.length with hlt | hge
  · rw [take_succ_eq_append_getElem hlt, ofDigits_append, ofDigits_singleton,
      length_take, min_eq_left hlt.le, getD_eq_getElem _ _ hlt]
  · rw [take_of_length_le hge, take_of_length_le (by omega), getD_eq_default _ _ hge,
      mul_zero, add_zero]

lemma value_take_lt (hbase : 1 < base) (h : Below base limbs) (index : ℕ) :
    ofDigits base (limbs.take index) < base ^ index := by
  have hbelow : Below base (limbs.take index) := fun limb hmem => h limb (mem_of_mem_take hmem)
  have hlt := value_lt hbase hbelow
  have hlength : (limbs.take index).length ≤ index := by
    rw [length_take]
    exact min_le_left _ _
  exact hlt.trans_le (Nat.pow_le_pow_right (by omega) hlength)

/-- Limbs filled up with zeros. -/
def padded (limbs : List ℕ) (length : ℕ) : List ℕ := List.ofFn fun index : Fin length =>
  limbs.getD index 0

lemma padded_length (limbs : List ℕ) (length : ℕ) : (padded limbs length).length = length :=
  length_ofFn

lemma padded_below (hpos : 0 < base) (h : Below base limbs) (length : ℕ) :
    Below base (padded limbs length) := by
  intro limb hmem
  obtain ⟨index, rfl⟩ := List.mem_ofFn.mp hmem
  exact h.getD hpos index

lemma padded_getD (limbs : List ℕ) {length index : ℕ} (h : index < length) :
    (padded limbs length).getD index 0 = limbs.getD index 0 := by
  rw [List.getD_eq_getElem _ _ (by rwa [padded_length])]
  unfold padded
  rw [List.getElem_ofFn]

lemma padded_value (limbs : List ℕ) {length : ℕ} (h : limbs.length ≤ length) :
    ofDigits base (padded limbs length) = ofDigits base limbs := by
  have hpadded : padded limbs length = limbs ++ replicate (length - limbs.length) 0 := by
    apply ext_getElem
    · rw [padded_length, length_append, length_replicate]
      omega
    · intro index hleft hright
      have hindex : index < length := by rwa [padded_length] at hleft
      rw [← getD_eq_getElem _ 0 hleft, ← getD_eq_getElem _ 0 hright, padded_getD _ hindex]
      rcases lt_or_ge index limbs.length with hlt | hge
      · rw [getD_append _ _ _ _ hlt]
      · rw [getD_append_right _ _ _ _ hge, getD_eq_default _ _ hge, getD_replicate]
        omega
  rw [hpadded, ofDigits_append_replicate_zero]

/-! ## Upwards with a carry -/

/-- Terms of any size, carried up limb by limb. -/
def carried (base : ℕ) : (terms : List ℕ) → (carry : ℕ) → List ℕ × ℕ
  | [], carry => ([], carry)
  | term :: terms, carry =>
    ((term + carry) % base :: (carried base terms ((term + carry) / base)).1,
      (carried base terms ((term + carry) / base)).2)

lemma carried_length (terms : List ℕ) (carry : ℕ) :
    (carried base terms carry).1.length = terms.length := by
  induction terms generalizing carry with
  | nil => rfl
  | cons term terms ih => exact congrArg (· + 1) (ih _)

lemma carried_below (hpos : 0 < base) (terms : List ℕ) (carry : ℕ) :
    Below base (carried base terms carry).1 := by
  induction terms generalizing carry with
  | nil =>
    intro limb hmem
    cases hmem
  | cons term terms ih =>
    intro limb hmem
    rcases mem_cons.mp hmem with rfl | hmem
    · exact mod_lt _ hpos
    · exact ih _ limb hmem

/-- Nothing is lost: what leaves at the top is the carry. -/
lemma carried_value (terms : List ℕ) (carry : ℕ) :
    ofDigits base (carried base terms carry).1 +
      base ^ terms.length * (carried base terms carry).2 = ofDigits base terms + carry := by
  induction terms generalizing carry with
  | nil => exact (congrArg (0 + ·) (one_mul carry) : _)
  | cons term terms ih =>
    have hrest := ih ((term + carry) / base)
    have hsplit := mod_add_div (term + carry) base
    rw [carried, ofDigits_cons, ofDigits_cons, length_cons, pow_succ]
    generalize (carried base terms ((term + carry) / base)) = rest at *
    linear_combination base * hrest + hsplit

/-- The carry stays within a bound that the terms allow. -/
lemma carried_carry {bound carry : ℕ} (hterms : ∀ term ∈ terms, term + bound < base * (bound + 1))
    (hcarry : carry ≤ bound) : (carried base terms carry).2 ≤ bound := by
  induction terms generalizing carry with
  | nil => exact hcarry
  | cons term terms ih =>
    have hterm := hterms term mem_cons_self
    have hlt : (term + carry) / base < bound + 1 := Nat.div_lt_of_lt_mul (by omega)
    exact ih (fun other hmem => hterms other (mem_cons_of_mem _ hmem)) (by omega)

/-- A carry that is zero changes no limbs. -/
lemma carried_zero (h : Below base limbs) : carried base limbs 0 = (limbs, 0) := by
  induction limbs with
  | nil => rfl
  | cons limb limbs ih =>
    obtain ⟨hlimb, hlimbs⟩ := h.tail
    rw [carried, add_zero, mod_eq_of_lt hlimb, div_eq_of_lt hlimb, ih hlimbs]

/-! ## Upwards with a borrow -/

/-- A difference, borrowed limb by limb. -/
def borrowed (base : ℕ) : (left right : List ℕ) → (borrow : ℕ) → List ℕ × ℕ
  | [], _, borrow => ([], borrow)
  | limb :: left, right, borrow =>
    if limb < right.headD 0 + borrow then
      ((limb + base - (right.headD 0 + borrow)) :: (borrowed base left right.tail 1).1,
        (borrowed base left right.tail 1).2)
    else
      ((limb - (right.headD 0 + borrow)) :: (borrowed base left right.tail 0).1,
        (borrowed base left right.tail 0).2)

lemma borrowed_length (left right : List ℕ) (borrow : ℕ) :
    (borrowed base left right borrow).1.length = left.length := by
  induction left generalizing right borrow with
  | nil => rfl
  | cons limb left ih =>
    rw [borrowed]
    split
    · exact congrArg (· + 1) (ih _ _)
    · exact congrArg (· + 1) (ih _ _)

lemma headD_below (hpos : 0 < base) (h : Below base limbs) :
    limbs.headD 0 < base ∧ Below base limbs.tail := by
  cases limbs with
  | nil => exact ⟨hpos, h⟩
  | cons limb limbs => exact h.tail

lemma borrowed_below (hleft : Below base left) (right : List ℕ) (borrow : ℕ) :
    Below base (borrowed base left right borrow).1 := by
  induction left generalizing right borrow with
  | nil =>
    intro limb hmem
    cases hmem
  | cons first left ih =>
    obtain ⟨hfirst, hrest⟩ := hleft.tail
    intro limb hmem
    rw [borrowed] at hmem
    split at hmem
    · rcases mem_cons.mp hmem with rfl | hmem
      · omega
      · exact ih hrest _ _ limb hmem
    · rcases mem_cons.mp hmem with rfl | hmem
      · omega
      · exact ih hrest _ _ limb hmem

lemma value_headD (limbs : List ℕ) :
    ofDigits base limbs = limbs.headD 0 + base * ofDigits base limbs.tail := by
  cases limbs with
  | nil => rfl
  | cons limb limbs => exact ofDigits_cons

/-- The difference and what was subtracted make the minuend, up to the borrow that is left. -/
lemma borrowed_value (hpos : 0 < base) (hright : Below base right)
    (hlength : right.length ≤ left.length) {borrow : ℕ} (hborrow : borrow ≤ 1) :
    ofDigits base (borrowed base left right borrow).1 + (ofDigits base right + borrow) =
        ofDigits base left + base ^ left.length * (borrowed base left right borrow).2 ∧
      (borrowed base left right borrow).2 ≤ 1 := by
  induction left generalizing right borrow with
  | nil =>
    rw [length_eq_zero_iff.mp (le_zero.mp hlength)]
    refine ⟨?_, hborrow⟩
    show 0 + (0 + borrow) = 0 + 1 * borrow
    omega
  | cons limb left ih =>
    obtain ⟨hhead, htail⟩ := headD_below hpos hright
    have hlengths : right.tail.length ≤ left.length := by
      rw [length_tail]
      rw [length_cons] at hlength
      omega
    rw [borrowed, value_headD right]
    split
    · next hlt =>
      obtain ⟨hrest, hout⟩ := @ih right.tail htail hlengths 1 (Nat.le_refl 1)
      refine ⟨?_, hout⟩
      have hlimb : limb + base - (right.headD 0 + borrow) + (right.headD 0 + borrow) =
          limb + base := Nat.sub_add_cancel (by omega)
      rw [Nat.ofDigits_cons, Nat.ofDigits_cons, length_cons, Nat.pow_succ]
      generalize borrowed base left right.tail 1 = rest at *
      generalize limb + base - (right.headD 0 + borrow) = difference at *
      linear_combination base * hrest + hlimb
    · next hge =>
      obtain ⟨hrest, hout⟩ := @ih right.tail htail hlengths 0 (Nat.zero_le 1)
      refine ⟨?_, hout⟩
      have hlimb : limb - (right.headD 0 + borrow) + (right.headD 0 + borrow) = limb :=
        Nat.sub_add_cancel (by omega)
      rw [Nat.ofDigits_cons, Nat.ofDigits_cons, length_cons, Nat.pow_succ]
      generalize borrowed base left right.tail 0 = rest at *
      generalize limb - (right.headD 0 + borrow) = difference at *
      linear_combination base * hrest + hlimb

/-! ## Downwards with a remainder -/

/-- Division by a small divisor, from the top limb down. -/
def divided (base divisor : ℕ) : (limbs : List ℕ) → (remainder : ℕ) → List ℕ × ℕ
  | [], remainder => ([], remainder)
  | limb :: limbs, remainder =>
    ((((divided base divisor limbs remainder).2 * base + limb) / divisor ::
        (divided base divisor limbs remainder).1),
      ((divided base divisor limbs remainder).2 * base + limb) % divisor)

lemma divided_length (divisor : ℕ) (limbs : List ℕ) (remainder : ℕ) :
    (divided base divisor limbs remainder).1.length = limbs.length := by
  induction limbs with
  | nil => rfl
  | cons limb limbs ih => exact congrArg (· + 1) ih

lemma divided_remainder {divisor remainder : ℕ} (hremainder : remainder < divisor)
    (limbs : List ℕ) : (divided base divisor limbs remainder).2 < divisor := by
  cases limbs with
  | nil => exact hremainder
  | cons limb limbs => exact mod_lt _ (by omega)

lemma divided_below {divisor remainder : ℕ} (hremainder : remainder < divisor)
    (h : Below base limbs) : Below base (divided base divisor limbs remainder).1 := by
  induction limbs with
  | nil =>
    intro limb hmem
    cases hmem
  | cons first limbs ih =>
    obtain ⟨hfirst, hrest⟩ := h.tail
    intro limb hmem
    rcases mem_cons.mp hmem with rfl | hmem
    · have hlower := @divided_remainder base divisor remainder hremainder limbs
      apply Nat.div_lt_of_lt_mul
      calc (divided base divisor limbs remainder).2 * base + first
          < ((divided base divisor limbs remainder).2 + 1) * base := by
            rw [Nat.add_mul, Nat.one_mul]
            omega
        _ ≤ divisor * base := mul_le_mul_right _ hlower
    · exact ih hrest limb hmem

/-- Quotient and remainder. -/
lemma divided_value (divisor : ℕ) (limbs : List ℕ) (remainder : ℕ) :
    divisor * ofDigits base (divided base divisor limbs remainder).1 +
        (divided base divisor limbs remainder).2 =
      ofDigits base limbs + base ^ limbs.length * remainder := by
  induction limbs with
  | nil =>
    show divisor * 0 + remainder = 0 + 1 * remainder
    omega
  | cons limb limbs ih =>
    have hsplit := div_add_mod ((divided base divisor limbs remainder).2 * base + limb) divisor
    rw [divided, ofDigits_cons, ofDigits_cons, length_cons, pow_succ]
    generalize divided base divisor limbs remainder = rest at *
    linear_combination base * ih + hsplit

/-! ## Complements -/

/-- What every limb lacks of the largest one. -/
def complemented (base : ℕ) (limbs : List ℕ) : List ℕ := limbs.map fun limb => base - 1 - limb

lemma complemented_length (limbs : List ℕ) : (complemented base limbs).length = limbs.length :=
  length_map _

lemma complemented_below (hpos : 0 < base) (limbs : List ℕ) : Below base (complemented base limbs) := by
  intro limb hmem
  obtain ⟨other, -, rfl⟩ := mem_map.mp hmem
  omega

lemma complemented_value (h : Below base limbs) :
    ofDigits base (complemented base limbs) + ofDigits base limbs + 1 =
      base ^ limbs.length := by
  induction limbs with
  | nil => rfl
  | cons limb limbs ih =>
    obtain ⟨hlimb, hlimbs⟩ := h.tail
    have hrest := ih hlimbs
    have hsum : base - 1 - limb + limb + 1 = base := by omega
    have hcons : complemented base (limb :: limbs) =
        (base - 1 - limb) :: complemented base limbs := rfl
    rw [hcons, ofDigits_cons, ofDigits_cons, length_cons, pow_succ]
    generalize base - 1 - limb = lacking at *
    linear_combination base * hrest + hsum

/-! ## Bits -/

variable {width : ℕ}

/-- A bit of the value is a bit of the limb it falls into. -/
lemma value_testBit (hwidth : 0 < width) (h : Below (2 ^ width) limbs) (index : ℕ) :
    (ofDigits (2 ^ width) limbs).testBit index =
      (limbs.getD (index / width) 0).testBit (index % width) := by
  induction limbs generalizing index with
  | nil => rw [ofDigits_nil, getD_nil, zero_testBit, zero_testBit]
  | cons limb limbs ih =>
    obtain ⟨hlimb, hlimbs⟩ := h.tail
    rw [ofDigits_cons, add_comm, testBit_two_pow_mul_add _ hlimb]
    split
    · next hlt => rw [div_eq_of_lt hlt, mod_eq_of_lt hlt, getD_cons_zero]
    · next hge =>
      obtain ⟨more, rfl⟩ : ∃ more, index = more + width := ⟨index - width, by omega⟩
      rw [Nat.add_sub_cancel, ih hlimbs, Nat.add_div_right _ hwidth, Nat.add_mod_right,
        getD_cons_succ]

/-! ### Single limbs and bits -/

lemma modify_getD (limbs : List ℕ) (f : ℕ → ℕ) (place index : ℕ) :
    (limbs.modify place f).getD index 0 =
      if place = index ∧ index < limbs.length then f (limbs.getD index 0) else limbs.getD index 0 := by
  rw [getD_eq_getElem?_getD, getD_eq_getElem?_getD, getElem?_modify]
  rcases lt_or_ge index limbs.length with hlt | hge
  · rw [getElem?_eq_getElem hlt]
    by_cases hplace : place = index
    · rw [if_pos ⟨hplace, hlt⟩]
      exact if_pos hplace
    · rw [if_neg (fun h => hplace h.1)]
      exact if_neg hplace
  · rw [getElem?_eq_none hge, if_neg (fun h => not_lt.mpr hge h.2)]
    rfl

lemma Below.modify {f : ℕ → ℕ} (h : Below base limbs) (hf : ∀ limb < base, f limb < base)
    (place : ℕ) : Below base (limbs.modify place f) := by
  intro limb hmem
  obtain ⟨index, hindex, rfl⟩ := mem_iff_getElem.mp hmem
  rw [length_modify] at hindex
  rw [getElem_modify]
  split
  · exact hf _ (h _ (getElem_mem hindex))
  · exact h _ (getElem_mem hindex)

lemma setBit_below {bit : ℕ} (hwidth : 0 < width) (h : Below (2 ^ width) limbs) :
    Below (2 ^ width) (limbs.modify (bit / width) (· ||| 1 <<< (bit % width))) := by
  apply h.modify
  intro limb hlimb
  rw [one_shiftLeft]
  exact or_lt_two_pow hlimb (Nat.pow_lt_pow_right (by decide) (mod_lt _ hwidth))

/-- A bit that is set in its limb is set in the value. -/
lemma setBit_value {bit : ℕ} (hwidth : 0 < width) (h : Below (2 ^ width) limbs)
    (hbit : bit / width < limbs.length) :
    ofDigits (2 ^ width) (limbs.modify (bit / width) (· ||| 1 <<< (bit % width))) =
      ofDigits (2 ^ width) limbs ||| 2 ^ bit := by
  apply eq_of_testBit_eq
  intro index
  rw [value_testBit hwidth (setBit_below hwidth h), testBit_or, value_testBit hwidth h,
    testBit_two_pow, modify_getD]
  have hsplit := div_add_mod bit width
  have hsplit' := div_add_mod index width
  split
  · next hsame =>
    rw [one_shiftLeft, testBit_or, testBit_two_pow]
    congr 1
    rw [decide_eq_decide]
    rw [hsame.1] at hsplit
    omega
  · next hother =>
    have hne : bit ≠ index := by
      rintro rfl
      exact hother ⟨rfl, hbit⟩
    rw [decide_eq_false hne, Bool.or_false]

section Bitwise

variable {f : ℕ → ℕ → ℕ} {g : Bool → Bool → Bool}

lemma bitwise_below (hf : ∀ a b i, (f a b).testBit i = g (a.testBit i) (b.testBit i))
    (hg : g false false = false) {a b : ℕ} (ha : a < 2 ^ width) (hb : b < 2 ^ width) :
    f a b < 2 ^ width := by
  apply lt_pow_two_of_testBit
  intro index hindex
  have hpow : 2 ^ width ≤ 2 ^ index := Nat.pow_le_pow_right (by decide) hindex
  rw [hf, Nat.testBit_lt_two_pow (by omega), Nat.testBit_lt_two_pow (by omega), hg]

lemma zipWith_below (hf : ∀ a b i, (f a b).testBit i = g (a.testBit i) (b.testBit i))
    (hg : g false false = false) (hleft : Below (2 ^ width) left) (hright : Below (2 ^ width) right) :
    Below (2 ^ width) (zipWith f left right) := by
  intro limb hmem
  rw [mem_iff_getElem] at hmem
  obtain ⟨index, hindex, rfl⟩ := hmem
  rw [getElem_zipWith]
  exact bitwise_below hf hg (hleft _ (getElem_mem _)) (hright _ (getElem_mem _))

/-- An operation on bits can be done limb by limb. -/
lemma zipWith_value (hwidth : 0 < width)
    (hf : ∀ a b i, (f a b).testBit i = g (a.testBit i) (b.testBit i))
    (hg : g false false = false) (hleft : Below (2 ^ width) left) (hright : Below (2 ^ width) right)
    (hlength : left.length = right.length) :
    ofDigits (2 ^ width) (zipWith f left right) =
      f (ofDigits (2 ^ width) left) (ofDigits (2 ^ width) right) := by
  apply eq_of_testBit_eq
  intro index
  rw [hf, value_testBit hwidth (zipWith_below hf hg hleft hright), value_testBit hwidth hleft,
    value_testBit hwidth hright, ← hf]
  congr 1
  have hlengths : (zipWith f left right).length = left.length := by
    rw [length_zipWith, ← hlength, min_self]
  rcases lt_or_ge (index / width) left.length with hlt | hge
  · rw [getD_eq_getElem _ _ (by omega), getD_eq_getElem _ _ hlt,
      getD_eq_getElem _ _ (by omega), getElem_zipWith]
  · have hzero : f 0 0 = 0 := by
      apply eq_of_testBit_eq
      intro bit
      rw [hf, zero_testBit, hg]
    rw [getD_eq_default _ _ (by omega), getD_eq_default _ _ hge,
      getD_eq_default _ _ (by omega), hzero]

end Bitwise

/-- The bits of a number that leads another one. -/
lemma size_lead {lead lower : ℕ} (hlead : 0 < lead) (hlower : lower < 2 ^ width) :
    size (lower + 2 ^ width * lead) = width + size lead := by
  apply le_antisymm
  · rw [size_le]
    calc lower + 2 ^ width * lead < 2 ^ width * (lead + 1) := by
          rw [mul_add, mul_one]
          omega
      _ ≤ 2 ^ width * 2 ^ size lead := mul_le_mul_left _ (lt_size_self lead)
      _ = 2 ^ (width + size lead) := (pow_add _ _ _).symm
  · obtain ⟨bits, hbits⟩ : ∃ bits, size lead = bits + 1 :=
      ⟨size lead - 1, by have hpos := size_pos.mpr hlead; omega⟩
    have hle : 2 ^ bits ≤ lead := lt_size.mp (by omega)
    rw [hbits, ← add_assoc]
    apply lt_size.mpr
    rw [pow_add]
    exact (mul_le_mul_left _ hle).trans (le_add_left _ _)

/-- The bits of the value, by the top limb. -/
lemma size_value {lower : List ℕ} {top : ℕ} (hwidth : 0 < width) (h : Below (2 ^ width) lower)
    (htop : lower ≠ [] → 0 < top) :
    size (ofDigits (2 ^ width) (lower ++ [top])) = lower.length * width + size top := by
  rw [ofDigits_append, ofDigits_singleton, ← pow_mul, mul_comm width]
  cases lower with
  | nil =>
    show size (0 + 2 ^ (0 * width) * top) = 0 * width + size top
    rw [zero_mul, pow_zero, one_mul, zero_add, zero_add]
  | cons limb lower =>
    apply size_lead (htop (cons_ne_nil _ _))
    have hlt := value_lt (Nat.one_lt_two_pow (by omega)) h
    rwa [← pow_mul, mul_comm width] at hlt

end Oseo.Library.Limbs
