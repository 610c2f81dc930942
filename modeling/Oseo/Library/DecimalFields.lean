import Mathlib.Data.Nat.Bitwise
import Mathlib.Tactic.Ring

/-!
# Fields of bits and digits

Bit fields put together by shifts and `|||` are a sum. The digits of a number in a field of some
width, the leading digit first, can be taken apart at either end, and a number that fits is its
decimal text filled up with zeros.
-/

namespace Oseo.Library

lemma or_eq_add {shift low high : ℕ} (h : low < 2 ^ shift) :
    high <<< shift ||| low = 2 ^ shift * high + low := by
  rw [← Nat.shiftLeft_add_eq_or_of_lt h, Nat.shiftLeft_eq, Nat.mul_comm]

/-! ## Decimal fields of a fixed width -/

open Nat
open List

/-- The last digits of a number. -/
def fixedDigits : (width : ℕ) → (value : ℕ) → List ℕ
  | 0, _ => []
  | width + 1, value => value / 10 ^ width % 10 :: fixedDigits width value

variable {width value digit : ℕ}

lemma fixedDigits_length (width value : ℕ) : (fixedDigits width value).length = width := by
  induction width with
  | zero => rfl
  | succ width ih => rw [fixedDigits, length_cons, ih]

lemma fixedDigits_lt (hmem : digit ∈ fixedDigits width value) : digit < 10 := by
  induction width with
  | zero => cases hmem
  | succ width ih =>
    rcases mem_cons.mp hmem with rfl | hmem
    · exact mod_lt _ (by decide)
    · exact ih hmem

/-- Multiples of the next power do not reach the field. -/
lemma fixedDigits_add_mul (width value more : ℕ) :
    fixedDigits width (more * 10 ^ width + value) = fixedDigits width value := by
  induction width generalizing more with
  | zero => rfl
  | succ width ih =>
    have hpower : more * 10 ^ (width + 1) + value = more * 10 * 10 ^ width + value := by ring
    have hlead : (more * 10 * 10 ^ width + value) / 10 ^ width % 10 = value / 10 ^ width % 10 := by
      rw [Nat.add_comm, Nat.add_mul_div_right _ _ (Nat.pow_pos (by decide)),
        Nat.add_mul_mod_self_right]
    rw [fixedDigits, fixedDigits, hpower, hlead, ih]

/-- The leading digit. -/
lemma fixedDigits_lead (hdigit : digit < 10) (hvalue : value < 10 ^ width) :
    fixedDigits (width + 1) (digit * 10 ^ width + value) = digit :: fixedDigits width value := by
  have hlead : (digit * 10 ^ width + value) / 10 ^ width = digit := by
    rw [Nat.add_comm, Nat.add_mul_div_right _ _ (Nat.pow_pos (by decide)),
      Nat.div_eq_of_lt hvalue, Nat.zero_add]
  rw [fixedDigits, hlead, Nat.mod_eq_of_lt hdigit, fixedDigits_add_mul]

/-- The last digit. -/
lemma fixedDigits_last (width value : ℕ) :
    fixedDigits (width + 1) value = fixedDigits width (value / 10) ++ [value % 10] := by
  induction width with
  | zero =>
    show [value / 10 ^ 0 % 10] = [value % 10]
    rw [Nat.pow_zero, Nat.div_one]
  | succ width ih =>
    have hdiv : value / 10 ^ (width + 1) = value / 10 / 10 ^ width := by
      rw [Nat.div_div_eq_div_mul, pow_succ']
    rw [fixedDigits, ih, hdiv]
    rfl

lemma fixedDigits_zero (width : ℕ) : fixedDigits width 0 = List.replicate width 0 := by
  induction width with
  | zero => rfl
  | succ width ih => rw [fixedDigits, ih, Nat.zero_div, replicate_succ]

/-- The decimal text of a number that fits, filled up with zeros. -/
lemma padded_toDigits (hwidth : 0 < width) (hvalue : value < 10 ^ width) :
    List.replicate (width - (toDigits 10 value).length) '0' ++ toDigits 10 value =
      (fixedDigits width value).map digitChar := by
  -- along the last digit
  induction width generalizing value with
  | zero => omega
  | succ width ih =>
    rw [fixedDigits_last, toDigits_eq_if (by decide)]
    split
    · next hlt =>
      have hdiv : value / 10 = 0 := div_eq_of_lt hlt
      rw [hdiv, fixedDigits_zero, mod_eq_of_lt hlt, map_append, map_replicate]
      rfl
    · next hge =>
      have hlower : value / 10 < 10 ^ width := by
        rw [pow_succ] at hvalue
        omega
      have hpos : 0 < width := by
        apply pos_of_ne_zero
        rintro rfl
        omega
      rw [length_append, length_singleton, Nat.add_sub_add_right, ← append_assoc,
        ih hpos hlower, map_append]
      rfl

/-- The number of digits a number is written with. -/
lemma toDigits_length_le (hwidth : 0 < width) (hvalue : value < 10 ^ width) :
    (toDigits 10 value).length ≤ width :=
  (length_toDigits_le_iff (by decide) hwidth).mpr hvalue

/-- A number is below the power of its length. -/
lemma lt_pow_toDigits_length (value : ℕ) : value < 10 ^ (toDigits 10 value).length :=
  (length_toDigits_le_iff (by decide) length_toDigits_pos).mp le_rfl

/-- A number with a leading digit fills its field. -/
lemma toDigits_length_eq (hleast : 10 ^ width ≤ value) (hvalue : value < 10 ^ (width + 1)) :
    (toDigits 10 value).length = width + 1 := by
  apply le_antisymm
  · exact toDigits_length_le (succ_pos width) hvalue
  · have hlt := lt_of_le_of_lt hleast (lt_pow_toDigits_length value)
    exact (Nat.pow_lt_pow_iff_right (by decide)).mp hlt

end Oseo.Library
