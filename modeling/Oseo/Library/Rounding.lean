import Mathlib.Data.Int.Log
import Mathlib.Data.Rat.Floor
import Mathlib.Tactic.Positivity
import Mathlib.Data.Nat.Bitwise
import Mathlib.Data.Nat.Size

/-!
# Rounding to a floating-point format

A binary format with a number of digits and a least exponent, and rounding to the nearest number
of the format, ties to the even significand. The exponents have no upper end here: what is too
large for a format of bounded exponents is too large after rounding.

Every number of the format is its own rounding (`round_of_representable`), none is nearer to a
number than its rounding (`round_nearest`), and rounding keeps the order (`round_mono`).
-/

namespace Oseo.Library

section

section

open Int

/-- The nearest integer, an even one when two are equally near. -/
def roundHalfEven (x : ℚ) : ℤ :=
  if x - ⌊x⌋ < 1 / 2 then ⌊x⌋
  else if 1 / 2 < x - ⌊x⌋ then ⌊x⌋ + 1
  else if ⌊x⌋ % 2 = 0 then ⌊x⌋ else ⌊x⌋ + 1

/-- A binary format: the digits of its significands, and the least exponent of a last digit. -/
structure FloatFormat where
  digits : ℕ
  least : ℤ
  digits_pos : 0 < digits

namespace FloatFormat

variable {F : FloatFormat} {q r d : ℚ} {e : ℤ}

/-- A number of the format. -/
def Representable (F : FloatFormat) (q : ℚ) : Prop :=
  ∃ n e : ℤ, |n| < 2 ^ F.digits ∧ F.least ≤ e ∧ q = n * 2 ^ e

/-- The exponent of the last digit of the numbers around `q`. -/
def lastExponent (F : FloatFormat) (q : ℚ) : ℤ :=
  if q = 0 then F.least else max (Int.log 2 |q| + 1 - F.digits) F.least

/-- The number of the format nearest to `q`. -/
def round (F : FloatFormat) (q : ℚ) : ℚ :=
  roundHalfEven (q / 2 ^ F.lastExponent q) * 2 ^ F.lastExponent q

end FloatFormat

/-! ## Nearest integers -/

lemma roundHalfEven_cases (x : ℚ) :
    (roundHalfEven x = ⌊x⌋ ∧ x - ⌊x⌋ ≤ 1 / 2) ∨ (roundHalfEven x = ⌊x⌋ + 1 ∧ 1 / 2 ≤ x - ⌊x⌋) := by
  unfold roundHalfEven
  split_ifs with hlow hhigh heven
  · exact .inl ⟨rfl, hlow.le⟩
  · exact .inr ⟨rfl, hhigh.le⟩
  · exact .inl ⟨rfl, not_lt.mp hhigh⟩
  · exact .inr ⟨rfl, not_lt.mp hlow⟩

/-- No integer is nearer. -/
lemma roundHalfEven_nearest (x : ℚ) (n : ℤ) : |(roundHalfEven x : ℚ) - x| ≤ |(n : ℚ) - x| := by
  have hfloor := floor_le x
  have hlt := lt_floor_add_one x
  have hn : |(n : ℚ) - x| = x - n ∧ n ≤ ⌊x⌋ ∨ |(n : ℚ) - x| = n - x ∧ ⌊x⌋ + 1 ≤ n := by
    rcases le_or_gt n ⌊x⌋ with hle | hgt
    · have hcast : (n : ℚ) ≤ ⌊x⌋ := by exact_mod_cast hle
      exact .inl ⟨by rw [abs_of_nonpos (by linarith)]; ring, hle⟩
    · have hcast : (⌊x⌋ : ℚ) + 1 ≤ n := by exact_mod_cast hgt
      exact .inr ⟨abs_of_nonneg (by linarith), hgt⟩
  rcases roundHalfEven_cases x with ⟨heq, hhalf⟩ | ⟨heq, hhalf⟩
  · rw [heq, abs_of_nonpos (by linarith)]
    rcases hn with ⟨habs, hle⟩ | ⟨habs, hle⟩
    · have hcast : (n : ℚ) ≤ ⌊x⌋ := by exact_mod_cast hle
      rw [habs]
      linarith
    · have hcast : (⌊x⌋ : ℚ) + 1 ≤ n := by exact_mod_cast hle
      rw [habs]
      linarith
  · rw [heq, cast_add, cast_one, abs_of_nonneg (by linarith)]
    rcases hn with ⟨habs, hle⟩ | ⟨habs, hle⟩
    · have hcast : (n : ℚ) ≤ ⌊x⌋ := by exact_mod_cast hle
      rw [habs]
      linarith
    · have hcast : (⌊x⌋ : ℚ) + 1 ≤ n := by exact_mod_cast hle
      rw [habs]
      linarith

namespace FloatFormat

variable {F : FloatFormat} {q r d : ℚ} {e : ℤ}

lemma two_zpow_pos (e : ℤ) : (0 : ℚ) < 2 ^ e := zpow_pos two_pos e

/-! ## Places -/

lemma least_le_lastExponent (F : FloatFormat) (q : ℚ) : F.least ≤ F.lastExponent q := by
  unfold lastExponent
  split
  · exact le_refl _
  · exact le_max_right _ _

/-- Numbers are below the power of two that their last place leaves room for. -/
lemma abs_lt_of_lastExponent (F : FloatFormat) (q : ℚ) :
    |q| < 2 ^ (F.lastExponent q + F.digits) := by
  unfold lastExponent
  split
  · rename_i hzero
    rw [hzero, abs_zero]
    exact two_zpow_pos _
  · rename_i hne
    have hlog : |q| < 2 ^ (log 2 |q| + 1) := lt_zpow_succ_log_self one_lt_two |q|
    apply lt_of_lt_of_le hlog
    apply zpow_le_zpow_right₀ one_le_two
    omega

/-- Above the least exponent, the significand has all its digits. -/
lemma le_abs_of_lastExponent (h : F.least < F.lastExponent q) :
    2 ^ (F.lastExponent q + F.digits - 1) ≤ |q| := by
  unfold lastExponent at h ⊢
  split at h
  · exact absurd h (lt_irrefl _)
  · rename_i hne
    rw [if_neg hne]
    have hmax : max (log 2 |q| + 1 - F.digits) F.least = log 2 |q| + 1 - F.digits := by
      omega
    rw [hmax]
    have hlog : (2 : ℚ) ^ log 2 |q| ≤ |q| :=
      zpow_log_le_self one_lt_two (abs_pos.mpr hne)
    have hexponent : log 2 |q| + 1 - (F.digits : ℤ) + F.digits - 1 = log 2 |q| := by ring
    rwa [hexponent]

/-- A whole number of units of the place `e`. -/
def MultipleOf (e : ℤ) (q : ℚ) : Prop := ∃ n : ℤ, q = n * 2 ^ e

lemma MultipleOf.of_le {k : ℤ} (h : MultipleOf k q) (hle : e ≤ k) : MultipleOf e q := by
  obtain ⟨n, rfl⟩ := h
  obtain ⟨distance, hdistance⟩ := eq_ofNat_of_zero_le (sub_nonneg.mpr hle)
  refine ⟨n * 2 ^ distance, ?_⟩
  have hk : k = distance + e := by omega
  rw [hk, zpow_add₀ two_ne_zero, zpow_natCast]
  push_cast
  ring

/-- A number of the format is a multiple of a place that its size leaves no room below. -/
lemma Representable.multipleOf (h : F.Representable r)
    (he : e = F.least ∨ 2 ^ (e + F.digits - 1) ≤ |r|) : MultipleOf e r := by
  obtain ⟨n, k, hn, hk, rfl⟩ := h
  have hmultiple : MultipleOf k ((n : ℚ) * 2 ^ k) := ⟨n, rfl⟩
  rcases le_or_gt e k with hle | hgt
  · exact hmultiple.of_le hle
  · rcases he with rfl | hlarge
    · exact absurd hk (not_le.mpr hgt)
    · -- the number is below the room that `k` leaves
      exfalso
      have hcast : |(n : ℚ)| < 2 ^ F.digits := by exact_mod_cast hn
      have hsize : |(n : ℚ) * 2 ^ k| < 2 ^ (F.digits + k) := by
        rw [abs_mul, abs_of_pos (two_zpow_pos k), zpow_add₀ two_ne_zero, zpow_natCast]
        exact mul_lt_mul_of_pos_right hcast (two_zpow_pos k)
      have hroom : (2 : ℚ) ^ (F.digits + k) ≤ 2 ^ (e + F.digits - 1) :=
        zpow_le_zpow_right₀ one_le_two (by omega)
      linarith

/-! ## Rounding -/

/-- No multiple of the last place is nearer than the rounding. -/
lemma round_nearest_multiple (h : MultipleOf (F.lastExponent q) r) :
    |F.round q - q| ≤ |r - q| := by
  obtain ⟨n, rfl⟩ := h
  have hpos := two_zpow_pos (F.lastExponent q)
  have hscale : ∀ m : ℤ, |(m : ℚ) * 2 ^ F.lastExponent q - q| =
      |(m : ℚ) - q / 2 ^ F.lastExponent q| * 2 ^ F.lastExponent q := by
    intro m
    rw [← abs_of_pos hpos, ← abs_mul, abs_of_pos hpos, sub_mul, div_mul_cancel₀ _ hpos.ne']
  unfold round
  rw [hscale, hscale]
  exact mul_le_mul_of_nonneg_right (roundHalfEven_nearest _ n) hpos.le

/-- No number of the format is nearer than the rounding. -/
theorem round_nearest (h : F.Representable r) : |F.round q - q| ≤ |r - q| := by
  by_cases hmultiple : MultipleOf (F.lastExponent q) r
  · exact round_nearest_multiple hmultiple
  · -- `r` is so small that the power of two below `q` is nearer
    have hne : F.lastExponent q ≠ F.least := fun heq => hmultiple (h.multipleOf (.inl heq))
    have hleast := F.least_le_lastExponent q
    have hlarge := le_abs_of_lastExponent (lt_of_le_of_ne hleast hne.symm)
    have hsmall : |r| < 2 ^ (F.lastExponent q + F.digits - 1) := by
      by_contra hcontra
      exact hmultiple (h.multipleOf (.inr (not_lt.mp hcontra)))
    have hdigits := F.digits_pos
    have hpower : MultipleOf (F.lastExponent q) ((2 : ℚ) ^ (F.lastExponent q + F.digits - 1)) :=
      MultipleOf.of_le ⟨1, by rw [cast_one, one_mul]⟩ (by omega)
    rcases le_or_gt 0 q with hsign | hsign
    · rw [abs_of_nonneg hsign] at hlarge
      apply (round_nearest_multiple hpower).trans
      rw [abs_of_nonpos (by linarith), abs_of_nonpos (by linarith [le_abs_self r])]
      linarith [le_abs_self r]
    · rw [abs_of_neg hsign] at hlarge
      obtain ⟨n, hn⟩ := hpower
      have hnegative : MultipleOf (F.lastExponent q)
          (-(2 : ℚ) ^ (F.lastExponent q + F.digits - 1)) := by
        refine ⟨-n, ?_⟩
        rw [hn]
        push_cast
        ring
      apply (round_nearest_multiple hnegative).trans
      have hr := neg_abs_le r
      rw [abs_of_nonneg (by linarith), abs_of_nonneg (by linarith)]
      linarith

/-- The rounding is off by half a unit of the last place at most. -/
lemma abs_round_sub_le (F : FloatFormat) (q : ℚ) :
    |F.round q - q| ≤ 2 ^ F.lastExponent q / 2 := by
  have hpos := two_zpow_pos (F.lastExponent q)
  have hhalf : |(roundHalfEven (q / 2 ^ F.lastExponent q) : ℚ) - q / 2 ^ F.lastExponent q| ≤
      1 / 2 := by
    have hfloor := floor_le (q / 2 ^ F.lastExponent q)
    have hlt := lt_floor_add_one (q / 2 ^ F.lastExponent q)
    rw [abs_le]
    rcases roundHalfEven_cases (q / 2 ^ F.lastExponent q) with ⟨heq, hle⟩ | ⟨heq, hle⟩
    · rw [heq]
      constructor <;> linarith
    · rw [heq]
      push_cast
      constructor <;> linarith
  have hscale : F.round q - q =
      (roundHalfEven (q / 2 ^ F.lastExponent q) - q / 2 ^ F.lastExponent q) *
        2 ^ F.lastExponent q := by
    rw [sub_mul, div_mul_cancel₀ _ hpos.ne']
    rfl
  rw [hscale, abs_mul, abs_of_pos hpos]
  linarith [mul_le_mul_of_nonneg_right hhalf hpos.le]

/-- Above the least exponent it is off by a share of the number. -/
lemma abs_round_sub_cases (F : FloatFormat) (q : ℚ) :
    |F.round q - q| * 2 ^ F.digits ≤ |q| ∨ |F.round q - q| ≤ 2 ^ F.least / 2 := by
  have hbound := F.abs_round_sub_le q
  rcases lt_or_eq_of_le (F.least_le_lastExponent q) with hlt | heq
  · left
    have hlarge := le_abs_of_lastExponent hlt
    have hsplit : (2 : ℚ) ^ (F.lastExponent q + F.digits - 1) =
        2 ^ F.lastExponent q / 2 * 2 ^ F.digits := by
      rw [zpow_sub_one₀ two_ne_zero, zpow_add₀ two_ne_zero, zpow_natCast]
      ring
    rw [hsplit] at hlarge
    exact (mul_le_mul_of_nonneg_right hbound (by positivity)).trans hlarge
  · right
    rwa [← heq] at hbound

/-- A number of the format is its own rounding. -/
theorem round_of_representable (h : F.Representable q) : F.round q = q := by
  have hnearest := round_nearest h (q := q)
  rw [sub_self, abs_zero] at hnearest
  exact sub_eq_zero.mp (abs_nonpos_iff.mp hnearest)

lemma abs_roundHalfEven_le {x : ℚ} {bound : ℕ} (h : |x| < bound) : |roundHalfEven x| ≤ bound := by
  obtain ⟨hlow, hhigh⟩ := abs_lt.mp h
  have hfloor : -(bound : ℤ) ≤ ⌊x⌋ := le_floor.mpr (by push_cast; exact hlow.le)
  have hbelow : ⌊x⌋ < (bound : ℤ) := floor_lt.mpr (by exact_mod_cast hhigh)
  rw [abs_le]
  rcases roundHalfEven_cases x with ⟨heq, -⟩ | ⟨heq, -⟩
  · omega
  · omega

/-- A significand may also be the first one with a digit too many. -/
lemma representable_of_le {n : ℤ} (h : |n| ≤ 2 ^ F.digits) (he : F.least ≤ e) :
    F.Representable (n * 2 ^ e) := by
  rcases lt_or_eq_of_le h with hlt | heq
  · exact ⟨n, e, hlt, he, rfl⟩
  · have hdigits := F.digits_pos
    have hone : |n.sign| < 2 ^ F.digits := by
      apply lt_of_le_of_lt _ (one_lt_pow₀ one_lt_two hdigits.ne' : (1 : ℤ) < 2 ^ F.digits)
      rw [abs_le]
      rcases sign_trichotomy n with h | h | h <;> omega
    refine ⟨n.sign, e + F.digits, hone, by omega, ?_⟩
    have hsign : (n : ℚ) = n.sign * 2 ^ F.digits := by
      have hint := Int.sign_mul_abs n
      rw [heq] at hint
      exact_mod_cast hint.symm
    rw [hsign, zpow_add₀ two_ne_zero, zpow_natCast]
    ring

/-- The rounding is a number of the format. -/
lemma round_representable (F : FloatFormat) (q : ℚ) : F.Representable (F.round q) := by
  have hpos := two_zpow_pos (F.lastExponent q)
  have hquotient : |q / 2 ^ F.lastExponent q| < ((2 ^ F.digits : ℕ) : ℚ) := by
    rw [abs_div, abs_of_pos hpos, div_lt_iff₀ hpos, Nat.cast_pow, Nat.cast_ofNat, ← zpow_natCast,
      ← zpow_add₀ two_ne_zero, add_comm]
    exact F.abs_lt_of_lastExponent q
  have hbound := abs_roundHalfEven_le hquotient
  rw [Nat.cast_pow, Nat.cast_ofNat] at hbound
  exact representable_of_le hbound (F.least_le_lastExponent q)

/-- What is as near to the larger of two numbers is at or above their middle. -/
lemma middle_le {a b : ℚ} (hab : a < b) (h : |b - q| ≤ |a - q|) : (a + b) / 2 ≤ q := by
  by_contra hcontra
  rw [not_le] at hcontra
  rw [abs_of_pos (by linarith : 0 < b - q)] at h
  rcases abs_cases (a - q) with ⟨habs, -⟩ | ⟨habs, -⟩
  · rw [habs] at h
    linarith
  · rw [habs] at h
    linarith

lemma le_middle {a b : ℚ} (hab : a < b) (h : |a - q| ≤ |b - q|) : q ≤ (a + b) / 2 := by
  by_contra hcontra
  rw [not_le] at hcontra
  rw [abs_of_neg (by linarith : a - q < 0)] at h
  rcases abs_cases (b - q) with ⟨habs, -⟩ | ⟨habs, -⟩
  · rw [habs] at h
    linarith
  · rw [habs] at h
    linarith

/-- Rounding keeps the order. -/
theorem round_mono (h : q ≤ r) : F.round q ≤ F.round r := by
  by_contra hcontra
  rw [not_le] at hcontra
  -- both numbers are the middle of the two roundings
  have hq := middle_le hcontra (round_nearest (F.round_representable r) (q := q))
  have hr := le_middle hcontra (round_nearest (F.round_representable q) (q := r))
  have heq : q = r := by linarith
  rw [heq] at hcontra
  exact lt_irrefl _ hcontra

/-- What is nearer to a number of the format than half the distance to every other number of the
format is rounded to it. -/
lemma round_eq_of_near (hd : F.Representable d)
    (hnear : ∀ other, F.Representable other → other ≠ d → |d - q| < |other - q|) :
    F.round q = d := by
  by_contra hne
  have hround := round_nearest hd (q := q)
  have hother := hnear _ (F.round_representable q) hne
  linarith

/-- Integers of no more digits are numbers of a format that has a unit place. -/
lemma representable_intCast (hleast : F.least ≤ 0) {n : ℤ} (h : |n| ≤ 2 ^ F.digits) :
    F.Representable n := by
  have hunit := representable_of_le h hleast
  rwa [zpow_zero, mul_one] at hunit

/-- The rounded quotient of two integers has the floor of their quotient. -/
lemma floor_round_div (hleast : F.least ≤ 0) {a b : ℤ} (hb : 0 < b)
    (hsmall : (b : ℚ) * 2 ^ F.least < 2) (ha : |a| < 2 ^ F.digits) :
    ⌊F.round (a / b)⌋ = a / b := by
  have hbpos : (0 : ℚ) < b := by exact_mod_cast hb
  have hdiv := mul_ediv_add_emod a b
  have hlow := emod_nonneg a hb.ne'
  have hhigh := emod_lt_of_pos a hb
  rw [floor_eq_iff]
  constructor
  · -- the floor is a number of the format below the quotient
    have hquotient : |a / b| ≤ 2 ^ F.digits := (abs_ediv_le_abs a b).trans ha.le
    rw [← round_of_representable (representable_intCast hleast hquotient)]
    apply round_mono
    rw [le_div_iff₀ hbpos]
    exact_mod_cast (by linarith : a / b * b ≤ a)
  · -- the next integer is farther away than the rounding error
    have hgap : (a : ℚ) / b + 1 / b ≤ (a / b : ℤ) + 1 := by
      rw [← add_div, div_le_iff₀ hbpos]
      exact_mod_cast (by nlinarith : a + 1 ≤ (a / b + 1) * b)
    have herror : |F.round (a / b) - a / b| < 1 / b := by
      rcases F.abs_round_sub_cases (a / b) with hshare | hleastError
      · have hcast : |(a : ℚ)| < 2 ^ F.digits := by exact_mod_cast ha
        rw [abs_div, abs_of_pos hbpos, le_div_iff₀ hbpos] at hshare
        rw [lt_div_iff₀ hbpos]
        have hpow : (0 : ℚ) < 2 ^ F.digits := by positivity
        by_contra hcontra
        rw [not_lt] at hcontra
        nlinarith [mul_le_mul_of_nonneg_right hcontra hpow.le]
      · rw [lt_div_iff₀ hbpos]
        have hscaled := mul_le_mul_of_nonneg_right hleastError hbpos.le
        linarith
    have hupper := (abs_lt.mp herror).2
    linarith

end FloatFormat

end

/-! ## Rounding

* The candidate nearest to a number, the larger one of two that are as near. Among the multiples of
  a unit it is the one within half a unit (`nearest_multiple`); candidates of a finer grid that stay
  below a bound change nothing for a number above it (`Nearest.extend`).
* An integer that loses its low bits is rounded to the nearest one by the first bit it loses, by
  whether any other of them is set and by the parity of what is kept (`roundHalfEven_shift`). So a
  format rounds an integer of too many bits (`round_natCast`).
-/

section

/-- `v` is the candidate nearest to `x`, the larger one when two are as near. -/
def Nearest (candidates : Set ℚ) (x v : ℚ) : Prop :=
  v ∈ candidates ∧
    ∀ w ∈ candidates, |v - x| < |w - x| ∨ (|v - x| = |w - x| ∧ w ≤ v)

/-- The whole multiples of a unit. -/
def multiples (unit : ℚ) : Set ℚ := {w | ∃ n : ℤ, w = n * unit}

variable {candidates grid : Set ℚ} {x v w unit bound : ℚ} {n : ℤ}

/-- The multiple within half a unit is the nearest one, the upper half included. -/
theorem nearest_multiple (hunit : 0 < unit) (hlow : n * unit - unit / 2 ≤ x)
    (hhigh : x < n * unit + unit / 2) : Nearest (multiples unit) x (n * unit) := by
  refine ⟨⟨n, rfl⟩, ?_⟩
  rintro w ⟨m, rfl⟩
  have hnear : |n * unit - x| ≤ unit / 2 := by
    rw [abs_le]
    constructor <;> linarith
  rcases lt_trichotomy m n with hlt | heq | hgt
  · have hstep : (m : ℚ) + 1 ≤ n := by exact_mod_cast hlt
    have hscaled := mul_le_mul_of_nonneg_right hstep hunit.le
    have hfar : unit / 2 ≤ |m * unit - x| := by
      rw [abs_of_neg (by linarith)]
      linarith
    rcases lt_or_eq_of_le (hnear.trans hfar) with hless | hsame
    · exact .inl hless
    · exact .inr ⟨hsame, by linarith⟩
  · rw [heq]
    exact .inr ⟨rfl, le_refl _⟩
  · have hstep : (n : ℚ) + 1 ≤ m := by exact_mod_cast hgt
    have hscaled := mul_le_mul_of_nonneg_right hstep hunit.le
    have hfar : unit / 2 < |m * unit - x| := by
      rw [abs_of_pos (by linarith)]
      linarith
    exact .inl (hnear.trans_lt hfar)

/-- The nearest number of a grid stays the nearest among candidates that are of the grid or below
one of its numbers that is not above `x`. -/
theorem Nearest.extend (h : Nearest grid x v) (hv : v ∈ candidates) (hbound : bound ∈ grid)
    (hle : bound ≤ x) (hcandidates : ∀ w ∈ candidates, w ∈ grid ∨ w < bound) :
    Nearest candidates x v := by
  refine ⟨hv, ?_⟩
  intro w hw
  rcases hcandidates w hw with hgrid | hbelow
  · exact h.2 w hgrid
  · left
    have hnear : |v - x| ≤ |bound - x| := by
      rcases h.2 bound hbound with hlt | ⟨heq, -⟩
      · exact hlt.le
      · exact heq.le
    apply hnear.trans_lt
    rw [abs_of_nonpos (by linarith), abs_of_neg (by linarith)]
    linarith

end

/-! ## Rounding integers bit by bit -/

open Nat

variable {F : FloatFormat} {n guard : ℕ}

/-- Whether an integer that loses the bits up to `guard` is rounded up. -/
def roundsUp (n guard : ℕ) : Bool :=
  n.testBit guard && (n % 2 ^ guard ≠ 0 || n / 2 ^ (guard + 1) % 2 ≠ 0)

lemma roundHalfEven_shift (n guard : ℕ) : roundHalfEven ((n : ℚ) / 2 ^ (guard + 1)) =
    (n / 2 ^ (guard + 1) + (roundsUp n guard).toNat : ℕ) := by
  have hfloor : ⌊(n : ℚ) / 2 ^ (guard + 1)⌋ = (n / 2 ^ (guard + 1) : ℕ) := by
    have hdiv := Rat.floor_intCast_div_natCast n (2 ^ (guard + 1))
    push_cast at hdiv ⊢
    exact hdiv
  have hlow : ((n % 2 ^ guard : ℕ) : ℚ) < 2 ^ guard := by
    exact_mod_cast mod_lt n (Nat.two_pow_pos guard)
  -- what is lost is the guard bit above the others
  have hlost : (n : ℚ) / 2 ^ (guard + 1) - (n / 2 ^ (guard + 1) : ℕ) =
      ((n % 2 ^ guard : ℕ) + 2 ^ guard * ((n.testBit guard).toNat : ℕ)) / (2 ^ guard * 2) := by
    have hsplit := div_add_mod n (2 ^ (guard + 1))
    rw [mod_pow_succ, ← toNat_testBit] at hsplit
    have hcast : (2 ^ (guard + 1) * (n / 2 ^ (guard + 1) : ℕ) + ((n % 2 ^ guard : ℕ) +
        2 ^ guard * ((n.testBit guard).toNat : ℕ)) : ℚ) = n := by exact_mod_cast hsplit
    rw [← pow_succ, sub_eq_iff_eq_add, ← hcast]
    field_simp
    ring
  have hhalf (lost : ℚ) : (lost / (2 ^ guard * 2) < 1 / 2 ↔ lost < 2 ^ guard) ∧
      (1 / 2 < lost / (2 ^ guard * 2) ↔ 2 ^ guard < lost) := by
    rw [div_lt_div_iff₀ (by positivity) two_pos, div_lt_div_iff₀ two_pos (by positivity)]
    constructor
    · constructor <;> intro h <;> linarith
    · constructor <;> intro h <;> linarith
  unfold roundHalfEven roundsUp
  simp only [hfloor, Int.cast_natCast, hlost, (hhalf _).1, (hhalf _).2]
  cases n.testBit guard
  · rw [Bool.toNat_false, cast_zero, mul_zero, add_zero, if_pos hlow]
    rfl
  · rw [Bool.toNat_true, cast_one, mul_one, if_neg (by simp)]
    by_cases hzero : n % 2 ^ guard = 0
    · rw [hzero, cast_zero, zero_add, if_neg (lt_irrefl _)]
      by_cases heven : n / 2 ^ (guard + 1) % 2 = 0
      · rw [heven, if_pos (by omega)]
        rfl
      · rw [if_neg (by omega), decide_eq_true heven]
        rfl
    · have hone : (1 : ℚ) ≤ (n % 2 ^ guard : ℕ) := by exact_mod_cast pos_of_ne_zero hzero
      rw [if_pos (by linarith), decide_eq_true hzero]
      rfl

lemma size_eq_log (h : n ≠ 0) : size n = log 2 n + 1 := by
  apply le_antisymm
  · rw [size_le]
    exact lt_pow_succ_log_self (by decide) n
  · exact lt_size.mpr (pow_log_le_self 2 h)

/-- The rounding of an integer that has so many bits too many. -/
theorem round_natCast (hleast : F.least ≤ 0) (hsize : size n = F.digits + (guard + 1)) :
    F.round n = (n / 2 ^ (guard + 1) + (roundsUp n guard).toNat : ℕ) * 2 ^ (guard + 1) := by
  have hne : n ≠ 0 := by
    rintro rfl
    rw [size_zero] at hsize
    omega
  have hplace : F.lastExponent n = (guard + 1 : ℕ) := by
    unfold FloatFormat.lastExponent
    rw [if_neg (cast_ne_zero.mpr hne), abs_of_nonneg (cast_nonneg n), Int.log_natCast]
    have hlog := size_eq_log hne
    omega
  unfold FloatFormat.round
  rw [hplace, zpow_natCast, roundHalfEven_shift, Int.cast_natCast]

end

/-! ## Doubles

The binary64 numbers and their arithmetic: every operation is the exact one on rationals, rounded
to the nearest double, ties to even. The two zeros are one number here.
-/

section

open Int
open FloatFormat

/-- The binary64 format, without the upper end of its exponents. -/
def binary64 : FloatFormat := ⟨53, -1074, by decide⟩

/-- A finite double. -/
@[ext]
structure Binary64 where
  value : ℚ
  representable : binary64.Representable value
  bounded : |value| < 2 ^ 1024

/-- A double. -/
inductive Number where
  | nan
  | infinite (negative : Bool)
  | finite (x : Binary64)

namespace Number

/-- The double a rational is rounded to. -/
def ofRat (q : ℚ) : Number :=
  if h : |binary64.round q| < 2 ^ 1024 then
    .finite ⟨binary64.round q, binary64.round_representable q, h⟩
  else .infinite (decide (q < 0))

def isFinite : Number → Bool
  | .finite _ => true
  | _ => false

def neg : Number → Number
  | .nan => .nan
  | .infinite negative => .infinite !negative
  | .finite x => ofRat (-x.value)

def add : Number → Number → Number
  | .nan, _ => .nan
  | _, .nan => .nan
  | .infinite x, .infinite y => if x = y then .infinite x else .nan
  | .infinite x, .finite _ => .infinite x
  | .finite _, .infinite y => .infinite y
  | .finite x, .finite y => ofRat (x.value + y.value)

def mul : Number → Number → Number
  | .nan, _ => .nan
  | _, .nan => .nan
  | .infinite x, .infinite y => .infinite (x != y)
  | .infinite x, .finite y => if y.value = 0 then .nan else .infinite (x != decide (y.value < 0))
  | .finite x, .infinite y => if x.value = 0 then .nan else .infinite (decide (x.value < 0) != y)
  | .finite x, .finite y => ofRat (x.value * y.value)

/-- Division, by other divisors than zero. -/
def div : Number → Number → Number
  | .nan, _ => .nan
  | _, .nan => .nan
  | .infinite _, .infinite _ => .nan
  | .infinite x, .finite y => .infinite (x != decide (y.value < 0))
  | .finite _, .infinite _ => ofRat 0
  | .finite x, .finite y => ofRat (x.value / y.value)

def floor : Number → Number
  | .finite x => ofRat ⌊x.value⌋
  | x => x

/-- The integer towards zero. -/
def truncated (q : ℚ) : ℤ := if 0 ≤ q then ⌊q⌋ else ⌈q⌉

def trunc : Number → Number
  | .finite x => ofRat (truncated x.value)
  | x => x

/-- The remainder of a truncating division, by other divisors than zero. -/
def fmod : Number → Number → Number
  | .finite x, .finite y => ofRat (x.value - y.value * truncated (x.value / y.value))
  | .finite x, .infinite _ => .finite x
  | _, _ => .nan

/-- The double of an integer. -/
def ofInt (n : ℤ) : Number := ofRat n

/-! ## Exact results -/

/-- The double is a finite one of this value. -/
def Is (x : Number) (q : ℚ) : Prop := ∃ y : Binary64, x = .finite y ∧ y.value = q

variable {x y : Number} {q r : ℚ} {n m : ℤ}

lemma ofRat_is (hq : binary64.Representable q) (hbound : |q| < 2 ^ 1024) : (ofRat q).Is q := by
  have hround := round_of_representable hq
  unfold ofRat
  rw [dif_pos (by rwa [hround])]
  exact ⟨_, rfl, hround⟩

/-- Integers of 53 bits are doubles. -/
lemma ofInt_is (h : |n| ≤ 2 ^ 53) : (ofRat (n : ℚ)).Is n := by
  apply ofRat_is (representable_intCast (by decide) h)
  have hcast : |(n : ℚ)| ≤ 2 ^ 53 := by exact_mod_cast h
  exact lt_of_le_of_lt hcast (pow_lt_pow_right₀ one_lt_two (by norm_num))

lemma Is.isFinite (h : x.Is q) : x.isFinite = true := by
  obtain ⟨y, rfl, -⟩ := h
  rfl

lemma Is.unique (h : x.Is q) (h' : x.Is r) : q = r := by
  obtain ⟨y, rfl, rfl⟩ := h
  obtain ⟨z, heq, rfl⟩ := h'
  rw [Number.finite.inj heq]

lemma Is.ext (h : x.Is q) (h' : y.Is q) : x = y := by
  obtain ⟨a, rfl, ha⟩ := h
  obtain ⟨b, rfl, hb⟩ := h'
  rw [Binary64.ext (ha.trans hb.symm)]

lemma Is.add_eq (hx : x.Is q) (hy : y.Is r) : x.add y = ofRat (q + r) := by
  obtain ⟨a, rfl, rfl⟩ := hx
  obtain ⟨b, rfl, rfl⟩ := hy
  rfl

lemma Is.mul_eq (hx : x.Is q) (hy : y.Is r) : x.mul y = ofRat (q * r) := by
  obtain ⟨a, rfl, rfl⟩ := hx
  obtain ⟨b, rfl, rfl⟩ := hy
  rfl

/-- Sums of integers that stay within 53 bits are exact. -/
lemma Is.add_int (hx : x.Is n) (hy : y.Is m) (h : |n + m| ≤ 2 ^ 53) :
    (x.add y).Is ((n + m : ℤ) : ℚ) := by
  rw [hx.add_eq hy, ← cast_add]
  exact ofInt_is h

lemma Is.mul_int (hx : x.Is n) (hy : y.Is m) (h : |n * m| ≤ 2 ^ 53) :
    (x.mul y).Is ((n * m : ℤ) : ℚ) := by
  rw [hx.mul_eq hy, ← cast_mul]
  exact ofInt_is h

lemma Is.neg_int (hx : x.Is n) (h : |n| ≤ 2 ^ 53) : x.neg.Is ((-n : ℤ) : ℚ) := by
  obtain ⟨a, rfl, ha⟩ := hx
  show (ofRat (-a.value)).Is _
  rw [ha, ← cast_neg]
  exact ofInt_is (by rwa [abs_neg])

lemma truncated_intCast (n : ℤ) : truncated n = n := by
  unfold truncated
  rw [floor_intCast, ceil_intCast, ite_self]

lemma Is.trunc_int (hx : x.Is n) : x.trunc.Is n := by
  obtain ⟨a, rfl, ha⟩ := hx
  show (ofRat (truncated a.value)).Is n
  rw [ha, truncated_intCast, ← ha]
  exact ofRat_is a.representable a.bounded

lemma abs_truncated_le {bound : ℤ} (h : |q| ≤ bound) : |truncated q| ≤ bound := by
  obtain ⟨hlow, hhigh⟩ := abs_le.mp h
  unfold truncated
  rw [abs_le]
  split
  · rename_i hsign
    have hfloor : 0 ≤ ⌊q⌋ := floor_nonneg.mpr hsign
    have hle : ⌊q⌋ ≤ bound := by exact_mod_cast (floor_le q).trans hhigh
    omega
  · rename_i hsign
    have hceil : ⌈q⌉ ≤ 0 := ceil_nonpos.mpr (not_le.mp hsign).le
    have hle : -bound ≤ ⌈q⌉ := by
      have := hlow.trans (le_ceil q)
      exact_mod_cast this
    omega

/-- The integer towards zero is exact: a large double is an integer itself. -/
lemma trunc_is (x : Binary64) : (Number.finite x).trunc.Is ((truncated x.value : ℤ) : ℚ) := by
  rcases le_or_gt ((2 : ℚ) ^ (0 + (binary64.digits : ℤ) - 1)) |x.value| with hlarge | hsmall
  · obtain ⟨n, hn⟩ := x.representable.multipleOf (.inr hlarge)
    rw [zpow_zero, mul_one] at hn
    rw [hn, truncated_intCast]
    exact Is.trunc_int ⟨x, rfl, hn⟩
  · have hbound : |x.value| ≤ ((2 ^ 52 : ℤ) : ℚ) := by
      apply hsmall.le.trans
      show (2 : ℚ) ^ (0 + (53 : ℤ) - 1) ≤ _
      norm_num
    exact ofInt_is ((abs_truncated_le hbound).trans (by norm_num))

/-- Rounding does not leave a range of integers. -/
lemma abs_round_le {bound : ℤ} (hbound : |bound| ≤ 2 ^ 53) (h : |q| ≤ bound) :
    |binary64.round q| ≤ bound := by
  obtain ⟨hlow, hhigh⟩ := abs_le.mp h
  have hrep : binary64.Representable bound := representable_intCast (by decide) hbound
  have hneg : binary64.Representable ((-bound : ℤ) : ℚ) :=
    representable_intCast (by decide) (by rwa [abs_neg])
  rw [abs_le]
  constructor
  · have hmono := round_mono (F := binary64) (q := ((-bound : ℤ) : ℚ)) (by push_cast; exact hlow)
    rw [round_of_representable hneg] at hmono
    exact hmono
  · have hmono := round_mono (F := binary64) hhigh
    rwa [round_of_representable hrep] at hmono

/-- The floor of a rounded quotient of integers is the floor of the quotient. -/
lemma Is.floor_div (hx : x.Is n) (hy : y.Is m) (hpos : 0 < m) (hm : m ≤ 2 ^ 53)
    (hn : |n| < 2 ^ 53) : (x.div y).floor.Is ((n / m : ℤ) : ℚ) := by
  obtain ⟨a, rfl, ha⟩ := hx
  obtain ⟨b, rfl, hb⟩ := hy
  have hmpos : (0 : ℚ) < m := by exact_mod_cast hpos
  have hone : (1 : ℚ) ≤ m := by exact_mod_cast hpos
  have hquotient : |(n : ℚ) / m| ≤ ((2 ^ 53 : ℤ) : ℚ) := by
    rw [abs_div, abs_of_pos hmpos]
    have hcast : |(n : ℚ)| ≤ ((2 ^ 53 : ℤ) : ℚ) := by exact_mod_cast hn.le
    exact (div_le_self (abs_nonneg _) hone).trans hcast
  have hround := abs_round_le (by norm_num) hquotient
  have hfinite : |binary64.round (n / m)| < 2 ^ 1024 := by
    have hcast : ((2 ^ 53 : ℤ) : ℚ) = 2 ^ 53 := by norm_num
    rw [hcast] at hround
    exact lt_of_le_of_lt hround (pow_lt_pow_right₀ one_lt_two (by norm_num))
  have hsmall : (m : ℚ) * 2 ^ binary64.least < 2 := by
    have hcast : (m : ℚ) ≤ 2 ^ 53 := by exact_mod_cast hm
    have hpower : (2 : ℚ) ^ (53 : ℕ) * 2 ^ (-1074 : ℤ) < 2 := by
      rw [← zpow_natCast, ← zpow_add₀ two_ne_zero]
      exact zpow_lt_one_of_neg₀ one_lt_two (by norm_num) |>.trans one_lt_two
    exact lt_of_le_of_lt (mul_le_mul_of_nonneg_right hcast (two_zpow_pos _).le) hpower
  have hdiv : (Number.finite a).div (.finite b) = ofRat (n / m) := by
    show ofRat (a.value / b.value) = _
    rw [ha, hb]
  rw [hdiv, ofRat, dif_pos hfinite]
  show (ofRat (⌊binary64.round (n / m)⌋ : ℤ)).Is _
  rw [floor_round_div (by decide) hpos hsmall hn]
  exact ofInt_is ((abs_ediv_le_abs n m).trans hn.le)

lemma truncated_div (n : ℤ) (hpos : 0 < m) : truncated ((n : ℚ) / m) = n.tdiv m := by
  have hmpos : (0 : ℚ) < m := by exact_mod_cast hpos
  have hnonneg : 0 ≤ (n : ℚ) / m ↔ 0 ≤ n := by
    rw [le_div_iff₀ hmpos, zero_mul]
    exact_mod_cast Iff.rfl
  lift m to ℕ using hpos.le
  rw [cast_natCast] at hnonneg ⊢
  unfold truncated
  split
  · rename_i h
    rw [Rat.floor_intCast_div_natCast, tdiv_eq_ediv_of_nonneg (hnonneg.mp h)]
  · rename_i h
    have hneg : n < 0 := not_le.mp fun hcontra => h (hnonneg.mpr hcontra)
    rw [Rat.ceil_intCast_div_natCast, ← tdiv_eq_ediv_of_nonneg (by omega), Int.neg_tdiv,
      neg_neg]

lemma abs_tmod_le (n : ℤ) (hpos : 0 < m) : |n.tmod m| ≤ m := by
  have hlt := tmod_lt_of_pos n hpos
  have hneg := tmod_lt_of_pos (-n) hpos
  rw [neg_tmod] at hneg
  rw [abs_le]
  omega

lemma Is.fmod_int (hx : x.Is n) (hy : y.Is m) (hpos : 0 < m) (hm : m ≤ 2 ^ 53) :
    (x.fmod y).Is ((n.tmod m : ℤ) : ℚ) := by
  obtain ⟨a, rfl, ha⟩ := hx
  obtain ⟨b, rfl, hb⟩ := hy
  show (ofRat (a.value - b.value * truncated (a.value / b.value))).Is _
  rw [ha, hb, truncated_div n hpos]
  have hmod : (n : ℚ) - m * (n.tdiv m : ℤ) = ((n.tmod m : ℤ) : ℚ) := by
    rw [tmod_def]
    push_cast
    ring
  rw [hmod]
  exact ofInt_is ((abs_tmod_le n hpos).trans hm)

end Number

end

/-! ## Neighbours of a floating-point number

The next number of a format above and below a number. The gap below a power of two is half the gap
above it, as long as the exponents go on.

No number of the format lies between a number and its neighbours (`above_le`, `le_below`), and what
is off by less than half a gap is rounded back (`round_of_between`).
-/

namespace FloatFormat

variable {F : FloatFormat} {q r d : ℚ} {e : ℤ}

/-- The next number of the format above one that is not negative. -/
def above (F : FloatFormat) (q : ℚ) : ℚ := q + 2 ^ F.lastExponent q

/-- The exponent of the last digit of the numbers just below a positive one. -/
def exponentBelow (F : FloatFormat) (q : ℚ) : ℤ :=
  if F.least < F.lastExponent q ∧ q = 2 ^ (F.lastExponent q + F.digits - 1) then
    F.lastExponent q - 1
  else F.lastExponent q

/-- The next number of the format below a positive one. -/
def below (F : FloatFormat) (q : ℚ) : ℚ := q - 2 ^ F.exponentBelow q

/-! ## Multiples of a place -/

/-- Different multiples of a place are a unit of it apart. -/
lemma MultipleOf.add_le (hq : MultipleOf e q) (hr : MultipleOf e r) (h : q < r) :
    q + 2 ^ e ≤ r := by
  obtain ⟨n, rfl⟩ := hq
  obtain ⟨m, rfl⟩ := hr
  have hpos := two_zpow_pos e
  have hlt : (n : ℚ) < m := lt_of_mul_lt_mul_right h hpos.le
  have hle : (n : ℚ) + 1 ≤ m := by exact_mod_cast hlt
  calc (n : ℚ) * 2 ^ e + 2 ^ e = (n + 1) * 2 ^ e := by ring
    _ ≤ m * 2 ^ e := mul_le_mul_of_nonneg_right hle hpos.le

lemma multipleOf_two_zpow {k : ℤ} (h : e ≤ k) : MultipleOf e (2 ^ k) :=
  .of_le ⟨1, by rw [Int.cast_one, one_mul]⟩ h

/-- A number of the format is a multiple of its last place. -/
lemma Representable.multipleOf_lastExponent (h : F.Representable q) :
    MultipleOf (F.lastExponent q) q := by
  apply h.multipleOf
  rcases eq_or_lt_of_le (F.least_le_lastExponent q) with heq | hlt
  · exact .inl heq.symm
  · exact .inr (le_abs_of_lastExponent hlt)

/-- So is every larger number of the format. -/
lemma multipleOf_of_le (hr : F.Representable r) (hq : 0 ≤ q) (h : q ≤ r) :
    MultipleOf (F.lastExponent q) r := by
  apply hr.multipleOf
  rcases eq_or_lt_of_le (F.least_le_lastExponent q) with heq | hlt
  · exact .inl heq.symm
  · right
    have hlarge := le_abs_of_lastExponent hlt
    rw [abs_of_nonneg hq] at hlarge
    exact hlarge.trans (h.trans (le_abs_self r))

/-! ## The number above -/

section
variable (hd : F.Representable d)
include hd

theorem above_le (hr : F.Representable r) (hsign : 0 ≤ d) (h : d < r) :
    F.above d ≤ r :=
  hd.multipleOf_lastExponent.add_le (multipleOf_of_le hr hsign h.le) h

lemma above_representable (hsign : 0 ≤ d) :
    F.Representable (F.above d) := by
  obtain ⟨n, hn⟩ := hd.multipleOf_lastExponent
  have hpos := two_zpow_pos (F.lastExponent d)
  have hroom := F.abs_lt_of_lastExponent d
  rw [abs_of_nonneg hsign, add_comm, zpow_add₀ two_ne_zero, zpow_natCast] at hroom
  nth_rewrite 1 [hn] at hroom
  have hbound : n < 2 ^ F.digits := by exact_mod_cast lt_of_mul_lt_mul_right hroom hpos.le
  have hnonneg : 0 ≤ n := by
    rw [hn] at hsign
    exact_mod_cast nonneg_of_mul_nonneg_left hsign hpos
  have habove : F.above d = ((n + 1 : ℤ) : ℚ) * 2 ^ F.lastExponent d := by
    unfold above
    nth_rewrite 1 [hn]
    push_cast
    ring
  rw [habove]
  apply representable_of_le _ (F.least_le_lastExponent d)
  rw [abs_of_nonneg (by omega)]
  omega

/-! ## The number below -/

/-- A positive number is one unit of its last place at least. -/
lemma zpow_lastExponent_le (hsign : 0 < d) :
    2 ^ F.lastExponent d ≤ d := by
  have hzero : MultipleOf (F.lastExponent d) 0 := ⟨0, by rw [Int.cast_zero, zero_mul]⟩
  have hle := hzero.add_le hd.multipleOf_lastExponent hsign
  rwa [zero_add] at hle

theorem le_below (hr : F.Representable r) (hsign : 0 < d) (h : r < d) :
    r ≤ F.below d := by
  have hdigits := F.digits_pos
  have hleast := F.least_le_lastExponent d
  -- where the gap is as wide as the place of `e`, the smaller numbers either have that place
  -- or lie below the power of two that starts it
  have hcases : ∀ e : ℤ, MultipleOf e d → (e = F.least ∨ (F.least < e ∧
      2 ^ (e + F.digits - 1) + 2 ^ e ≤ d)) → r + 2 ^ e ≤ d := by
    intro e hmultiple he
    rcases he with heq | ⟨hgt, hroom⟩
    · exact (hr.multipleOf (.inl heq)).add_le hmultiple h
    · by_cases hlarge : 2 ^ (e + F.digits - 1) ≤ |r|
      · exact (hr.multipleOf (.inr hlarge)).add_le hmultiple h
      · have hsmall := (le_abs_self r).trans (not_le.mp hlarge).le
        linarith
  unfold below exponentBelow
  split
  · rename_i hboundary
    have hmultiple : MultipleOf (F.lastExponent d - 1) d :=
      hd.multipleOf_lastExponent.of_le (by omega)
    have hgap := hcases (F.lastExponent d - 1) hmultiple (by
      rcases eq_or_lt_of_le (by omega : F.least ≤ F.lastExponent d - 1) with heq | hlt
      · exact .inl heq.symm
      · refine .inr ⟨hlt, ?_⟩
        have hhalf : (2 : ℚ) ^ (F.lastExponent d + F.digits - 1) =
            2 ^ (F.lastExponent d - 1 + F.digits - 1) +
              2 ^ (F.lastExponent d - 1 + F.digits - 1) := by
          rw [← two_mul, ← zpow_one_add₀ two_ne_zero]
          congr 1
          ring
        have hpower : (2 : ℚ) ^ (F.lastExponent d - 1) ≤
            2 ^ (F.lastExponent d - 1 + F.digits - 1) :=
          zpow_le_zpow_right₀ one_le_two (by omega)
        have hd := hboundary.2.trans hhalf
        linarith)
    linarith
  · rename_i hboundary
    have hgap := hcases (F.lastExponent d) hd.multipleOf_lastExponent (by
      rcases eq_or_lt_of_le hleast with heq | hlt
      · exact .inl heq.symm
      · refine .inr ⟨hlt, ?_⟩
        have hlarge := le_abs_of_lastExponent hlt
        rw [abs_of_pos hsign] at hlarge
        have hne : 2 ^ (F.lastExponent d + F.digits - 1) ≠ d :=
          fun heq => hboundary ⟨hlt, heq.symm⟩
        exact (multipleOf_two_zpow (by omega)).add_le hd.multipleOf_lastExponent
          (lt_of_le_of_ne hlarge hne))
    linarith

lemma below_representable (hsign : 0 < d) :
    F.Representable (F.below d) := by
  have hleast := F.least_le_lastExponent d
  unfold below exponentBelow
  split
  · rename_i hboundary
    have hbelow : d - 2 ^ (F.lastExponent d - 1) =
        ((2 ^ F.digits - 1 : ℤ) : ℚ) * 2 ^ (F.lastExponent d - 1) := by
      have hpower : d = 2 ^ F.digits * 2 ^ (F.lastExponent d - 1) := by
        rw [← zpow_natCast, ← zpow_add₀ two_ne_zero]
        nth_rewrite 1 [hboundary.2]
        congr 1
        ring
      nth_rewrite 1 [hpower]
      push_cast
      ring
    rw [hbelow]
    apply representable_of_le _ (by omega)
    have hone : (1 : ℤ) ≤ 2 ^ F.digits := one_le_pow₀ one_le_two
    rw [abs_of_nonneg (by omega)]
    omega
  · obtain ⟨n, hn⟩ := hd.multipleOf_lastExponent
    have hpos := two_zpow_pos (F.lastExponent d)
    have hroom := F.abs_lt_of_lastExponent d
    rw [abs_of_pos hsign, add_comm, zpow_add₀ two_ne_zero, zpow_natCast] at hroom
    nth_rewrite 1 [hn] at hroom
    have hbound : n < 2 ^ F.digits := by exact_mod_cast lt_of_mul_lt_mul_right hroom hpos.le
    have hone : 0 < n := by
      rw [hn] at hsign
      exact_mod_cast pos_of_mul_pos_left hsign hpos.le
    have hbelow : d - 2 ^ F.lastExponent d = ((n - 1 : ℤ) : ℚ) * 2 ^ F.lastExponent d := by
      nth_rewrite 1 [hn]
      push_cast
      ring
    rw [hbelow]
    apply representable_of_le _ hleast
    rw [abs_of_nonneg (by omega)]
    omega

/-- What is off by less than half of the gap on its side is rounded back. -/
theorem round_of_between (hsign : 0 < d)
    (hlow : d - 2 ^ F.exponentBelow d / 2 < q) (hhigh : q < d + 2 ^ F.lastExponent d / 2) :
    F.round q = d := by
  apply round_eq_of_near hd
  intro other hother hne
  rcases lt_or_gt_of_ne hne with hlt | hgt
  · have hle := le_below hd hother hsign hlt
    unfold below at hle
    rw [abs_of_neg (by linarith : other - q < 0), abs_lt]
    constructor <;> linarith
  · have hle := above_le hd hother hsign.le hgt
    unfold above at hle
    rw [abs_of_pos (by linarith : 0 < other - q), abs_lt]
    constructor <;> linarith

end

lemma Representable.neg (h : F.Representable q) : F.Representable (-q) := by
  obtain ⟨n, e, hn, he, rfl⟩ := h
  refine ⟨-n, e, by rwa [abs_neg], he, ?_⟩
  push_cast
  ring

lemma two_zpow_representable (he : F.least ≤ e) : F.Representable (2 ^ e) := by
  have hone : |(1 : ℤ)| ≤ 2 ^ F.digits := by
    rw [abs_one]
    exact one_le_pow₀ one_le_two
  have hpower := representable_of_le hone he
  rwa [Int.cast_one, one_mul] at hpower

lemma least_le_exponentBelow (F : FloatFormat) (q : ℚ) : F.least ≤ F.exponentBelow q := by
  have hleast := F.least_le_lastExponent q
  unfold exponentBelow
  split <;> omega

end FloatFormat

open FloatFormat

/-! ## Doubles -/

namespace Number

variable {x y : Number} {q r : ℚ}

def sub (x y : Number) : Number := x.add y.neg

/-- The comparison with zero, false for no number. -/
def positive : Number → Bool
  | .nan => false
  | .infinite negative => !negative
  | .finite x => decide (0 < x.value)

/-- A difference that is a double is exact. -/
lemma Is.sub (hx : x.Is q) (hy : y.Is r) (hrep : binary64.Representable (q - r))
    (hbound : |q - r| < 2 ^ 1024) : (x.sub y).Is (q - r) := by
  have hneg : y.neg.Is (-r) := by
    obtain ⟨a, rfl, rfl⟩ := hy
    exact ofRat_is a.representable.neg (by rw [abs_neg]; exact a.bounded)
  unfold Number.sub
  rw [hx.add_eq hneg, ← sub_eq_add_neg]
  exact ofRat_is hrep hbound

lemma Is.positive (hx : x.Is q) : x.positive = decide (0 < q) := by
  obtain ⟨a, rfl, rfl⟩ := hx
  rfl

lemma is_finite (x : Binary64) : (Number.finite x).Is x.value := ⟨x, rfl, rfl⟩

end Number

namespace Binary64

variable {x : Binary64}

/-- The next double towards infinity, from one that is not negative. -/
def nextUp (x : Binary64) : Number := Number.ofRat (binary64.above x.value)

/-- The next double towards zero, from one that is not negative. -/
def nextDown (x : Binary64) : Number :=
  if x.value = 0 then .finite x else Number.ofRat (binary64.below x.value)

/-- The gap above a double is a power of two. -/
lemma nextUp_sub (hsign : 0 ≤ x.value) (h : binary64.above x.value < 2 ^ 1024) :
    (x.nextUp.sub (.finite x)).Is (2 ^ binary64.lastExponent x.value) := by
  have hpos := two_zpow_pos (binary64.lastExponent x.value)
  have habove : binary64.above x.value = x.value + 2 ^ binary64.lastExponent x.value := rfl
  have hup : x.nextUp.Is (binary64.above x.value) := by
    apply Number.ofRat_is (above_representable x.representable hsign)
    rwa [abs_of_pos (by linarith only [habove, hsign, hpos])]
  have hgap : binary64.above x.value - x.value = 2 ^ binary64.lastExponent x.value := by
    rw [habove, add_sub_cancel_left]
  rw [← hgap]
  apply hup.sub (Number.is_finite x)
  · rw [hgap]
    exact two_zpow_representable (least_le_lastExponent _ _)
  · rw [hgap, abs_of_pos hpos]
    exact lt_of_le_of_lt (by linarith only [habove, hsign]) h

/-- So is the gap below a positive double. -/
lemma sub_nextDown (hsign : 0 < x.value) :
    ((Number.finite x).sub x.nextDown).Is (2 ^ binary64.exponentBelow x.value) := by
  have hpos := two_zpow_pos (binary64.exponentBelow x.value)
  have hbelow : binary64.below x.value = x.value - 2 ^ binary64.exponentBelow x.value := rfl
  have hbounded := x.bounded
  rw [abs_of_pos hsign] at hbounded
  have hzero : binary64.Representable 0 := ⟨0, 0, by decide, by decide, by norm_num⟩
  have hnonneg := le_below x.representable hzero hsign hsign
  have hdown : x.nextDown.Is (binary64.below x.value) := by
    unfold nextDown
    rw [if_neg hsign.ne']
    apply Number.ofRat_is (below_representable x.representable hsign)
    rw [abs_of_nonneg hnonneg]
    exact lt_of_le_of_lt (by linarith only [hbelow, hpos]) hbounded
  have hgap : x.value - binary64.below x.value = 2 ^ binary64.exponentBelow x.value := by
    rw [hbelow, sub_sub_cancel]
  rw [← hgap]
  apply (Number.is_finite x).sub hdown
  · rw [hgap]
    exact two_zpow_representable (least_le_exponentBelow _ _)
  · rw [hgap, abs_of_pos hpos]
    exact lt_of_le_of_lt (by linarith only [hbelow, hnonneg]) hbounded

end Binary64

end Oseo.Library
