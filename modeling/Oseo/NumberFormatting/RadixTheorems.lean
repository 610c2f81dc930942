import Oseo.NumberFormatting.NumberText

/-!
# Texts in a radix read back

The digit loop stops before its buffer is full, and the digits it leaves name a number nearer to
the double than half the gap on either side (`fractionDigits_near`). With the exact integer part
in front, the text is a numeral without superfluous zeros whose value is rounded to the double
(`numberRadixText_roundTrips`).
-/

namespace Oseo.NumberFormatting

open Nat
open List
open Library Library.FloatFormat NumberBignum

variable {magnitude : Binary64} {radix digit : ℕ} {digits : List Char}

/-! ## Glyphs -/

lemma glyphValue_glyphOf (h : digit < 36) : glyphValue (glyphOf digit) = digit := by
  have hall : ∀ digit : Fin 36, glyphValue (glyphOf digit) = digit := by decide
  exact hall ⟨digit, h⟩

lemma glyphOf_ne_point (h : digit < 36) : glyphOf digit ≠ '.' := by
  have hall : ∀ digit : Fin 36, glyphOf digit ≠ '.' := by decide
  exact hall ⟨digit, h⟩

lemma glyphOf_eq_zero (h : digit < 36) (hzero : glyphOf digit = '0') : digit = 0 := by
  have hvalue := glyphValue_glyphOf h
  rw [hzero] at hvalue
  exact hvalue.symm

/-- Glyphs of digits below the radix. -/
def Glyphs (radix : ℕ) (digits : List Char) : Prop :=
  ∀ glyph ∈ digits, ∃ digit < radix, glyph = glyphOf digit

lemma glyphs_nil : Glyphs radix [] := fun _ h => absurd h List.not_mem_nil

lemma glyphs_cons (h : digit < radix) (hdigits : Glyphs radix digits) :
    Glyphs radix (glyphOf digit :: digits) :=
  List.forall_mem_cons.mpr ⟨⟨digit, h, rfl⟩, hdigits⟩

lemma Glyphs.point_notMem (h : Glyphs radix digits) (hradix : radix ≤ 36) : '.' ∉ digits := by
  intro hmem
  obtain ⟨digit, hlt, heq⟩ := h _ hmem
  exact glyphOf_ne_point (lt_of_lt_of_le hlt hradix) heq.symm

/-! ## Fractions -/

/-- The fraction that digits stand for, the last one first. -/
def fractionValue (radix : ℕ) (digits : List Char) : ℚ :=
  digitsValue radix digits / radix ^ digits.length

lemma fractionValue_nil : fractionValue radix [] = 0 := by
  show ((0 : ℕ) : ℚ) / 1 = 0
  norm_num

lemma fractionValue_cons (hradix : 0 < radix) (glyph : Char) (digits : List Char) :
    fractionValue radix (glyph :: digits) =
      fractionValue radix digits + glyphValue glyph / radix ^ (digits.length + 1) := by
  unfold fractionValue digitsValue
  rw [map_cons, ofDigits_cons, length_cons, pow_succ]
  push_cast
  field_simp
  ring

/-- Trailing zeros stand for nothing. -/
lemma fractionValue_dropWhile (hradix : 0 < radix) (digits : List Char) :
    fractionValue radix (digits.dropWhile (· == '0')) = fractionValue radix digits := by
  induction digits with
  | nil => rfl
  | cons glyph digits ih =>
    rw [dropWhile_cons]
    split
    · rename_i hzero
      have hglyph : glyphValue glyph = 0 := by
        rw [eq_of_beq hzero]
        rfl
      rw [ih, fractionValue_cons hradix, hglyph, cast_zero, zero_div, add_zero]
    · rfl

/-- Raising the last digit adds one unit of the last place, the carry out of the first included. -/
lemma raiseDigits_spec (hradix : 0 < radix) (hhigh : radix ≤ 36) (h : Glyphs radix digits) :
    fractionValue radix (raiseDigits radix digits).1 + (raiseDigits radix digits).2.toNat =
        fractionValue radix digits + 1 / radix ^ digits.length ∧
      Glyphs radix (raiseDigits radix digits).1 ∧
      (raiseDigits radix digits).1.length ≤ digits.length := by
  have hpos : (0 : ℚ) < radix := by exact_mod_cast hradix
  induction digits with
  | nil =>
    refine ⟨?_, glyphs_nil, le_refl 0⟩
    show fractionValue radix [] + ((1 : ℕ) : ℚ) = fractionValue radix [] + 1 / 1
    norm_num
  | cons glyph digits ih =>
    obtain ⟨⟨digit, hlt, rfl⟩, hrest⟩ := forall_mem_cons.mp h
    have hvalue := glyphValue_glyphOf (lt_of_lt_of_le hlt hhigh)
    rw [fractionValue_cons hradix, hvalue]
    unfold raiseDigits
    rw [hvalue]
    split
    · rename_i hbelow
      refine ⟨?_, glyphs_cons hbelow hrest, le_refl _⟩
      show fractionValue radix (glyphOf (digit + 1) :: digits) + ((0 : ℕ) : ℚ) = _
      rw [fractionValue_cons hradix, glyphValue_glyphOf (lt_of_lt_of_le hbelow hhigh),
        length_cons]
      push_cast
      ring
    · rename_i hlast
      obtain ⟨hsum, hglyphs, hlength⟩ := ih hrest
      refine ⟨?_, hglyphs, hlength.trans (le_succ _)⟩
      have hradixEq : (radix : ℚ) = digit + 1 := by exact_mod_cast (by omega : radix = digit + 1)
      rw [hsum, length_cons, pow_succ, add_assoc, add_right_inj, ← add_div, ← hradixEq,
        mul_comm, div_mul_cancel_left₀ hpos.ne', one_div]

/-! ## The digit loop -/

/-- One round: the digits and the rest keep their sum, and the budgets their size. -/
lemma round_eq {fraction next denominator length : ℕ} (hradix : 0 < radix)
    (hdenominator : 0 < denominator) (h : fraction * radix = digit * denominator + next) (v : ℚ) :
    v + (fraction : ℚ) / denominator / radix ^ length =
      v + digit / radix ^ (length + 1) + next / denominator / radix ^ (length + 1) := by
  have hcast : (fraction : ℚ) * radix = digit * denominator + next := by exact_mod_cast h
  rw [pow_succ]
  field_simp
  linarith

lemma scaled_eq {denominator length : ℕ} (hradix : 0 < radix) (budget : ℕ) :
    ((budget * radix : ℕ) : ℚ) / denominator / radix ^ (length + 1) =
      budget / denominator / radix ^ length := by
  rw [pow_succ]
  push_cast
  field_simp

/-- The next digit and what it leaves of the fraction. -/
def nextDigit (radix : ℕ) (denominator fraction : NumberBignum) : ℕ :=
  denominator.chosenDigit (fraction.multiplySmall radix) (radix - 1)

def nextFraction (radix : ℕ) (denominator fraction : NumberBignum) : NumberBignum :=
  denominator.reduce (fraction.multiplySmall radix) (nextDigit radix denominator fraction)

lemma nextDigit_spec {denominator fraction : NumberBignum} (hradix : 0 < radix)
    (h : fraction.value < denominator.value) :
    nextDigit radix denominator fraction < radix ∧
      fraction.value * radix = nextDigit radix denominator fraction * denominator.value +
        (nextFraction radix denominator fraction).value ∧
      (nextFraction radix denominator fraction).value < denominator.value := by
  have hscaled : (fraction.multiplySmall radix).value < (radix - 1 + 1) * denominator.value := by
    rw [value_multiplySmall, Nat.sub_add_cancel hradix, mul_comm]
    exact Nat.mul_lt_mul_of_pos_left h hradix
  have hdigit : nextDigit radix denominator fraction = _ := chosenDigit_eq hscaled
  have hnext : (nextFraction radix denominator fraction).value = _ := value_reduce hscaled
  refine ⟨?_, ?_, ?_⟩
  · have hle := chosenDigit_le denominator (fraction.multiplySmall radix) (radix - 1)
    unfold nextDigit
    omega
  · rw [hdigit, hnext, value_multiplySmall, mul_comm _ denominator.value]
    exact (div_add_mod _ _).symm
  · rw [hnext]
    exact mod_lt _ (zero_lt_of_lt h)

/-- One round of the digit loop. -/
lemma fractionDigits_succ {denominator : NumberBignum} {room : ℕ}
    (fraction upperBudget lowerBudget : NumberBignum) :
    fractionDigits radix denominator (room + 1) fraction upperBudget lowerBudget digits =
      if ((((nextFraction radix denominator fraction).multiplySmall 2).compare denominator = .gt ∨
          (((nextFraction radix denominator fraction).multiplySmall 2).compare denominator = .eq ∧
            nextDigit radix denominator fraction % 2 ≠ 0)) ∧
          ((nextFraction radix denominator fraction).add
            (upperBudget.multiplySmall radix)).compare denominator = .gt) then
        some (raiseDigits radix (glyphOf (nextDigit radix denominator fraction) :: digits))
      else if (nextFraction radix denominator fraction).compare
          (lowerBudget.multiplySmall radix) = .lt then
        some (glyphOf (nextDigit radix denominator fraction) :: digits, false)
      else fractionDigits radix denominator room (nextFraction radix denominator fraction)
        (upperBudget.multiplySmall radix) (lowerBudget.multiplySmall radix)
        (glyphOf (nextDigit radix denominator fraction) :: digits) := rfl

/-- The digit loop finds digits before its room is used up, if the lower budget outgrows the
denominator in it. They are off by less than the lower budget downwards and less than the upper
budget upwards. -/
theorem fractionDigits_near (hlow : 2 ≤ radix) (hhigh : radix ≤ 36) {denominator : NumberBignum}
    {room : ℕ} {fraction upperBudget lowerBudget : NumberBignum} (hroom : 0 < room)
    (hfraction : fraction.value < denominator.value) (hupper : 0 < upperBudget.value)
    (hlower : denominator.value ≤ lowerBudget.value * radix ^ room) (hglyphs : Glyphs radix digits) :
    ∃ result carry, fractionDigits radix denominator room fraction upperBudget lowerBudget digits =
        some (result, carry) ∧ Glyphs radix result ∧ result.length ≤ digits.length + room ∧
      fractionValue radix digits +
          (fraction.value : ℚ) / denominator.value / radix ^ digits.length -
          lowerBudget.value / denominator.value / radix ^ digits.length <
        fractionValue radix result + carry.toNat ∧
      fractionValue radix result + carry.toNat <
        fractionValue radix digits +
          (fraction.value : ℚ) / denominator.value / radix ^ digits.length +
          upperBudget.value / denominator.value / radix ^ digits.length := by
  have hradix : 0 < radix := by omega
  have hpos : (0 : ℚ) < radix := by exact_mod_cast hradix
  have hden : 0 < denominator.value := zero_lt_of_lt hfraction
  have hdenq : (0 : ℚ) < denominator.value := by exact_mod_cast hden
  induction room generalizing fraction upperBudget lowerBudget digits with
  | zero => exact absurd hroom (lt_irrefl 0)
  | succ room ih =>
    obtain ⟨hdigitLt, hdivision, hnextLt⟩ := nextDigit_spec hradix hfraction
    set digit := nextDigit radix denominator fraction with hdigitDef
    set next := nextFraction radix denominator fraction with hnextDef
    have hglyph := glyphValue_glyphOf (lt_of_lt_of_le hdigitLt hhigh)
    have hnewGlyphs := glyphs_cons hdigitLt hglyphs
    have hvalue := fractionValue_cons hradix (glyphOf digit) digits
    rw [hglyph] at hvalue
    have hsum := @round_eq radix digit fraction.value next.value denominator.value digits.length
      hradix hden hdivision (fractionValue radix digits)
    rw [← hvalue] at hsum
    have hupperScaled := @scaled_eq radix denominator.value digits.length hradix upperBudget.value
    have hlowerScaled := @scaled_eq radix denominator.value digits.length hradix lowerBudget.value
    rw [← value_multiplySmall] at hupperScaled hlowerScaled
    have hpower : (0 : ℚ) < radix ^ (digits.length + 1) := by positivity
    rw [hsum, ← hupperScaled, ← hlowerScaled]
    have hlowerPos : 0 < (lowerBudget.multiplySmall radix).value := by
      rw [value_multiplySmall]
      exact Nat.mul_pos (Nat.pos_of_mul_pos_right (hden.trans_le hlower)) hradix
    have hupperPos : 0 < (upperBudget.multiplySmall radix).value := by
      rw [value_multiplySmall]
      exact mul_pos hupper hradix
    have hlowerq : (0 : ℚ) < (lowerBudget.multiplySmall radix).value / denominator.value /
        radix ^ (digits.length + 1) :=
      div_pos (div_pos (by exact_mod_cast hlowerPos) hdenq) hpower
    have hupperq : (0 : ℚ) < (upperBudget.multiplySmall radix).value / denominator.value /
        radix ^ (digits.length + 1) :=
      div_pos (div_pos (by exact_mod_cast hupperPos) hdenq) hpower
    have hrestq : (0 : ℚ) ≤ next.value / denominator.value / radix ^ (digits.length + 1) := by
      positivity
    rw [fractionDigits_succ, ← hdigitDef, ← hnextDef]
    split
    · -- the raised digits exceed the number by what is missing to the next unit
      rename_i hraise
      have hinside := compare_eq_gt.mp hraise.2
      rw [value_add] at hinside
      obtain ⟨hraised, hraisedGlyphs, hlength⟩ := raiseDigits_spec hradix hhigh hnewGlyphs
      refine ⟨(raiseDigits radix (glyphOf digit :: digits)).1,
        (raiseDigits radix (glyphOf digit :: digits)).2, rfl, hraisedGlyphs, ?_, ?_⟩
      · rw [length_cons] at hlength
        omega
      · rw [hraised, length_cons]
        have hmissing : (1 : ℚ) / radix ^ (digits.length + 1) <
            next.value / denominator.value / radix ^ (digits.length + 1) +
              (upperBudget.multiplySmall radix).value / denominator.value /
                radix ^ (digits.length + 1) := by
          rw [← add_div, ← add_div, div_lt_div_iff_of_pos_right hpower, one_lt_div hdenq]
          exact_mod_cast hinside
        have hunit : (next.value : ℚ) / denominator.value / radix ^ (digits.length + 1) <
            1 / radix ^ (digits.length + 1) := by
          rw [div_lt_div_iff_of_pos_right hpower, div_lt_one hdenq]
          exact_mod_cast hnextLt
        constructor <;> linarith
    · split
      · -- the rest is within the lower budget
        rename_i hstop
        have hwithin := compare_eq_lt.mp hstop
        refine ⟨_, _, rfl, hnewGlyphs, ?_, ?_⟩
        · rw [length_cons]
          omega
        · have hrest : (next.value : ℚ) / denominator.value / radix ^ (digits.length + 1) <
              (lowerBudget.multiplySmall radix).value / denominator.value /
                radix ^ (digits.length + 1) := by
            rw [div_lt_div_iff_of_pos_right hpower, div_lt_div_iff_of_pos_right hdenq]
            exact_mod_cast hwithin
          show _ < fractionValue radix (glyphOf digit :: digits) + ((0 : ℕ) : ℚ) ∧
            fractionValue radix (glyphOf digit :: digits) + ((0 : ℕ) : ℚ) < _
          rw [cast_zero, add_zero]
          constructor <;> linarith
      · rename_i hgo
        rw [compare_eq_lt, not_lt] at hgo
        have hgrown : denominator.value ≤
            (lowerBudget.multiplySmall radix).value * radix ^ room := by
          rw [value_multiplySmall, mul_assoc, ← pow_succ']
          exact hlower
        have hmore : 0 < room := by
          rcases Nat.eq_zero_or_pos room with hzero | hpos
          · rw [hzero, pow_zero, mul_one] at hgrown
            omega
          · exact hpos
        obtain ⟨result, carry, hrun, hresult, hlength, hbounds⟩ :=
          ih hmore hnextLt hupperPos hgrown hnewGlyphs
        refine ⟨result, carry, hrun, hresult, ?_, hbounds⟩
        rw [length_cons] at hlength
        omega

/-! ## The integer -/

/-- The digits of an integer that the buffer has room for. -/
lemma positiveDigits_eq (radix : Radix) {room : ℕ} {integer : NumberBignum} (digits : List Char)
    (h : integer.value < radix.base ^ room) :
    positiveDigits radix room integer digits =
      some (((Nat.digits radix.base integer.value).map glyphOf).reverse ++ digits) := by
  induction room generalizing integer digits with
  | zero =>
    rw [pow_zero] at h
    have hzero : integer.value = 0 := by omega
    unfold positiveDigits
    rw [if_pos (isZero_iff.mpr hzero), hzero, digits_zero]
    rfl
  | succ room ih =>
    unfold positiveDigits
    by_cases hzero : integer.value = 0
    · rw [if_pos (isZero_iff.mpr hzero), hzero, digits_zero]
      rfl
    · rw [if_neg (fun hcontra => hzero (isZero_iff.mp hcontra))]
      obtain ⟨hquotient, hremainder⟩ := value_divideSmall integer radix.pos
      have hroom : (integer.divideSmall radix.base radix.pos).1.value < radix.base ^ room := by
        rw [hquotient, div_lt_iff_lt_mul radix.pos, ← pow_succ]
        exact h
      show positiveDigits radix room _ _ = _
      rw [ih _ hroom, hquotient, hremainder,
        digits_def' (lt_of_lt_of_le one_lt_two radix.low) (pos_of_ne_zero hzero),
        map_cons, reverse_cons, append_assoc]
      rfl

lemma digitsValue_map_glyphOf (hhigh : radix ≤ 36) {values : List ℕ}
    (h : ∀ value ∈ values, value < radix) :
    digitsValue radix (values.map glyphOf) = Nat.ofDigits radix values := by
  unfold digitsValue
  rw [map_map]
  congr 1
  rw [map_congr_left (g := id), map_id]
  intro value hmem
  exact glyphValue_glyphOf (lt_of_lt_of_le (h value hmem) hhigh)

/-- The digits of an integer that has room in the buffer: they stand for it and have no leading
zeros. -/
lemma integerDigits_spec (radix : Radix) {integer : NumberBignum} {room : ℕ} (hroom : 0 < room)
    (hbuffer : room ≤ digitRoom) (h : integer.value < radix.base ^ room) :
    ∃ digits, integerDigits radix integer = some digits ∧ Glyphs radix.base digits ∧
      digits.length ≤ room ∧ digits ≠ [] ∧ (digits.head? = some '0' → digits = ['0']) ∧
      digitsValue radix.base digits.reverse = integer.value := by
  have hbase : 1 < radix.base := lt_of_lt_of_le one_lt_two radix.low
  unfold integerDigits
  split
  · rename_i hzero
    refine ⟨['0'], rfl, glyphs_cons radix.pos glyphs_nil, hroom, cons_ne_nil _ _,
      fun _ => rfl, ?_⟩
    rw [isZero_iff.mp hzero]
    exact ofDigits_singleton
  · rename_i hne
    have hvalue : integer.value ≠ 0 := fun hcontra => hne (isZero_iff.mpr hcontra)
    have hall : integer.value < radix.base ^ digitRoom :=
      h.trans_le (Nat.pow_le_pow_right radix.pos hbuffer)
    have hdigits : ∀ value ∈ digits radix.base integer.value, value < radix.base :=
      fun value hmem => digits_lt_base hbase hmem
    rw [positiveDigits_eq radix [] hall, append_nil]
    refine ⟨_, rfl, ?_, ?_, ?_, ?_, ?_⟩
    · intro glyph hmem
      obtain ⟨value, hvalue, rfl⟩ := mem_map.mp (mem_reverse.mp hmem)
      exact ⟨value, hdigits value hvalue, rfl⟩
    · rw [length_reverse, length_map, digits_length_le_iff hbase]
      exact h
    · rw [ne_eq, reverse_eq_nil_iff, map_eq_nil_iff, digits_eq_nil_iff_eq_zero]
      exact hvalue
    · -- the leading digit is not zero
      intro hhead
      exfalso
      have hnil : digits radix.base integer.value ≠ [] :=
        digits_ne_nil_iff_ne_zero.mpr hvalue
      have hlast := getLast_digit_ne_zero radix.base hvalue
      rw [head?_reverse, getLast?_map, getLast?_eq_some_getLast hnil,
        Option.map_some, Option.some_inj] at hhead
      have hlt := hdigits _ (getLast_mem hnil)
      exact hlast (glyphOf_eq_zero (lt_of_lt_of_le hlt radix.high) hhead)
    · rw [reverse_reverse, digitsValue_map_glyphOf radix.high hdigits, ofDigits_digits]

/-! ## The text -/

/-- The digits in front of the point and behind it are read back. -/
lemma parts_of_text {integer fraction : List Char} (hinteger : '.' ∉ integer) :
    integerPart (integer ++ if fraction = [] then [] else '.' :: fraction) = integer ∧
      fractionPart (integer ++ if fraction = [] then [] else '.' :: fraction) = fraction := by
  have hall : ∀ glyph ∈ integer, (glyph != '.') = true := by
    intro glyph hmem
    rw [bne_iff_ne]
    intro heq
    rw [heq] at hmem
    exact hinteger hmem
  unfold integerPart fractionPart
  rw [takeWhile_append_of_pos hall, dropWhile_append_of_pos hall]
  split
  · rename_i hnil
    rw [hnil]
    exact ⟨append_nil _, rfl⟩
  · exact ⟨append_nil _, rfl⟩

/-- A budget outgrows the denominator within as many digits as it has binary places. -/
lemma le_mul_pow_of_zpow_le {budget denominator places base room : ℕ} (hdenominator : 0 < denominator)
    (hbase : 2 ≤ base) (hroom : places ≤ room)
    (h : (2 : ℚ) ^ (-(places : ℤ)) ≤ budget / denominator) :
    denominator ≤ budget * base ^ room := by
  have hden : (0 : ℚ) < denominator := by exact_mod_cast hdenominator
  have hpower : (0 : ℚ) < 2 ^ places := by positivity
  rw [le_div_iff₀ hden, zpow_neg, zpow_natCast, inv_mul_le_iff₀ hpower, mul_comm] at h
  have hle : denominator ≤ budget * 2 ^ places := by exact_mod_cast h
  apply hle.trans
  apply Nat.mul_le_mul_left
  exact (Nat.pow_le_pow_right two_pos hroom).trans (Nat.pow_le_pow_left hbase _)

/-- The digits of a double: an integer and a fraction without trailing zeros that are nearer to it
than half the gap on their side. -/
lemma radixDigits_spec (radix : Radix) (hsign : 0 ≤ magnitude.value) :
    ∃ integer fraction, radixDigits radix (radixParts magnitude) = some (integer, fraction) ∧
      Glyphs radix.base fraction ∧ fraction.length ≤ 1200 ∧ fraction.getLast? ≠ some '0' ∧
      integer.value ≤ (radixParts magnitude).integerValue.value + 1 ∧
      binary64.round (integer.value + fractionValue radix.base fraction.reverse) =
        magnitude.value := by
  obtain ⟨hvalue, hlt⟩ := radixParts_value hsign
  have hradix := radix.pos
  unfold radixDigits
  split
  · rename_i hzero
    rw [isZero_iff.mp hzero, cast_zero, zero_div, add_zero] at hvalue
    refine ⟨_, _, rfl, glyphs_nil, zero_le _, by decide, le_succ _, ?_⟩
    rw [hvalue, reverse_nil, fractionValue_nil, add_zero]
    exact round_of_representable magnitude.representable
  · rename_i hne
    have hfraction : (radixParts magnitude).fraction.value ≠ 0 :=
      fun hcontra => hne (isZero_iff.mpr hcontra)
    have hdenominator : (0 : ℚ) < (radixParts magnitude).denominator.value := by
      exact_mod_cast zero_lt_of_lt hlt
    have hpositive : 0 < magnitude.value := by
      rw [← hvalue]
      positivity
    obtain ⟨hupper, hlower⟩ := radixParts_budgets hpositive hfraction
    have hupperPos : 0 < (radixParts magnitude).upperBudget.value := by
      have hhalf : (0 : ℚ) < 2 ^ binary64.lastExponent magnitude.value / 2 :=
        half_pos (two_zpow_pos _)
      rw [← hupper, div_pos_iff_of_pos_right hdenominator] at hhalf
      exact_mod_cast hhalf
    -- half the least gap outgrows the denominator within 1075 digits
    have hroom : (radixParts magnitude).denominator.value ≤
        (radixParts magnitude).lowerBudget.value * radix.base ^ digitRoom := by
      have hgap : (2 : ℚ) ^ (-((1075 : ℕ) : ℤ)) ≤
          (radixParts magnitude).lowerBudget.value / (radixParts magnitude).denominator.value := by
        rw [hlower, le_div_iff₀ two_pos, ← zpow_add_one₀ two_ne_zero]
        exact zpow_le_zpow_right₀ one_le_two (least_le_exponentBelow binary64 magnitude.value)
      exact le_mul_pow_of_zpow_le (zero_lt_of_lt hlt) radix.low (by decide) hgap
    obtain ⟨result, carry, hrun, hglyphs, hlength, hlow, hhigh⟩ :=
      fractionDigits_near radix.low radix.high (by decide) hlt hupperPos hroom glyphs_nil
    rw [length_nil, zero_add] at hlength
    rw [fractionValue_nil, length_nil, pow_zero, div_one, div_one, zero_add, hlower] at hlow
    rw [fractionValue_nil, length_nil, pow_zero, div_one, div_one, zero_add, hupper] at hhigh
    have hstripped := head?_dropWhile_not (· == '0') result
    have hinteger : ((if carry then (radixParts magnitude).integerValue.add (fromU64 1)
        else (radixParts magnitude).integerValue).value : ℚ) =
          (radixParts magnitude).integerValue.value + carry.toNat := by
      cases carry with
      | false => exact (add_zero _).symm
      | true =>
        show (((radixParts magnitude).integerValue.add (fromU64 1)).value : ℚ) = _
        rw [value_add, value_fromU64]
        push_cast
        rfl
    refine ⟨if carry then (radixParts magnitude).integerValue.add (fromU64 1)
      else (radixParts magnitude).integerValue, (result.dropWhile (· == '0')).reverse, ?_, ?_, ?_,
      ?_, ?_, ?_⟩
    · rw [hrun]
      rfl
    · intro glyph hmem
      exact hglyphs glyph ((dropWhile_sublist _).subset (mem_reverse.mp hmem))
    · rw [length_reverse]
      exact (dropWhile_sublist _).length_le.trans hlength
    · rw [getLast?_reverse]
      intro hhead
      rw [hhead] at hstripped
      exact absurd hstripped (by decide)
    · have hcarry : carry.toNat ≤ 1 := Bool.toNat_le carry
      have hnat : (if carry then (radixParts magnitude).integerValue.add (fromU64 1)
          else (radixParts magnitude).integerValue).value =
            (radixParts magnitude).integerValue.value + carry.toNat := by exact_mod_cast hinteger
      omega
    · rw [reverse_reverse, fractionValue_dropWhile hradix, hinteger]
      apply round_of_between magnitude.representable hpositive
      · linarith
      · linarith

/-- A numeral's digits and value, from the digits of its parts. -/
lemma numeral_of_parts {integer fraction : List Char} (hradix : radix ≤ 36)
    (hinteger : Glyphs radix integer) (hfraction : Glyphs radix fraction) (hne : integer ≠ [])
    (hleading : integer.head? = some '0' → integer = ['0'])
    (htrailing : fraction.getLast? ≠ some '0') :
    Numeral radix (integer ++ if fraction = [] then [] else '.' :: fraction) ∧
      numeralValue radix (integer ++ if fraction = [] then [] else '.' :: fraction) =
        digitsValue radix integer.reverse + fractionValue radix fraction.reverse := by
  obtain ⟨hfront, hback⟩ := @parts_of_text integer fraction (hinteger.point_notMem hradix)
  constructor
  · constructor
    · rw [hfront, hback]
      exact forall_mem_append.mpr ⟨hinteger, hfraction⟩
    · rwa [hfront]
    · rwa [hfront]
    · rwa [hback]
    · rw [hback]
      intro hpoint hnil
      rw [if_pos hnil, append_nil] at hpoint
      exact hinteger.point_notMem hradix hpoint
  · unfold numeralValue fractionValue
    rw [hfront, hback, length_reverse]

/-- An integer below a power of two and a carry fit into as many digits and one. -/
lemma integer_room {n places base : ℕ} {q : ℚ} (hbase : 2 ≤ base) (hn : (n : ℚ) ≤ q)
    (hq : q < 2 ^ places) : n + 1 < base ^ (places + 1) := by
  have hlt : n < 2 ^ places := by exact_mod_cast lt_of_le_of_lt hn hq
  have hstep : 2 ^ places < 2 ^ (places + 1) := Nat.pow_lt_pow_right one_lt_two (lt_succ_self _)
  exact (succ_le_of_lt hlt).trans_lt (hstep.trans_le (Nat.pow_le_pow_left hbase _))

/-- The text of a double is a numeral without superfluous zeros, and rounding its value to the
nearest double, ties to even, gives the double back. No buffer is too small; those who ask for a
text have room for 2399 units at least. -/
theorem numberRadixText_roundTrips (hsign : 0 ≤ magnitude.value) (radix : Radix) {capacity : ℕ}
    (hcapacity : 2399 ≤ capacity) :
    ∃ text, numberRadixText magnitude radix capacity = some text ∧ text.length < capacity ∧
      Numeral radix.base text ∧
      Number.ofRat (numeralValue radix.base text) = .finite magnitude := by
  obtain ⟨integer, fraction, hdigits, hfraction, hlength, htrailing, hinteger, hround⟩ :=
    radixDigits_spec radix hsign
  obtain ⟨hvalue, hlt⟩ := radixParts_value hsign
  have hbound := magnitude.bounded
  rw [abs_of_nonneg hsign] at hbound
  have hle : ((radixParts magnitude).integerValue.value : ℚ) ≤ magnitude.value := by
    rw [← hvalue]
    exact le_add_of_nonneg_right (div_nonneg (cast_nonneg _) (cast_nonneg _))
  have hroom : integer.value < radix.base ^ (1024 + 1) :=
    hinteger.trans_lt (integer_room radix.low hle hbound)
  obtain ⟨digits, hrun, hglyphs, hcount, hne, hleading, hdigitsValue⟩ :=
    integerDigits_spec radix (by decide) (by decide) hroom
  obtain ⟨hnumeral, hnumeralValue⟩ :=
    numeral_of_parts radix.high hglyphs hfraction hne hleading htrailing
  have htextLength : (digits ++ if fraction = [] then [] else '.' :: fraction).length <
      capacity := by
    rw [length_append]
    split
    · rw [length_nil]
      omega
    · rw [length_cons]
      omega
  refine ⟨digits ++ if fraction = [] then [] else '.' :: fraction, ?_, htextLength, hnumeral, ?_⟩
  · unfold numberRadixText
    rw [hdigits]
    show (integerDigits radix integer >>= fun digits => if capacity ≤
      (digits ++ if fraction = [] then [] else '.' :: fraction).length then none
      else some (digits ++ if fraction = [] then [] else '.' :: fraction)) = _
    rw [hrun]
    exact if_neg (not_le.mpr htextLength)
  · rw [hnumeralValue, hdigitsValue]
    unfold Number.ofRat
    rw [dif_pos (by rw [hround]; exact magnitude.bounded)]
    congr 1
    exact Binary64.ext hround

/-- The number one half. -/
def half : Binary64 where
  value := 1 / 2
  representable := ⟨1, -1, by decide, by decide, by norm_num⟩
  bounded := by
    have hpower : (1 : ℚ) ≤ 2 ^ 1024 := one_le_pow₀ one_le_two
    rw [abs_of_pos one_half_pos]
    exact one_half_lt_one.trans_le hpower

/-- In an odd radix a half has no last digit. -/
theorem numberRadixText_half :
    ∃ text, numberRadixText half ⟨3, by decide, by decide⟩ 2399 = some text ∧ text.length < 2399 ∧
      Numeral 3 text ∧ Number.ofRat (numeralValue 3 text) = .finite half :=
  numberRadixText_roundTrips one_half_pos.le ⟨3, by decide, by decide⟩ (le_refl 2399)

end Oseo.NumberFormatting
