import Oseo.Library.Rounding
import Oseo.NumberFormatting.NumberBignum

/-!
# Texts of numbers

* The text of a finite double in a radix from 2 to 36. The integer part is exact. The digits of the
  fraction stop as soon as they name the double rather than a neighbour: every quantity is an
  integer over one power of two, the rest of the fraction is compared with half the gap to the
  double below, and what is missing after raising the last digit with half the gap to the double
  above.
* `toFixed`, `toExponential` and `toPrecision`: the double is a ratio of two bignums, which is scaled
  by a power of ten, divided and rounded half up. The decimal exponent starts from a floating-point
  estimate of the logarithm and is corrected by comparing bignums.

The functions of the C library stand as parameters: the estimate, the shortest digits that are read
back, and the text of a number.
-/

namespace Oseo.NumberFormatting

section

open Library NumberBignum

/-- A radix that `toString` accepts. -/
structure Radix where
  base : ℕ
  low : 2 ≤ base
  high : base ≤ 36

lemma Radix.pos (radix : Radix) : 0 < radix.base := Nat.lt_of_lt_of_le two_pos radix.low

/-! ## Mantissa and exponent -/

/-- The trailing zero bits of a mantissa move into the exponent; a mantissa has 64 bits. -/
def stripZeroBits : ℕ → ℕ → ℤ → ℕ × ℤ
  | 0, mantissa, exponent => (mantissa, exponent)
  | bits + 1, mantissa, exponent =>
    if mantissa ≠ 0 ∧ mantissa % 2 = 0 then stripZeroBits bits (mantissa / 2) (exponent + 1)
    else (mantissa, exponent)

/-- number_decompose, for finite doubles that are not negative: an odd mantissa, and its binary
exponent. frexp leaves a fraction that is a half at least, of which ldexp makes 53 bits. -/
def numberDecompose : Number → ℕ × ℤ
  | .finite x =>
    if x.value = 0 then (0, 0)
    else
      let rawExponent := Int.log 2 x.value + 1
      stripZeroBits 64 ⌊x.value * 2 ^ (53 - rawExponent)⌋₊ (rawExponent - 53)
  | _ => (0, 0)

/-! ## Glyphs -/

def numberRadixDigitGlyphs : List Char := "0123456789abcdefghijklmnopqrstuvwxyz".toList

def glyphOf (digit : ℕ) : Char := numberRadixDigitGlyphs.getD digit '0'

/-- The digit a glyph stands for. -/
def glyphValue (glyph : Char) : ℕ :=
  if glyph ≤ '9' then glyph.toNat - '0'.toNat else glyph.toNat - 'a'.toNat + 10

/-! ## The parts of a double -/

/-- The integer part, and the quantities of the digit loop over one denominator. -/
structure RadixParts where
  integerValue : NumberBignum
  fraction : NumberBignum
  upperBudget : NumberBignum
  lowerBudget : NumberBignum
  denominator : NumberBignum

/-- The gap to the next double above; the one below at the largest double. -/
def upperGap (magnitude : Binary64) : Number :=
  let upper := magnitude.nextUp.sub (.finite magnitude)
  if !upper.isFinite || !upper.positive then (Number.finite magnitude).sub magnitude.nextDown
  else upper

/-- The gap to the next double below; the one above at zero. -/
def lowerGap (magnitude : Binary64) : Number :=
  let lower := (Number.finite magnitude).sub magnitude.nextDown
  if !lower.positive then upperGap magnitude else lower

/-- The size of the buffers for the digits on either side of the point. -/
def digitRoom : ℕ := 1200

/-- A bignum doubled a number of times. -/
def doubled (bignum : NumberBignum) (count : ℕ) : NumberBignum :=
  (fun bignum => bignum.multiplySmall 2)^[count] bignum

/-- The bits of the shared denominator: enough for the fraction and for both budgets. -/
def sharedBits (exponent upperExponent lowerExponent : ℤ) : ℕ :=
  max (max (-exponent).toNat (-upperExponent).toNat) (-lowerExponent).toNat

/-- The parts of a number, from what it and the gaps around it decompose into. The budgets are half
the gaps. -/
def scaledParts (number upper lower : ℕ × ℤ) : RadixParts :=
  let upperExponent := upper.2 - 1
  let lowerExponent := lower.2 - 1
  let fractionBits := (-number.2).toNat
  let bits := sharedBits number.2 upperExponent lowerExponent
  let division := (fromU64 number.1).divmod (doubled (fromU64 1) fractionBits)
  { integerValue := if 0 ≤ number.2 then doubled (fromU64 number.1) number.2.toNat else division.1
    fraction := if 0 ≤ number.2 then fromU64 0 else doubled division.2 (bits - fractionBits)
    upperBudget := doubled (fromU64 upper.1) (bits + upperExponent).toNat
    lowerBudget := doubled (fromU64 lower.1) (bits + lowerExponent).toNat
    denominator := doubled (fromU64 1) bits }

def radixParts (magnitude : Binary64) : RadixParts :=
  scaledParts (numberDecompose (.finite magnitude)) (numberDecompose (upperGap magnitude))
    (numberDecompose (lowerGap magnitude))

/-! ## Digits -/

/-- The last digit raised by one, carrying through digits that overflow, which are dropped. The
digits come with the last one first, and with the carry out of the first one. -/
def raiseDigits (radix : ℕ) : List Char → List Char × Bool
  | [] => ([], true)
  | glyph :: digits =>
    if glyphValue glyph + 1 < radix then (glyphOf (glyphValue glyph + 1) :: digits, false)
    else raiseDigits radix digits

/-- The digits of the fraction, the last one first, and the carry into the integer. There is room
for a number of further digits. -/
def fractionDigits (radix : ℕ) (denominator : NumberBignum) :
    ℕ → NumberBignum → NumberBignum → NumberBignum → List Char → Option (List Char × Bool)
  | 0, _, _, _, _ => none
  | room + 1, fraction, upperBudget, lowerBudget, digits =>
    let fraction := fraction.multiplySmall radix
    let upperBudget := upperBudget.multiplySmall radix
    let lowerBudget := lowerBudget.multiplySmall radix
    let digit := denominator.chosenDigit fraction (radix - 1)
    let fraction := denominator.reduce fraction digit
    let digits := glyphOf digit :: digits
    let againstHalf := (fraction.multiplySmall 2).compare denominator
    if (againstHalf = .gt ∨ (againstHalf = .eq ∧ digit % 2 ≠ 0)) ∧
        (fraction.add upperBudget).compare denominator = .gt then
      some (raiseDigits radix digits)
    else if fraction.compare lowerBudget = .lt then some (digits, false)
    else fractionDigits radix denominator room fraction upperBudget lowerBudget digits

/-- The digits of a positive integer, the first one first, in front of others. -/
def positiveDigits (radix : Radix) : ℕ → NumberBignum → List Char → Option (List Char)
  | 0, integer, digits => if integer.isZero then some digits else none
  | room + 1, integer, digits =>
    if integer.isZero then some digits
    else
      let division := integer.divideSmall radix.base radix.pos
      positiveDigits radix room division.1 (glyphOf division.2 :: digits)

def integerDigits (radix : Radix) (integer : NumberBignum) : Option (List Char) :=
  if integer.isZero then some ['0'] else positiveDigits radix digitRoom integer []

/-- The fraction without its trailing zeros, and the integer it carries into. -/
def radixDigits (radix : Radix) (parts : RadixParts) : Option (NumberBignum × List Char) :=
  if parts.fraction.isZero then some (parts.integerValue, [])
  else do
    let (digits, carry) ← fractionDigits radix.base parts.denominator digitRoom parts.fraction
      parts.upperBudget parts.lowerBudget []
    let integer := if carry then parts.integerValue.add (fromU64 1) else parts.integerValue
    return (integer, (digits.dropWhile (· == '0')).reverse)

/-- number_radix_text: nothing where a buffer is too small. -/
def numberRadixText (magnitude : Binary64) (radix : Radix) (capacity : ℕ) : Option (List Char) := do
  let (integer, fraction) ← radixDigits radix (radixParts magnitude)
  let digits ← integerDigits radix integer
  let text := digits ++ (if fraction = [] then [] else '.' :: fraction)
  if capacity ≤ text.length then none else return text

/-! ## Numerals -/

/-- The digits in front of the point. -/
def integerPart (text : List Char) : List Char := text.takeWhile (· != '.')

/-- The digits behind the point. -/
def fractionPart (text : List Char) : List Char := (text.dropWhile (· != '.')).tail

/-- The number of digits that come with the last one first. -/
def digitsValue (radix : ℕ) (digits : List Char) : ℕ := Nat.ofDigits radix (digits.map glyphValue)

/-- The exact value of a numeral. -/
def numeralValue (radix : ℕ) (text : List Char) : ℚ :=
  digitsValue radix (integerPart text).reverse +
    digitsValue radix (fractionPart text).reverse / radix ^ (fractionPart text).length

/-- A numeral: digits of the radix, no leading zeros and no trailing ones, and a point only in
front of digits. -/
structure Numeral (radix : ℕ) (text : List Char) : Prop where
  digits : ∀ glyph ∈ integerPart text ++ fractionPart text,
    ∃ digit < radix, glyph = glyphOf digit
  integer : integerPart text ≠ []
  leading : (integerPart text).head? = some '0' → integerPart text = ['0']
  trailing : (fractionPart text).getLast? ≠ some '0'
  point : '.' ∈ text → fractionPart text ≠ []

/-! ## Decimal formats -/

/-! ## Scaling and rounding -/

/-- A bignum times a power of ten. -/
def tenfold (bignum : NumberBignum) (count : ℕ) : NumberBignum :=
  (fun bignum => bignum.multiplySmall 10)^[count] bignum

/-- number_scaled_ratio: numerator and denominator of the value times a power of ten. -/
def numberScaledRatio (value : Binary64) (decimalShift : ℤ) : NumberBignum × NumberBignum :=
  let number := numberDecompose (.finite value)
  (tenfold (doubled (fromU64 number.1) number.2.toNat) decimalShift.toNat,
    tenfold (doubled (fromU64 1) (-number.2).toNat) (-decimalShift).toNat)

/-- number_round_scaled: the value times a power of ten, rounded half up. -/
def numberRoundScaled (value : Binary64) (decimalShift : ℤ) : NumberBignum :=
  let ratio := numberScaledRatio value decimalShift
  let division := ratio.1.divmod ratio.2
  if (division.2.multiplySmall 2).compare ratio.2 ≠ .lt then division.1.add (fromU64 1)
  else division.1

/-! ## The decimal exponent -/

def numberBignumPow10 (exponent : ℕ) : NumberBignum := tenfold (fromU64 1) exponent

/-- The ratio and the two powers of ten around the exponent, multiplied out: the lower bound, the
upper bound, and what is to lie between them. -/
def exponentBounds (numerator denominator : NumberBignum) (e : ℤ) :
    NumberBignum × NumberBignum × NumberBignum :=
  if 0 ≤ e then
    ((numberBignumPow10 e.toNat).multiplyBignum denominator,
      (numberBignumPow10 (e + 1).toNat).multiplyBignum denominator, numerator)
  else
    (denominator, denominator.multiplySmall 10,
      (numberBignumPow10 (-e).toNat).multiplyBignum numerator)

/-- An exponent is corrected by one in each attempt, as long as it is wrong. -/
def correctExponent (numerator denominator : NumberBignum) : ℕ → ℤ → ℤ
  | 0, e => e
  | attempts + 1, e =>
    let bounds := exponentBounds numerator denominator e
    if bounds.2.2.compare bounds.1 = .lt then
      correctExponent numerator denominator attempts (e - 1)
    else if bounds.2.2.compare bounds.2.1 ≠ .lt then
      correctExponent numerator denominator attempts (e + 1)
    else e

/-- number_exact_decimal_exponent, from an estimate of the exponent. -/
def numberExactDecimalExponent (estimate : Binary64 → ℤ) (magnitude : Binary64) : ℤ :=
  let ratio := numberScaledRatio magnitude 0
  correctExponent ratio.1 ratio.2 64 (estimate magnitude)

/-- number_significant_digits: the digits and the exponent of the first one. Rounding may carry
into one digit more, which only nines do. -/
def numberSignificantDigits (estimate : Binary64 → ℤ) (magnitude : Binary64) (p : ℕ) :
    Option (List Char × ℤ) :=
  let e := numberExactDecimalExponent estimate magnitude
  let digits := (numberRoundScaled magnitude (p - 1 - e)).digitString
  if digits.length = p + 1 then some ('1' :: List.replicate (p - 1) '0', e + 1)
  else if digits.length = p then some (digits, e)
  else none

/-! ## Texts -/

/-- number_format_exponential_digits: nothing where the capacity is too small. -/
def numberFormatExponentialDigits (digits : List Char) (e : ℤ) (capacity : ℕ) :
    Option (List Char) :=
  let significand := digits.take 1 ++ if 1 < digits.length then '.' :: digits.tail else []
  let text := significand ++ 'e' :: (if e < 0 then '-' else '+') :: Nat.toDigits 10 e.natAbs
  if capacity < text.length then none else some text

/-- number_format_exponential: the digits asked for, or as few as are read back. -/
def numberFormatExponential (estimate : Binary64 → ℤ) (shortest : Binary64 → List Char × ℤ)
    (magnitude : Binary64) (fractionDigits : Option ℕ) (capacity : ℕ) : Option (List Char) :=
  if magnitude.value = 0 then
    numberFormatExponentialDigits (List.replicate (fractionDigits.getD 0 + 1) '0') 0 capacity
  else
    match fractionDigits with
    | some f => do
      let (digits, e) ← numberSignificantDigits estimate magnitude (f + 1)
      numberFormatExponentialDigits digits e capacity
    | none =>
      let (digits, exponent) := shortest magnitude
      numberFormatExponentialDigits digits (exponent - 1) capacity

/-! ## The methods -/

/-- What a formatting method throws, and how it fails. -/
inductive FormatError where
  | range (message : String)
  | failure (code message : String)

def formattingFailed : FormatError := .failure "OSEO2001" "Number formatting failed."

/-- A text, or that it did not come about. -/
def orFailed : Option (List Char) → Except FormatError (List Char)
  | some text => .ok text
  | none => .error formattingFailed

/-- ToIntegerOrInfinity of an argument that is a number already. -/
def numberIntegerOrInfinity : Number → Number
  | .nan => .ofInt 0
  | .infinite negative => .infinite negative
  | .finite x => if x.value = 0 then .ofInt 0 else (Number.finite x).trunc

/-- The digit count, where it is within bounds. -/
def digitCount (low high : ℕ) : Number → Option ℕ
  | .finite x => if (low : ℚ) ≤ x.value ∧ x.value ≤ high then some ⌊x.value⌋₊ else none
  | _ => none

/-- The magnitude of a double. -/
def magnitudeOf (x : Binary64) : Binary64 where
  value := |x.value|
  representable := by
    rcases abs_choice x.value with habs | habs
    · rw [habs]
      exact x.representable
    · rw [habs]
      exact x.representable.neg
  bounded := by
    rw [abs_abs]
    exact x.bounded

/-- The minus sign of a number below zero. -/
def signText (x : Binary64) : List Char := if x.value < 0 then ['-'] else []

def infinityText (negative : Bool) : List Char :=
  if negative then "-Infinity".toList else "Infinity".toList

/-- The digits with the point `f` places from the end, and a zero in front of the point at least. -/
def pointedDigits (digits : List Char) (f : ℕ) : List Char :=
  let pad := if 0 < f ∧ digits.length ≤ f then f + 1 - digits.length else 0
  let m := List.replicate pad '0' ++ digits
  if f = 0 then m else m.take (m.length - f) ++ '.' :: m.drop (m.length - f)

/-- Number.prototype.toFixed. -/
def numberToFixed (numberText : Number → List Char) (x : Number) (digits : Option Number) :
    Except FormatError (List Char) :=
  match digitCount 0 100 (numberIntegerOrInfinity (digits.getD (.ofInt 0))) with
  | none =>
    .error (.range "Number.prototype.toFixed digit count must be within 0..100.")
  | some f =>
    match x with
    | .nan => .ok "NaN".toList
    | .infinite negative =>
      .ok ((if negative then ['-'] else []) ++ numberText (.infinite false))
    | .finite x =>
      if 10 ^ 21 ≤ (magnitudeOf x).value then
        .ok (signText x ++ numberText (.finite (magnitudeOf x)))
      else
        .ok (signText x ++ pointedDigits (numberRoundScaled (magnitudeOf x) f).digitString f)

/-- The fraction digits toExponential is asked for, none where it is to choose. -/
def exponentialDigitCount : Option Number → Except FormatError (Option ℕ)
  | none => .ok none
  | some digits =>
    match digitCount 0 100 (numberIntegerOrInfinity digits) with
    | none => .error (.range "Number.prototype.toExponential digit count must be within 0..100.")
    | some f => .ok (some f)

/-- Number.prototype.toExponential. -/
def numberToExponential (estimate : Binary64 → ℤ) (shortest : Binary64 → List Char × ℤ)
    (x : Number) (digits : Option Number) : Except FormatError (List Char) :=
  match x with
  | .nan => .ok "NaN".toList
  | .infinite negative => .ok (infinityText negative)
  | .finite x => do
    let f ← exponentialDigitCount digits
    let text ← orFailed (numberFormatExponential estimate shortest (magnitudeOf x) f
      (160 - (signText x).length))
    return signText x ++ text

/-- The digits with the point behind the first `decimalPosition` of them. -/
def positionedDigits (digits : List Char) (p : ℕ) (decimalPosition : ℤ) : List Char :=
  if decimalPosition ≤ 0 then
    '0' :: '.' :: (List.replicate (-decimalPosition).toNat '0' ++ digits)
  else
    digits.take decimalPosition.toNat ++
      if decimalPosition < p then '.' :: digits.drop decimalPosition.toNat else []

/-- The digits of toPrecision and the exponent of the first one. -/
def precisionDigits (estimate : Binary64 → ℤ) (magnitude : Binary64) (p : ℕ) :
    Except FormatError (List Char × ℤ) :=
  if magnitude.value = 0 then .ok (List.replicate p '0', 0)
  else
    match numberSignificantDigits estimate magnitude p with
    | some found => .ok found
    | none => .error formattingFailed

/-- The digits and the exponent laid out. -/
def precisionLayout (digits : List Char) (p : ℕ) (e : ℤ) (capacity : ℕ) :
    Except FormatError (List Char) :=
  if e < -6 ∨ (p : ℤ) ≤ e then orFailed (numberFormatExponentialDigits digits e capacity)
  else .ok (positionedDigits digits p (e + 1))

/-- Number.prototype.toPrecision. -/
def numberToPrecision (numberText : Number → List Char) (estimate : Binary64 → ℤ) (x : Number)
    (precision : Option Number) : Except FormatError (List Char) :=
  match precision with
  | none => .ok (numberText x)
  | some precision =>
    match x with
    | .nan => .ok "NaN".toList
    | .infinite negative => .ok (infinityText negative)
    | .finite x =>
      match digitCount 1 100 (numberIntegerOrInfinity precision) with
      | none => .error (.range
          "Number.prototype.toPrecision precision must be within 1..100.")
      | some p => do
        let (digits, e) ← precisionDigits estimate (magnitudeOf x) p
        let text ← precisionLayout digits p e (256 - (signText x).length)
        return signText x ++ text

end

/-! ## Mantissas and exponents

What `number_decompose` returns is the number with an odd mantissa, so that a power of two has the
mantissa one. From that, the parts of a double are an integer and a fraction that add up to it,
and the two budgets are half of the gaps to its neighbours.
-/

open Int
open Library Library.FloatFormat NumberBignum

variable {x : Number} {magnitude : Binary64} {q : ℚ} {e : ℤ}

/-! ## Decomposition -/

/-- Zero bits move into the exponent until the mantissa is odd. -/
lemma stripZeroBits_eq {bits mantissa : ℕ} (exponent : ℤ) (h : mantissa < 2 ^ bits) :
    ((stripZeroBits bits mantissa exponent).1 : ℚ) * 2 ^ (stripZeroBits bits mantissa exponent).2 =
        mantissa * 2 ^ exponent ∧
      (mantissa ≠ 0 → (stripZeroBits bits mantissa exponent).1 % 2 = 1) := by
  induction bits generalizing mantissa exponent with
  | zero =>
    have hzero : mantissa = 0 := by omega
    exact ⟨rfl, fun hne => absurd hzero hne⟩
  | succ bits ih =>
    unfold stripZeroBits
    split
    · rename_i heven
      have hhalf : mantissa = mantissa / 2 * 2 := by omega
      obtain ⟨hvalue, hodd⟩ := @ih (mantissa / 2) (exponent + 1) (by rw [pow_succ] at h; omega)
      refine ⟨?_, fun hne => hodd (by omega)⟩
      rw [hvalue, zpow_add_one₀ two_ne_zero]
      have hcast : (mantissa : ℚ) = (mantissa / 2 : ℕ) * 2 := by exact_mod_cast hhalf
      rw [hcast]
      ring
    · rename_i hodd
      exact ⟨rfl, fun hne => by omega⟩

/-- frexp and ldexp leave an integer of 53 bits. -/
lemma scaled_mantissa (hrep : binary64.Representable q) (hsign : 0 < q) :
    (⌊q * 2 ^ (53 - (Int.log 2 q + 1))⌋₊ : ℚ) * 2 ^ (Int.log 2 q + 1 - 53) = q ∧
      ⌊q * 2 ^ (53 - (Int.log 2 q + 1))⌋₊ < 2 ^ 53 ∧
      ⌊q * 2 ^ (53 - (Int.log 2 q + 1))⌋₊ ≠ 0 := by
  have hplace : log 2 q + 1 - 53 ≤ binary64.lastExponent q := by
    unfold lastExponent
    rw [if_neg hsign.ne', abs_of_pos hsign]
    exact le_max_left _ _
  obtain ⟨n, hn⟩ := hrep.multipleOf_lastExponent.of_le hplace
  have hpos := two_zpow_pos (log 2 q + 1 - 53)
  have hscaled : q * 2 ^ (53 - (log 2 q + 1)) = n := by
    nth_rewrite 1 [hn]
    rw [mul_assoc, ← zpow_add₀ two_ne_zero, sub_add_sub_cancel, sub_self, zpow_zero, mul_one]
  have hn_pos : 0 < n := by
    rw [hn] at hsign
    exact_mod_cast pos_of_mul_pos_left hsign hpos.le
  lift n to ℕ using hn_pos.le
  rw [cast_natCast] at hscaled hn
  rw [hscaled, Nat.floor_natCast]
  refine ⟨hn.symm, ?_, by omega⟩
  have hlog : q < 2 ^ (log 2 q + 1) := lt_zpow_succ_log_self one_lt_two q
  have hsplit : (2 : ℚ) ^ (log 2 q + 1) = 2 ^ 53 * 2 ^ (log 2 q + 1 - 53) := by
    rw [← zpow_natCast, ← zpow_add₀ two_ne_zero]
    congr 1
    ring
  rw [hsplit] at hlog
  nth_rewrite 1 [hn] at hlog
  exact_mod_cast lt_of_mul_lt_mul_right hlog hpos.le

lemma numberDecompose_finite (y : Binary64) :
    numberDecompose (.finite y) = if y.value = 0 then (0, 0)
      else stripZeroBits 64 ⌊y.value * 2 ^ (53 - (Int.log 2 y.value + 1))⌋₊
        (Int.log 2 y.value + 1 - 53) := rfl

/-- number_decompose: the number, with an odd mantissa unless it is zero. -/
lemma numberDecompose_eq (hx : x.Is q) (hsign : 0 ≤ q) :
    ((numberDecompose x).1 : ℚ) * 2 ^ (numberDecompose x).2 = q ∧
      (q ≠ 0 → (numberDecompose x).1 % 2 = 1) := by
  obtain ⟨y, rfl, rfl⟩ := hx
  rw [numberDecompose_finite]
  by_cases hzero : y.value = 0
  · rw [if_pos hzero]
    refine ⟨?_, fun hne => absurd hzero hne⟩
    rw [hzero, Nat.cast_zero, zero_mul]
  · rw [if_neg hzero]
    obtain ⟨hvalue, hbound, hmantissa⟩ :=
      scaled_mantissa y.representable (lt_of_le_of_ne hsign (Ne.symm hzero))
    obtain ⟨hstrip, hodd⟩ := stripZeroBits_eq (log 2 y.value + 1 - 53)
      (lt_trans hbound (by norm_num : 2 ^ 53 < 2 ^ 64))
    exact ⟨hstrip.trans hvalue, fun _ => hodd hmantissa⟩

/-- A power of two has the mantissa one. -/
lemma numberDecompose_two_zpow (hx : x.Is (2 ^ e)) : numberDecompose x = (1, e) := by
  have hpos := two_zpow_pos e
  obtain ⟨hvalue, hodd⟩ := numberDecompose_eq hx hpos.le
  have hmod := hodd hpos.ne'
  generalize numberDecompose x = decomposed at hvalue hmod
  obtain ⟨mantissa, exponent⟩ := decomposed
  change (mantissa : ℚ) * 2 ^ exponent = 2 ^ e at hvalue
  change mantissa % 2 = 1 at hmod
  have hexponent := two_zpow_pos exponent
  have hmantissa : (mantissa : ℚ) = 2 ^ (e - exponent) := by
    rw [zpow_sub₀ two_ne_zero, ← hvalue, mul_div_cancel_right₀ _ hexponent.ne']
  rcases lt_trichotomy e exponent with hlt | heq | hgt
  · -- a mantissa would be below one
    have hsmall : (2 : ℚ) ^ (e - exponent) < 1 := zpow_lt_one_of_neg₀ one_lt_two (by omega)
    rw [← hmantissa] at hsmall
    have hzero : mantissa < 1 := by exact_mod_cast hsmall
    omega
  · rw [heq, sub_self, zpow_zero] at hmantissa
    rw [heq, Nat.cast_eq_one.mp hmantissa]
  · -- a mantissa would be even
    obtain ⟨distance, hdistance⟩ := eq_ofNat_of_zero_le (by omega : 0 ≤ e - exponent)
    rw [hdistance, zpow_natCast] at hmantissa
    have hnat : mantissa = 2 ^ distance := by exact_mod_cast hmantissa
    obtain ⟨half, rfl⟩ : ∃ half, distance = half + 1 := ⟨distance - 1, by omega⟩
    rw [pow_succ] at hnat
    omega

/-! ## The parts -/

lemma value_doubled (bignum : NumberBignum) (count : ℕ) :
    (doubled bignum count).value = bignum.value * 2 ^ count :=
  value_iterate_multiplySmall bignum 2 count

lemma value_denominator (number upper lower : ℕ × ℤ) :
    (scaledParts number upper lower).denominator.value =
      2 ^ sharedBits number.2 (upper.2 - 1) (lower.2 - 1) := by
  show (doubled (fromU64 1) _).value = _
  rw [value_doubled, value_fromU64, one_mul]

/-- The integer and the fraction add up to the number. -/
lemma scaledParts_value (number upper lower : ℕ × ℤ) :
    ((scaledParts number upper lower).integerValue.value : ℚ) +
        (scaledParts number upper lower).fraction.value /
          (scaledParts number upper lower).denominator.value = number.1 * 2 ^ number.2 ∧
      (scaledParts number upper lower).fraction.value <
        (scaledParts number upper lower).denominator.value := by
  rw [value_denominator]
  obtain ⟨mantissa, exponent⟩ := number
  change ((if 0 ≤ exponent then doubled (fromU64 mantissa) exponent.toNat else _).value : ℚ) +
    (if 0 ≤ exponent then fromU64 0 else _).value / _ = mantissa * 2 ^ exponent ∧
    (if 0 ≤ exponent then fromU64 0 else _).value < _
  set bits := sharedBits exponent (upper.2 - 1) (lower.2 - 1) with hbits
  by_cases hexponent : 0 ≤ exponent
  · rw [if_pos hexponent, if_pos hexponent, value_doubled, value_fromU64, value_fromU64]
    refine ⟨?_, Nat.two_pow_pos bits⟩
    lift exponent to ℕ using hexponent
    rw [toNat_natCast, zpow_natCast, Nat.cast_zero, zero_div, add_zero]
    push_cast
    rfl
  · have hle : (-exponent).toNat ≤ bits := (le_max_left _ _).trans (le_max_left _ _)
    have hdenominator : (doubled (fromU64 1) (-exponent).toNat).value =
        2 ^ (-exponent).toNat := by rw [value_doubled, value_fromU64, one_mul]
    have hpos : 0 < (doubled (fromU64 1) (-exponent).toNat).value := by
      rw [hdenominator]
      exact Nat.two_pow_pos _
    obtain ⟨hquotient, hremainder⟩ := @value_divmod (fromU64 mantissa) _ hpos
    rw [if_neg hexponent, if_neg hexponent, value_doubled, hquotient, hremainder, hdenominator,
      value_fromU64]
    obtain ⟨places, hplaces⟩ := eq_ofNat_of_zero_le (by omega : 0 ≤ -exponent)
    have hexp : exponent = -(places : ℤ) := by omega
    rw [hexp, neg_neg, toNat_natCast] at hle ⊢
    have hsplit : 2 ^ bits = 2 ^ places * 2 ^ (bits - places) := by
      rw [← pow_add, Nat.add_sub_cancel' hle]
    constructor
    · have hdiv : (mantissa : ℚ) = 2 ^ places * (mantissa / 2 ^ places : ℕ) +
          (mantissa % 2 ^ places : ℕ) := by exact_mod_cast (Nat.div_add_mod _ _).symm
      rw [hsplit, zpow_neg, zpow_natCast]
      rw [hdiv]
      push_cast
      field_simp
    · rw [hsplit]
      exact Nat.mul_lt_mul_of_pos_right (Nat.mod_lt _ (Nat.two_pow_pos places))
        (Nat.two_pow_pos _)

/-- A budget is half of its gap. -/
lemma budget_eq {bits : ℕ} (h : (-(e - 1)).toNat ≤ bits) :
    ((doubled (fromU64 1) (bits + (e - 1)).toNat).value : ℚ) / (2 ^ bits : ℕ) = 2 ^ e / 2 := by
  obtain ⟨places, hplaces⟩ := eq_ofNat_of_zero_le (by omega : 0 ≤ (bits : ℤ) + (e - 1))
  have hsum : (2 : ℚ) ^ places = 2 ^ bits * 2 ^ (e - 1) := by
    rw [← zpow_natCast, ← hplaces, zpow_add₀ two_ne_zero, zpow_natCast]
  rw [value_doubled, value_fromU64, one_mul, hplaces, toNat_natCast]
  push_cast
  rw [hsum, mul_div_cancel_left₀ _ (by positivity), zpow_sub_one₀ two_ne_zero]
  rfl

lemma upperBudget_eq (number lower : ℕ × ℤ) :
    ((scaledParts number (1, e) lower).upperBudget.value : ℚ) /
      (scaledParts number (1, e) lower).denominator.value = 2 ^ e / 2 := by
  rw [value_denominator]
  exact budget_eq ((le_max_right _ _).trans (le_max_left _ _))

lemma lowerBudget_eq (number upper : ℕ × ℤ) :
    ((scaledParts number upper (1, e)).lowerBudget.value : ℚ) /
      (scaledParts number upper (1, e)).denominator.value = 2 ^ e / 2 := by
  rw [value_denominator]
  exact budget_eq (le_max_right _ _)

/-- The parts of a double: an integer, and a fraction over the denominator. -/
lemma radixParts_value (hsign : 0 ≤ magnitude.value) :
    ((radixParts magnitude).integerValue.value : ℚ) + (radixParts magnitude).fraction.value /
        (radixParts magnitude).denominator.value = magnitude.value ∧
      (radixParts magnitude).fraction.value < (radixParts magnitude).denominator.value := by
  obtain ⟨hvalue, -⟩ := numberDecompose_eq (Number.is_finite magnitude) hsign
  rw [← hvalue]
  exact scaledParts_value _ _ _

/-- The last place of a double with a fraction is behind the point. -/
lemma lastExponent_neg (hsign : 0 ≤ magnitude.value)
    (hfraction : (radixParts magnitude).fraction.value ≠ 0) :
    binary64.lastExponent magnitude.value < 0 := by
  obtain ⟨hvalue, hlt⟩ := radixParts_value hsign
  by_contra hcontra
  obtain ⟨n, hn⟩ := magnitude.representable.multipleOf_lastExponent.of_le (not_lt.mp hcontra)
  rw [zpow_zero, mul_one] at hn
  have hdenominator : (0 : ℚ) < (radixParts magnitude).denominator.value := by
    exact_mod_cast Nat.zero_lt_of_lt hlt
  -- the fraction would be an integer
  have hpos : 0 < ((radixParts magnitude).fraction.value : ℚ) /
      (radixParts magnitude).denominator.value :=
    div_pos (by exact_mod_cast Nat.pos_of_ne_zero hfraction) hdenominator
  have hone : ((radixParts magnitude).fraction.value : ℚ) /
      (radixParts magnitude).denominator.value < 1 := by
    rw [div_lt_one hdenominator]
    exact_mod_cast hlt
  have hlow : ((radixParts magnitude).integerValue.value : ℚ) < n := by linarith
  have hhigh : (n : ℚ) < (radixParts magnitude).integerValue.value + 1 := by linarith
  have hlow' : ((radixParts magnitude).integerValue.value : ℤ) < n := by exact_mod_cast hlow
  have hhigh' : n < (radixParts magnitude).integerValue.value + 1 := by exact_mod_cast hhigh
  omega

/-- The budgets of a double with a fraction are half the gaps to its neighbours. -/
lemma radixParts_budgets (hsign : 0 < magnitude.value)
    (hfraction : (radixParts magnitude).fraction.value ≠ 0) :
    ((radixParts magnitude).upperBudget.value : ℚ) / (radixParts magnitude).denominator.value =
        2 ^ binary64.lastExponent magnitude.value / 2 ∧
      ((radixParts magnitude).lowerBudget.value : ℚ) / (radixParts magnitude).denominator.value =
        2 ^ binary64.exponentBelow magnitude.value / 2 := by
  have hlast := lastExponent_neg hsign.le hfraction
  have hroom := binary64.abs_lt_of_lastExponent magnitude.value
  rw [abs_of_pos hsign] at hroom
  have habove : binary64.above magnitude.value < 2 ^ 1024 := by
    have hgap : (2 : ℚ) ^ binary64.lastExponent magnitude.value ≤ 2 ^ (0 : ℤ) :=
      zpow_le_zpow_right₀ one_le_two hlast.le
    have hsize : (2 : ℚ) ^ (binary64.lastExponent magnitude.value + binary64.digits) ≤
        2 ^ (53 : ℤ) := zpow_le_zpow_right₀ one_le_two (by show _ + 53 ≤ (53 : ℤ); omega)
    have hsum : binary64.above magnitude.value < 2 ^ (53 : ℤ) + 2 ^ (0 : ℤ) := by
      unfold FloatFormat.above
      linarith only [hgap, hsize, hroom]
    apply hsum.trans
    have hsmall : (2 : ℚ) ^ (53 : ℤ) + 2 ^ (0 : ℤ) < 2 ^ 54 := by norm_num
    exact hsmall.trans (pow_lt_pow_right₀ one_lt_two (by norm_num))
  have hupper := Binary64.nextUp_sub hsign.le habove
  have hlower := Binary64.sub_nextDown hsign
  have hupperGap : upperGap magnitude = magnitude.nextUp.sub (.finite magnitude) := by
    dsimp only [upperGap]
    rw [hupper.isFinite, hupper.positive, decide_eq_true (two_zpow_pos _)]
    rfl
  have hlowerGap : lowerGap magnitude = (Number.finite magnitude).sub magnitude.nextDown := by
    dsimp only [lowerGap]
    rw [hlower.positive, decide_eq_true (two_zpow_pos _)]
    rfl
  unfold radixParts
  rw [hupperGap, hlowerGap, numberDecompose_two_zpow hupper, numberDecompose_two_zpow hlower]
  exact ⟨upperBudget_eq _ _, lowerBudget_eq _ _⟩

end Oseo.NumberFormatting
