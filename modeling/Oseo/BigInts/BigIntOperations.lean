import Oseo.AgentBroadcast.BigIntIds
import Oseo.UriCoding.UriDecoding
import Oseo.Library.Rounding
import Oseo.Library.Limbs
import Mathlib.Data.List.DropRight

/-!
# BigInt operations

The primitives of `runtime_bigint.c`. A magnitude is the list of its limbs, the lowest first, and an
object of the heap is a sign with such a list; `OseoBigInt` holds what is true of those objects.

* limbs and words are numbers, with the remainder of their type wherever a sum is kept in one;
* a loop over the limbs from the lowest on goes through the lists, one from the top down returns
  from the end of the list; an array read past its length gives zero only where the source says so;
* allocation failures and the guards against an overflow of a size are left out.
-/

namespace Oseo.BigInts

section

open Oseo.AgentBroadcast (OseoBigInt bigintBits bigintBase normalizedLength)
open Oseo.Library (Number)
open Oseo.Library.Limbs (padded)
open Oseo.UriCoding (CodeUnit codeUnit between)

/-- What an operation ends with instead of a BigInt: a RangeError, or a diagnostic of the
runtime. -/
inductive BigIntError where
  | rangeError (message : String)
  | diagnostic (message : String)
deriving DecidableEq, Repr

/-- A BigInt of the heap. -/
structure BigIntObject where
  negative : Bool
  limbs : List ℕ
deriving DecidableEq, Repr

/-- What an operation returns. -/
abbrev BigIntResult := Except BigIntError BigIntObject

/-- The object of a BigInt. -/
def bigintObject (integer : OseoBigInt) : BigIntObject := ⟨integer.negative, integer.limbs⟩

def bigintMask : ℕ := bigintBase - 1

def bigintMaxBits : ℕ := 65536

def bigintMaxLimbs : ℕ := (bigintMaxBits + bigintBits - 1) / bigintBits

/-- The largest size. -/
def sizeMax : ℕ := 2 ^ 64 - 1

/-! ## Publishing -/

/-- The limbs that `normalized_length` leaves. -/
def normalizedLimbs (limbs : List ℕ) : List ℕ := limbs.take (normalizedLength limbs limbs.length)

/-- The bits of a limb, which has 32 at most. -/
def topBits : (rounds : ℕ) → (top : ℕ) → ℕ
  | 0, _ => 0
  | rounds + 1, top => if top ≠ 0 then topBits rounds (top >>> 1) + 1 else 0

/-- `magnitude_bits`. -/
def magnitudeBits (limbs : List ℕ) : ℕ :=
  let length := normalizedLength limbs limbs.length
  (length - 1) * bigintBits + topBits 32 (limbs.getD (length - 1) 0)

/-- `magnitude_bit`. -/
def magnitudeBit (limbs : List ℕ) (bit : ℕ) : Bool :=
  let index := bit / bigintBits
  if limbs.length ≤ index then false
  else (limbs.getD index 0 >>> (bit % bigintBits)) &&& 1 ≠ 0

/-- `bigint_limit_error`. -/
def bigintLimitError : BigIntError :=
  .rangeError "BigInt exceeds the 65,536-bit implementation limit."

/-- `publish_bigint`. -/
def publishBigint (negative : Bool) (limbs : List ℕ) : BigIntResult :=
  let limbs := normalizedLimbs limbs
  let negative := if limbs = [0] then false else negative
  if bigintMaxBits < magnitudeBits limbs then .error bigintLimitError else .ok ⟨negative, limbs⟩

/-- `small_bigint`. -/
def smallBigint (negative : Bool) (value : ℕ) : BigIntResult := publishBigint negative [value]

/-- `oseo_internal_bigint_is_zero`. -/
def BigIntObject.isZero (integer : BigIntObject) : Bool := integer.limbs = [0]

/-! ## Magnitudes -/

/-- A carry loop: each term of a word of so many bits, with the carry added, leaves its low bits as
a limb and its high ones as the next carry. -/
def carryLoop (word : ℕ) : (terms : List ℕ) → (carry : ℕ) → List ℕ × ℕ
  | [], carry => ([], carry)
  | term :: terms, carry =>
    let sum := (term + carry) % 2 ^ word
    let rest := carryLoop word terms (sum >>> bigintBits)
    ((sum &&& bigintMask) :: rest.1, rest.2)

/-- The comparison of the limbs below an index, the highest first. -/
def compareLoop (left right : List ℕ) : (index : ℕ) → ℤ
  | 0 => 0
  | index + 1 =>
    if left.getD index 0 < right.getD index 0 then -1
    else if right.getD index 0 < left.getD index 0 then 1
    else compareLoop left right index

/-- `compare_magnitude`. -/
def compareMagnitude (left right : List ℕ) : ℤ :=
  let leftLength := normalizedLength left left.length
  let rightLength := normalizedLength right right.length
  if leftLength < rightLength then -1
  else if rightLength < leftLength then 1
  else compareLoop left right leftLength

/-- `add_magnitude`. -/
def addMagnitude (left right : List ℕ) : List ℕ :=
  let length := max left.length right.length
  let (result, carry) := carryLoop 64
    (List.zipWith (· + ·) (padded left length) (padded right length)) 0
  normalizedLimbs (result ++ [carry % 2 ^ 32])

/-- The loop of `subtract_magnitude` and `subtract_in_place`. -/
def subtractLoop : (left right : List ℕ) → (borrow : ℕ) → List ℕ
  | [], _, _ => []
  | limb :: left, right, borrow =>
    let needed := right.headD 0 + borrow
    if limb < needed then (limb + bigintBase - needed) % 2 ^ 32 :: subtractLoop left right.tail 1
    else (limb - needed) % 2 ^ 32 :: subtractLoop left right.tail 0

/-- `subtract_magnitude`. -/
def subtractMagnitude (left right : List ℕ) : List ℕ := normalizedLimbs (subtractLoop left right 0)

/-- The rows of `multiply_magnitude`, with the result from the row's index on. -/
def multiplyRows : (left right result : List ℕ) → List ℕ
  | [], _, result => result
  | limb :: left, right, result =>
    let (row, carry) := carryLoop 64 (List.zipWith (fun other sum => limb * other + sum) right result) 0
    let updated := row ++ carry % 2 ^ 32 :: result.drop (right.length + 1)
    updated.headD 0 :: multiplyRows left right updated.tail

/-- `multiply_magnitude`. -/
def multiplyMagnitude (left right : List ℕ) : List ℕ :=
  normalizedLimbs (multiplyRows left right (List.replicate (left.length + right.length) 0))

/-- `shift_one_add`, with the bit as the first carry. -/
def shiftOneAdd : (limbs : List ℕ) → (carry : ℕ) → List ℕ
  | [], _ => []
  | limb :: limbs, carry =>
    (((limb <<< 1) &&& bigintMask) ||| carry) :: shiftOneAdd limbs (limb >>> (bigintBits - 1))

/-- The limbs of a division that is under way. -/
structure Division where
  quotient : List ℕ
  remainder : List ℕ

/-- One bit of `divide_magnitude`. -/
def divideStep (dividend divisor : List ℕ) (state : Division) (bit : ℕ) : Division :=
  let remainder := shiftOneAdd state.remainder (if magnitudeBit dividend bit then 1 else 0)
  if 0 ≤ compareMagnitude remainder divisor then
    ⟨state.quotient.modify (bit / bigintBits) (· ||| 1 <<< (bit % bigintBits)),
      subtractLoop remainder divisor 0⟩
  else ⟨state.quotient, remainder⟩

/-- The limbs `divide_magnitude` starts with. -/
def divideStart (dividend divisor : List ℕ) : Division :=
  ⟨List.replicate dividend.length 0, List.replicate (divisor.length + 1) 0⟩

/-- `divide_magnitude`. -/
def divideMagnitude (dividend divisor : List ℕ) : Division :=
  let bits := (List.range (magnitudeBits dividend)).reverse
  let state := bits.foldl (divideStep dividend divisor) (divideStart dividend divisor)
  ⟨normalizedLimbs state.quotient, normalizedLimbs state.remainder⟩

/-- `bigint_to_size`, of the magnitude. -/
def bigintToSize : (limbs : List ℕ) → Option ℕ
  | [] => some 0
  | limb :: limbs => (bigintToSize limbs).bind fun result =>
    if (sizeMax - limb) / bigintBase < result then none else some (result * bigintBase + limb)

/-- The loop of `left_shift_magnitude`. -/
def leftShiftLoop (bitShift : ℕ) : (limbs : List ℕ) → (carry : ℕ) → List ℕ × ℕ
  | [], carry => ([], carry)
  | limb :: limbs, carry =>
    let shifted := (limb <<< bitShift) ||| carry
    let rest := leftShiftLoop bitShift limbs (shifted >>> bigintBits)
    ((shifted &&& bigintMask) :: rest.1, rest.2)

/-- `left_shift_magnitude`. -/
def leftShiftMagnitude (limbs : List ℕ) (shift : ℕ) : List ℕ :=
  let (result, carry) := leftShiftLoop (shift % bigintBits) limbs 0
  normalizedLimbs (List.replicate (shift / bigintBits) 0 ++ result ++ [carry])

/-- The loop of `right_shift_magnitude`, from the top down. -/
def rightShiftLoop (bitShift : ℕ) : (limbs : List ℕ) → List ℕ × ℕ
  | [] => ([], 0)
  | limb :: limbs =>
    let (result, carry) := rightShiftLoop bitShift limbs
    if bitShift = 0 then (limb :: result, carry)
    else (((limb >>> bitShift) ||| (carry <<< (bigintBits - bitShift))) :: result,
      limb &&& ((1 <<< bitShift) - 1))

/-- `right_shift_magnitude`: the limbs, and whether a bit was lost. -/
def rightShiftMagnitude (integer : BigIntObject) (shift : ℕ) : List ℕ × Bool :=
  let limbShift := shift / bigintBits
  let discarded := (integer.limbs.take limbShift).any (· ≠ 0)
  if integer.limbs.length ≤ limbShift then ([0], discarded || !integer.isZero)
  else
    let (result, carry) := rightShiftLoop (shift % bigintBits) (integer.limbs.drop limbShift)
    (normalizedLimbs result, discarded || carry ≠ 0)

/-- A loop that adds a carry and ends when there is none left. -/
def incrementLoop : (limbs : List ℕ) → (carry : ℕ) → List ℕ × ℕ
  | [], carry => ([], carry)
  | limb :: limbs, carry =>
    if carry = 0 then (limb :: limbs, 0)
    else
      let sum := (limb + carry) % 2 ^ 32
      let rest := incrementLoop limbs (sum >>> bigintBits)
      ((sum &&& bigintMask) :: rest.1, rest.2)

/-- `increment_magnitude`. -/
def incrementMagnitude (limbs : List ℕ) : List ℕ :=
  let (result, carry) := incrementLoop limbs 1
  normalizedLimbs (result ++ [carry])

/-- The complement of a limb, a word of 32 bits, within the value bits. -/
def complementLimb (limb : ℕ) : ℕ := (2 ^ 32 - 1 - limb) &&& bigintMask

/-- The two's complement of limbs. -/
def complementLoop (limbs : List ℕ) : List ℕ := (carryLoop 32 (limbs.map complementLimb) 1).1

/-! ## Operators -/

/-- The operators of `oseo_internal_bigint_binary`. -/
inductive BigIntOperator where
  | add
  | subtract
  | multiply
  | divide
  | remainder
  | exponentiate
  | and
  | or
  | xor
  | shiftLeft
  | shiftRight
deriving DecidableEq, Repr

/-- What `bitwise_magnitude` does with a pair of limbs. -/
def BigIntOperator.combine (operator : BigIntOperator) (left right : ℕ) : ℕ :=
  if operator = .and then left &&& right
  else if operator = .or then left ||| right
  else left ^^^ right

/-- `bitwise_magnitude`: the limbs and the sign. -/
def bitwiseMagnitude (left right : BigIntObject) (operator : BigIntOperator) : List ℕ × Bool :=
  let width := max left.limbs.length right.limbs.length + 1
  let operand := fun integer : BigIntObject =>
    let bits := padded integer.limbs width
    if integer.negative then complementLoop bits else bits
  let result := List.zipWith operator.combine (operand left) (operand right)
  let negative : Bool := result.getD (width - 1) 0 >>> (bigintBits - 1) ≠ 0
  (normalizedLimbs (if negative then complementLoop result else result), negative)

/-- `add_or_subtract`. -/
def addOrSubtract (left right : BigIntObject) (subtract : Bool) : BigIntResult :=
  let rightNegative := right.negative != subtract
  if left.negative = rightNegative then
    publishBigint left.negative (addMagnitude left.limbs right.limbs)
  else
    let order := compareMagnitude left.limbs right.limbs
    if order = 0 then smallBigint false 0
    else
      let larger := if 0 < order then left else right
      let smaller := if 0 < order then right else left
      publishBigint (if 0 < order then left.negative else rightNegative)
        (subtractMagnitude larger.limbs smaller.limbs)

/-- `shift_result`. -/
def shiftResult (left right : BigIntObject) (requestedLeft : Bool) : BigIntResult :=
  if left.limbs = [0] then smallBigint false 0
  else
    let leftDirection := requestedLeft != right.negative
    match bigintToSize right.limbs with
    | none =>
      if leftDirection then .error bigintLimitError
      else smallBigint left.negative (if left.negative then 1 else 0)
    | some shift =>
      if leftDirection then
        if bigintMaxBits < shift || bigintMaxBits - shift < magnitudeBits left.limbs then
          .error bigintLimitError
        else publishBigint left.negative (leftShiftMagnitude left.limbs shift)
      else
        let (result, discarded) := rightShiftMagnitude left shift
        publishBigint left.negative
          (if left.negative && discarded then incrementMagnitude result else result)

/-- The product that `oseo_internal_bigint_binary` and `exponentiate` publish. -/
def multiply (left right : BigIntObject) : BigIntResult :=
  publishBigint (left.negative != right.negative) (multiplyMagnitude left.limbs right.limbs)

/-- The loop of `exponentiate`: the power so far, and the square that the next bit stands for. -/
def exponentiateLoop (remaining : ℕ) (power square : BigIntObject) : BigIntResult :=
  if remaining = 0 then .ok power
  else
    (if remaining &&& 1 ≠ 0 then multiply power square else .ok power).bind fun power =>
      if remaining >>> 1 = 0 then .ok power
      else
        (publishBigint false (multiplyMagnitude square.limbs square.limbs)).bind fun square =>
          exponentiateLoop (remaining >>> 1) power square
termination_by remaining
decreasing_by
  rw [Nat.shiftRight_eq_div_pow]
  omega

/-- `exponentiate`. -/
def exponentiate (base exponent : BigIntObject) : BigIntResult :=
  if exponent.negative then .error (.rangeError "A BigInt exponent cannot be negative.")
  else
    match bigintToSize exponent.limbs with
    | none =>
      if base.isZero then smallBigint false 0
      else if base.limbs = [1] then
        smallBigint (base.negative && exponent.limbs.headD 0 &&& 1 ≠ 0) 1
      else .error bigintLimitError
    | some exponentSize =>
      let baseBits := magnitudeBits base.limbs
      if 1 < baseBits && (bigintMaxBits - 1) / (baseBits - 1) < exponentSize then
        .error bigintLimitError
      else (smallBigint false 1).bind fun one => exponentiateLoop exponentSize one base

/-- `oseo_internal_bigint_negate`. -/
def bigintNegate (value : BigIntObject) : BigIntResult :=
  publishBigint (if value.isZero then false else !value.negative) value.limbs

/-- `oseo_internal_bigint_not`. -/
def bigintNot (value : BigIntObject) : BigIntResult :=
  (smallBigint false 1).bind fun one =>
    (bigintNegate value).bind fun negative => addOrSubtract negative one true

/-- `oseo_internal_bigint_binary`. -/
def bigintBinary (left right : BigIntObject) : (operator : BigIntOperator) → BigIntResult
  | .add => addOrSubtract left right false
  | .subtract => addOrSubtract left right true
  | .multiply => multiply left right
  | .divide =>
    if right.isZero then .error (.rangeError "BigInt division by zero.")
    else publishBigint (left.negative != right.negative)
      (divideMagnitude left.limbs right.limbs).quotient
  | .remainder =>
    if right.isZero then .error (.rangeError "BigInt division by zero.")
    else publishBigint left.negative (divideMagnitude left.limbs right.limbs).remainder
  | .exponentiate => exponentiate left right
  | .shiftLeft => shiftResult left right true
  | .shiftRight => shiftResult left right false
  | operator =>
    let (result, negative) := bitwiseMagnitude left right operator
    publishBigint negative result

/-! ## Comparison -/

/-- `oseo_internal_bigint_compare`. -/
def bigintCompare (left right : BigIntObject) : ℤ :=
  if left.negative ≠ right.negative then if left.negative then -1 else 1
  else
    let order := compareMagnitude left.limbs right.limbs
    if left.negative then -order else order

/-- The significant bits of a double. -/
def doubleDigits : ℕ := 53

/-- A bit of a significand that is shifted. -/
def significandBit (significand : ℕ) (shift : ℤ) (bit : ℕ) : Bool :=
  if 0 ≤ shift then
    if shift.toNat ≤ bit && bit - shift.toNat < doubleDigits then
      (significand >>> (bit - shift.toNat)) &&& 1 ≠ 0
    else false
  else
    let discarded := (-shift).toNat
    if bit + discarded < doubleDigits then (significand >>> (bit + discarded)) &&& 1 ≠ 0 else false

/-- The comparison of the bits below a cursor, the highest first. -/
def compareBitsLoop (limbs : List ℕ) (significand : ℕ) (shift : ℤ) : (cursor : ℕ) → ℤ
  | 0 => 0
  | bit + 1 =>
    let integerBit := magnitudeBit limbs bit
    if integerBit ≠ significandBit significand shift bit then if integerBit then 1 else -1
    else compareBitsLoop limbs significand shift bit

/-- `compare_magnitude_double`. frexp leaves a fraction that is a half at least. -/
def compareMagnitudeDouble (integer : BigIntObject) (number : ℚ) : ℤ :=
  if number < 1 then if integer.isZero then 0 else 1
  else
    let exponent := Int.log 2 number + 1
    let significand := ⌊number * 2 ^ (doubleDigits - exponent)⌋₊
    let integerBits := magnitudeBits integer.limbs
    let numberBits := exponent.toNat
    if integerBits < numberBits then -1
    else if numberBits < integerBits then 1
    else compareBitsLoop integer.limbs significand (exponent - doubleDigits) integerBits

/-- `oseo_internal_bigint_compare_number`, which is not asked about a NaN. -/
def bigintCompareNumber (integer : BigIntObject) : Number → Option ℤ
  | .nan => none
  | .infinite negative => some (if negative then 1 else -1)
  | .finite number =>
    let numberNegative : Bool := number.value < 0
    if integer.negative ≠ numberNegative then some (if integer.negative then -1 else 1)
    else
      let absolute := |number.value|
      let integral : ℚ := Number.truncated absolute
      let magnitudeOrder := compareMagnitudeDouble integer integral
      let order := if integer.negative then -magnitudeOrder else magnitudeOrder
      if order = 0 && absolute ≠ integral then some (if integer.negative then 1 else -1)
      else some order

/-! ## Widths -/

/-- `width_complement`. -/
def widthComplement (limbs : List ℕ) (topLimb topMask : ℕ) : List ℕ :=
  (incrementLoop ((limbs.map complementLimb).modify topLimb (· &&& topMask)) 1).1

/-- `oseo_internal_bigint_as_width`, whose width is an integer. -/
def bigintAsWidth (value : BigIntObject) (bits : ℕ) (signedResult : Bool) : BigIntResult :=
  let sourceBits := magnitudeBits value.limbs
  if bits = 0 then smallBigint false 0
  else if sourceBits < bits && (signedResult || !value.negative) then .ok value
  else if sourceBits < bits && bigintMaxBits < bits then .error bigintLimitError
  else
    let topLimb := bits / bigintBits
    let topBit := bits % bigintBits
    let topMask := if topBit = 0 then 0 else (1 <<< topBit) - 1
    let limbs := (padded value.limbs (topLimb + 1)).modify topLimb (· &&& topMask)
    let lowZero : Bool := normalizedLimbs limbs = [0]
    let wrapped := if value.negative && !lowZero then widthComplement limbs topLimb topMask
      else limbs
    if signedResult && magnitudeBit wrapped (bits - 1) then
      publishBigint true (widthComplement wrapped topLimb topMask)
    else publishBigint false wrapped

/-! ## Texts -/

/-- The value of a digit of a literal. -/
def literalDigit (character : CodeUnit) : Option ℕ :=
  if between '0' '9' character then
    some (character.toNat - (codeUnit '0').toNat)
  else if between 'a' 'f' character then
    some (character.toNat - (codeUnit 'a').toNat + 10)
  else none

def invalidConstant : BigIntError := .diagnostic "Invalid BigInt constant."

/-- The loop of `oseo_bigint_literal` over the digits. -/
def literalLoop (radix capacity : ℕ) : (digits : List CodeUnit) → (limbs : List ℕ) →
    Except BigIntError (List ℕ)
  | [], limbs => .ok limbs
  | character :: digits, limbs =>
    match literalDigit character with
    | none => .error invalidConstant
    | some digit =>
      if radix ≤ digit then .error invalidConstant
      else
        let (limbs, carry) := carryLoop 64 (limbs.map (· * radix)) digit
        if carry ≠ 0 then
          if capacity ≤ limbs.length then .error bigintLimitError
          else literalLoop radix capacity digits (limbs ++ [carry % 2 ^ 32])
        else literalLoop radix capacity digits limbs

/-- `oseo_bigint_literal`. -/
def bigintLiteral (digits : List CodeUnit) (radix : ℕ) : BigIntResult :=
  if radix ≠ 2 && radix ≠ 8 && radix ≠ 10 && radix ≠ 16 then .error invalidConstant
  else if digits.isEmpty then .error invalidConstant
  else
    let capacity := min (digits.length * 4 / bigintBits + 2) (bigintMaxLimbs + 1)
    (literalLoop radix capacity digits [0]).bind (publishBigint false)

/-- `bigint_whitespace`. -/
def bigintWhitespace (unit : CodeUnit) : Bool :=
  unit = 0x0009 || unit = 0x000a || unit = 0x000b || unit = 0x000c || unit = 0x000d ||
    unit = 0x0020 || unit = 0x00a0 || unit = 0x1680 || (0x2000 ≤ unit && unit ≤ 0x200a) ||
    unit = 0x2028 || unit = 0x2029 || unit = 0x202f || unit = 0x205f || unit = 0x3000 ||
    unit = 0xfeff

/-- The radix of a prefix, 10 when there is none. -/
def prefixRadix : List CodeUnit → ℕ
  | zero :: letter :: _ =>
    if zero = codeUnit '0' then
      if letter = codeUnit 'b' || letter = codeUnit 'B' then 2
      else if letter = codeUnit 'o' || letter = codeUnit 'O' then 8
      else if letter = codeUnit 'x' || letter = codeUnit 'X' then 16
      else 10
    else 10
  | _ => 10

/-- A digit of a string as a digit of a literal. -/
def stringDigit (radix : ℕ) (unit : CodeUnit) : Option CodeUnit :=
  let decimal := between '0' '9' unit
  let hexadecimal := between 'a' 'f' unit || between 'A' 'F' unit
  let digit := if decimal then unit.toNat - (codeUnit '0').toNat
    else if hexadecimal then (unit ||| 0x20).toNat - (codeUnit 'a').toNat + 10
    else 2 ^ 32 - 1
  if 0x7f < unit || radix ≤ digit then none else some (if hexadecimal then unit ||| 0x20 else unit)

/-- `oseo_internal_string_to_bigint`; no BigInt when the string is not valid. -/
def stringToBigint (units : List CodeUnit) : Except BigIntError (Option BigIntObject) :=
  let units := (units.dropWhile bigintWhitespace).rdropWhile bigintWhitespace
  match units with
  | [] => (smallBigint false 0).map some
  | first :: rest =>
    let hasSign : Bool := first = codeUnit '+' || first = codeUnit '-'
    let negative : Bool := first = codeUnit '-'
    let units := if hasSign then rest else units
    let radix := prefixRadix units
    if radix ≠ 10 && hasSign then .ok none
    else
      let units := if radix ≠ 10 then units.drop 2 else units
      if units.isEmpty then .ok none
      else
        match units.mapM (stringDigit radix) with
        | none => .ok none
        | some digits =>
          (bigintLiteral digits radix).bind fun result =>
            if negative && !result.isZero then (bigintNegate result).map some else .ok (some result)

/-- The digit characters. -/
def bigintDigitCharacters : List CodeUnit :=
  "0123456789abcdefghijklmnopqrstuvwxyz".toList.map codeUnit

/-- The division of `bigint_string_rooted`, from the top limb down. -/
def divideLoop (radix : ℕ) : (working : List ℕ) → List ℕ × ℕ
  | [] => ([], 0)
  | limb :: working =>
    let (quotients, remainder) := divideLoop radix working
    let current := ((remainder <<< bigintBits) % 2 ^ 64) ||| limb
    ((current / radix) % 2 ^ 32 :: quotients, current % radix)

/-- The loop of `bigint_string_rooted`, in the order of the text: the digits so far, and the space
behind them in the buffer. None when a digit does not fit. -/
def bigintStringLoop (radix : ℕ) : (space : ℕ) → (working : List ℕ) → (digits : List CodeUnit) →
    Option (List CodeUnit × ℕ)
  | 0, _, _ => none
  | space + 1, working, digits =>
    let (quotients, remainder) := divideLoop radix working
    let digits := bigintDigitCharacters.getD remainder 0 :: digits
    let working := normalizedLimbs quotients
    if working = [0] then some (digits, space) else bigintStringLoop radix space working digits

/-- `bigint_string_rooted`. None when the buffer is too short. -/
def bigintString (value : BigIntObject) (radix : ℕ) : Option (List CodeUnit) :=
  let capacity := magnitudeBits value.limbs + 2
  (bigintStringLoop radix capacity value.limbs []).bind fun (digits, space) =>
    if value.negative then if space = 0 then none else some (codeUnit '-' :: digits)
    else some digits

/-- `oseo_internal_bigint_radix_string`. -/
def bigintRadixString (value : BigIntObject) (radix : ℕ) :
    Except BigIntError (Option (List CodeUnit)) :=
  if radix < 2 || 36 < radix then .error (.diagnostic "Invalid BigInt text radix.")
  else .ok (bigintString value radix)

end

/-! ## Magnitudes

What the limbs of the magnitude operations stand for: the sum, the difference, the product, the
comparison, the bits. A result that is published is a BigInt of the exact value, or it has too many
bits (`publishBigint_exact`).
-/

open Nat
open List
open Oseo.AgentBroadcast (OseoBigInt bigintBits bigintBase normalizedLength normalizedLength_le

  normalizedLength_pos normalizedLength_value kept_ne_nil kept_last)
open Oseo.Library.Limbs

variable {limbs left right result terms : List ℕ} {n m a b carry : ℕ}

/-- Limbs of a magnitude stand for a number. -/
structure Stands (limbs : List ℕ) (n : ℕ) : Prop where
  nonempty : limbs ≠ []
  below : Below bigintBase limbs
  value : Nat.ofDigits bigintBase limbs = n

lemma one_lt_base : 1 < bigintBase := by decide

lemma base_pos : 0 < bigintBase := by decide

lemma base_eq : bigintBase = 2 ^ bigintBits := rfl

/-- The limbs of a BigInt. -/
lemma stands_object (integer : OseoBigInt) :
    Stands (bigintObject integer).limbs integer.value.natAbs :=
  ⟨integer.nonempty, integer.below, integer.natAbs_value.symm⟩

lemma stands_zero : Stands [0] 0 := ⟨by decide, by unfold Below; decide, rfl⟩

lemma stands_one : Stands [1] 1 := ⟨by decide, by unfold Below; decide, rfl⟩

lemma Stands.length_pos (h : Stands limbs n) : 0 < limbs.length :=
  List.length_pos_of_ne_nil h.nonempty

lemma Stands.lt_pow (h : Stands limbs n) : n < bigintBase ^ limbs.length := by
  rw [← h.value]
  exact value_lt one_lt_base h.below

/-! ## Normalized limbs -/

/-- No limb leads with zero, except a single one. -/
def Normalized (limbs : List ℕ) : Prop :=
  ∀ hne : limbs ≠ [], 1 < limbs.length → limbs.getLast hne ≠ 0

lemma normalizedLimbs_normalized (hne : limbs ≠ []) : Normalized (normalizedLimbs limbs) :=
  fun _ => kept_last hne

lemma Stands.normalizedLimbs (h : Stands limbs n) : Stands (normalizedLimbs limbs) n := by
  refine ⟨kept_ne_nil h.nonempty, fun limb hmem => h.below limb (mem_of_mem_take hmem), ?_⟩
  have hvalue := normalizedLength_value limbs (le_refl limbs.length)
  rw [take_length] at hvalue
  exact hvalue.trans h.value

lemma normalizedLimbs_length (limbs : List ℕ) :
    (normalizedLimbs limbs).length = normalizedLength limbs limbs.length := by
  unfold normalizedLimbs
  rw [length_take, min_eq_left (normalizedLength_le _ _)]

lemma object_normalized (integer : OseoBigInt) : Normalized (bigintObject integer).limbs :=
  fun _ => integer.normalized

/-- A number of several normalized limbs is not below the power of the top one. -/
lemma Stands.pow_le (h : Stands limbs n) (hnormal : Normalized limbs) (hlong : 1 < limbs.length) :
    bigintBase ^ (limbs.length - 1) ≤ n := by
  rw [← h.value]
  exact Oseo.AgentBroadcast.pow_le_value h.nonempty (hnormal h.nonempty hlong)

/-- Normalized limbs are the ones of their number. -/
lemma Stands.unique (hleft : Stands left n) (hright : Stands right n) (h : Normalized left)
    (h' : Normalized right) : left = right := by
  have hlength : left.length = right.length := by
    have hpos := hleft.length_pos
    have hpos' := hright.length_pos
    have hlt := hleft.lt_pow
    have hlt' := hright.lt_pow
    apply le_antisymm
    · by_contra hcontra
      have hle := hleft.pow_le h (by omega)
      have hpow : bigintBase ^ right.length ≤ bigintBase ^ (left.length - 1) :=
        Nat.pow_le_pow_right base_pos (by omega)
      omega
    · by_contra hcontra
      have hle := hright.pow_le h' (by omega)
      have hpow : bigintBase ^ left.length ≤ bigintBase ^ (right.length - 1) :=
        Nat.pow_le_pow_right base_pos (by omega)
      omega
  exact Nat.ofDigits_inj_of_len_eq one_lt_base hlength hleft.below hright.below
    (hleft.value.trans hright.value.symm)

/-- The limbs that stand for zero. -/
lemma Stands.eq_zero_iff (h : Stands limbs n) (hnormal : Normalized limbs) :
    limbs = [0] ↔ n = 0 := by
  constructor
  · rintro rfl
    exact h.value.symm
  · rintro rfl
    refine h.unique stands_zero hnormal ?_
    intro _ hlong
    cases lt_irrefl 1 hlong

/-! ## Bits -/

lemma topBits_eq {rounds top : ℕ} (h : top < 2 ^ rounds) : topBits rounds top = size top := by
  induction rounds generalizing top with
  | zero =>
    have hzero : top = 0 := by omega
    rw [hzero, topBits, size_zero]
  | succ rounds ih =>
    rw [topBits]
    split
    · next hne =>
      have hhalf : top >>> 1 < 2 ^ rounds := by
        rw [shiftRight_eq_div_pow]
        omega
      have hsize : Nat.size top = Nat.size (top >>> 1) + 1 := by
        rcases Nat.eq_zero_or_pos (top >>> 1) with hzero | hpos
        · have hone : top = 1 := by
            rw [Nat.shiftRight_eq_div_pow] at hzero
            omega
          rw [hone]
          rfl
        · have hlead := @size_lead 1 (top >>> 1) (top % 2) hpos (by omega)
          have htop : top % 2 + 2 ^ 1 * (top >>> 1) = top := by
            rw [shiftRight_eq_div_pow]
            omega
          rw [htop] at hlead
          omega
      rw [ih hhalf, hsize]
    · next hzero =>
      have htop : top = 0 := by omega
      rw [htop, size_zero]

/-- The length of the number in bits. -/
lemma magnitudeBits_eq (h : Stands limbs n) : magnitudeBits limbs = size n := by
  have hnormal := normalizedLimbs_normalized h.nonempty
  have hstands := h.normalizedLimbs
  have hpos := hstands.length_pos
  have htop : limbs.getD (normalizedLength limbs limbs.length - 1) 0 =
      (normalizedLimbs limbs).getLast hstands.nonempty := by
    have hle := normalizedLength_le limbs limbs.length
    rw [normalizedLimbs_length] at hpos
    rw [getLast_eq_getElem, getD_eq_getElem _ _ (by omega)]
    unfold normalizedLimbs
    simp only [getElem_take, length_take, min_eq_left hle]
  have hlast := dropLast_append_getLast hstands.nonempty
  have hlimb := hstands.below _ (getLast_mem hstands.nonempty)
  have hlength : (normalizedLimbs limbs).dropLast.length = normalizedLength limbs limbs.length - 1 := by
    rw [length_dropLast, normalizedLimbs_length]
  have hsize := @size_value bigintBits _ ((normalizedLimbs limbs).getLast hstands.nonempty)
    (by decide) (fun limb hmem => hstands.below limb (mem_of_mem_dropLast hmem)) (by
      intro hne
      apply pos_of_ne_zero
      apply hnormal
      have hdrop := length_pos_of_ne_nil hne
      rw [length_dropLast] at hdrop
      omega)
  unfold magnitudeBits
  dsimp only
  rw [htop, topBits_eq (hlimb.trans (by decide)), ← hlength, ← hsize, hlast]
  exact congrArg size hstands.value

lemma and_one_ne_zero (value index : ℕ) :
    (decide ((value >>> index) &&& 1 ≠ 0)) = value.testBit index := by
  unfold testBit
  rw [Nat.and_comm]
  apply Bool.eq_iff_iff.mpr
  rw [decide_eq_true_iff, bne_iff_ne]

lemma magnitudeBit_eq (h : Stands limbs n) (bit : ℕ) : magnitudeBit limbs bit = n.testBit bit := by
  have hbit := @value_testBit limbs bigintBits (by decide) h.below bit
  rw [← base_eq, h.value] at hbit
  rw [hbit]
  unfold magnitudeBit
  dsimp only
  split
  · next hle => rw [getD_eq_default _ _ hle, zero_testBit]
  · exact and_one_ne_zero _ _

/-! ## Publishing -/

/-- A published BigInt: it is that of a value, within the limit of bits. -/
def Publishes (value : ℤ) (integer : BigIntObject) : Prop :=
  ∃ published : OseoBigInt, bigintObject published = integer ∧ published.value = value ∧
    Nat.size value.natAbs ≤ bigintMaxBits

/-- The BigInt of a value when it has not too many bits, otherwise the RangeError about them. -/
def Exact (value : ℤ) (result : BigIntResult) : Prop :=
  if Nat.size value.natAbs ≤ bigintMaxBits then
    ∃ integer, result = .ok integer ∧ Publishes value integer
  else result = .error bigintLimitError

/-- A magnitude with a sign. -/
def signed (negative : Bool) (n : ℕ) : ℤ := if negative then -(n : ℤ) else n

lemma natAbs_signed (negative : Bool) (n : ℕ) : (signed negative n).natAbs = n := by
  unfold signed
  split <;> omega

lemma published_value (h : Stands limbs n) (negative : Bool) :
    (Oseo.AgentBroadcast.publishBigint negative limbs h.nonempty h.below).value =
      signed negative n := by
  have hvalue := h.normalizedLimbs.value
  have hzero := h.normalizedLimbs.eq_zero_iff (normalizedLimbs_normalized h.nonempty)
  show (if (if normalizedLimbs limbs = [0] then false else negative) = true then
    -((ofDigits bigintBase (normalizedLimbs limbs) : ℕ) : ℤ)
    else (ofDigits bigintBase (normalizedLimbs limbs) : ℕ)) = signed negative n
  rw [hvalue]
  by_cases hn : n = 0
  · rw [if_pos (hzero.mpr hn), hn]
    cases negative <;> rfl
  · rw [if_neg (fun hlimbs => hn (hzero.mp hlimbs))]
    rfl

/-- `publish_bigint` normalizes, or refuses what has too many bits. -/
theorem publishBigint_exact (h : Stands limbs n) (negative : Bool) :
    Exact (signed negative n) (publishBigint negative limbs) := by
  unfold Exact publishBigint
  dsimp only
  rw [natAbs_signed, magnitudeBits_eq h.normalizedLimbs]
  split
  · next hle =>
    rw [if_neg (by omega)]
    refine ⟨_, rfl, Oseo.AgentBroadcast.publishBigint negative limbs h.nonempty h.below, rfl,
      published_value h negative, ?_⟩
    rw [natAbs_signed]
    exact hle
  · rw [if_pos (by omega)]

lemma smallBigint_exact (h : n < bigintBase) (negative : Bool) :
    Exact (signed negative n) (smallBigint negative n) := by
  apply publishBigint_exact
  refine ⟨cons_ne_nil _ _, ?_, ofDigits_singleton⟩
  intro limb hmem
  rw [mem_singleton.mp hmem]
  exact h

/-! ## Carries -/

lemma and_mask (n : ℕ) : n &&& bigintMask = n % bigintBase := and_two_pow_sub_one_eq_mod n 30

lemma shift_bits (n : ℕ) : n >>> bigintBits = n / bigintBase := shiftRight_eq_div_pow n 30

/-- A carry loop carries, when the words are wide enough for its sums. -/
lemma carryLoop_eq {word bound : ℕ} (hword : bigintBase * (bound + 1) ≤ 2 ^ word)
    (hterms : ∀ term ∈ terms, term + bound < bigintBase * (bound + 1)) (hcarry : carry ≤ bound) :
    carryLoop word terms carry = carried bigintBase terms carry := by
  induction terms generalizing carry with
  | nil => rfl
  | cons term terms ih =>
    have hterm := hterms term mem_cons_self
    have hnext : (term + carry) / bigintBase < bound + 1 := Nat.div_lt_of_lt_mul (by omega)
    rw [carryLoop, carried, mod_eq_of_lt (by omega), and_mask, shift_bits,
      ih (fun other hmem => hterms other (mem_cons_of_mem _ hmem)) (by omega)]

lemma zipWith_sum_bound (hleft : Below bigintBase left) (hright : Below bigintBase right) :
    ∀ term ∈ List.zipWith (· + ·) left right, term + 1 < bigintBase * (1 + 1) := by
  intro term hmem
  rw [mem_iff_getElem] at hmem
  obtain ⟨index, hindex, rfl⟩ := hmem
  rw [getElem_zipWith]
  rw [length_zipWith] at hindex
  have hlimb := hleft _ (getElem_mem (lt_of_lt_of_le hindex (min_le_left _ _)))
  have hlimb' := hright _ (getElem_mem (lt_of_lt_of_le hindex (min_le_right _ _)))
  omega

/-- Limbs with a carry at the top. -/
lemma below_snoc (h : Below bigintBase limbs) (hcarry : carry < bigintBase) :
    Below bigintBase (limbs ++ [carry]) := by
  apply h.append
  intro limb hmem
  rwa [mem_singleton.mp hmem]

lemma value_snoc (limbs : List ℕ) (carry : ℕ) : ofDigits bigintBase (limbs ++ [carry]) =
    ofDigits bigintBase limbs + bigintBase ^ limbs.length * carry := by
  rw [ofDigits_append, ofDigits_singleton]

lemma addMagnitude_stands (hleft : Stands left n) (hright : Stands right m) :
    Stands (addMagnitude left right) (n + m) := by
  have hbound := zipWith_sum_bound (padded_below base_pos hleft.below (max left.length right.length))
    (padded_below base_pos hright.below (max left.length right.length))
  have hloop := @carryLoop_eq _ 0 64 1 (by decide) hbound (by decide)
  have hvalue := @carried_value bigintBase (zipWith (· + ·)
    (padded left (max left.length right.length)) (padded right (max left.length right.length))) 0
  have hcarry := @carried_carry bigintBase _ 1 0 hbound (by decide)
  have hsum : ofDigits bigintBase (zipWith (· + ·)
      (padded left (max left.length right.length)) (padded right (max left.length right.length))) =
      n + m := by
    rw [← ofDigits_add_ofDigits_eq_ofDigits_zipWith_of_length_eq
      (by rw [padded_length, padded_length]), padded_value _ (le_max_left _ _),
      padded_value _ (le_max_right _ _), hleft.value, hright.value]
  have hlength := @carried_length bigintBase (zipWith (· + ·)
    (padded left (max left.length right.length)) (padded right (max left.length right.length))) 0
  have hbelow := @carried_below bigintBase base_pos (zipWith (· + ·)
    (padded left (max left.length right.length)) (padded right (max left.length right.length))) 0
  unfold addMagnitude
  dsimp only
  rw [hloop]
  apply Stands.normalizedLimbs
  generalize zipWith (· + ·) (padded left (max left.length right.length))
    (padded right (max left.length right.length)) = sums at *
  have hword : (carried bigintBase sums 0).2 % 2 ^ 32 = (carried bigintBase sums 0).2 :=
    mod_eq_of_lt (by omega)
  have hsmall : (1 : ℕ) < bigintBase := one_lt_base
  rw [hword]
  refine ⟨append_ne_nil_of_right_ne_nil _ (cons_ne_nil _ _),
    below_snoc hbelow (by omega), ?_⟩
  rw [value_snoc, hlength, hvalue, hsum]
  omega

/-! ## Borrows -/

lemma subtractLoop_eq (hleft : Below bigintBase left) (hright : Below bigintBase right)
    {borrow : ℕ} (hborrow : borrow ≤ 1) :
    subtractLoop left right borrow = (borrowed bigintBase left right borrow).1 := by
  have hword : bigintBase < 2 ^ 32 := by decide
  induction left generalizing right borrow with
  | nil => rfl
  | cons limb left ih =>
    obtain ⟨hlimb, hrest⟩ := hleft.tail
    obtain ⟨hhead, htail⟩ := headD_below base_pos hright
    rw [subtractLoop, borrowed]
    split
    · rw [mod_eq_of_lt (by omega), ih hrest htail (le_refl 1)]
    · rw [mod_eq_of_lt (by omega), ih hrest htail (zero_le 1)]

/-- A difference that is not negative. -/
lemma subtractLoop_stands (hleft : Stands left n) (hright : Stands right m)
    (hlength : right.length ≤ left.length) (hle : m ≤ n) :
    Stands (subtractLoop left right 0) (n - m) ∧ (subtractLoop left right 0).length = left.length := by
  obtain ⟨hvalue, hborrow⟩ := borrowed_value base_pos hright.below hlength (zero_le 1)
  have hbelow := borrowed_below hleft.below right 0
  have hlengths := @borrowed_length bigintBase left right 0
  rw [subtractLoop_eq hleft.below hright.below (zero_le 1)]
  rw [hleft.value, hright.value, add_zero] at hvalue
  have hlt := value_lt one_lt_base hbelow
  rw [hlengths] at hlt
  -- a borrow left at the top would make the difference negative
  have hnone : (borrowed bigintBase left right 0).2 = 0 := by
    by_contra hcontra
    have hone : (borrowed bigintBase left right 0).2 = 1 := by omega
    rw [hone, mul_one] at hvalue
    omega
  rw [hnone, mul_zero] at hvalue
  refine ⟨⟨?_, hbelow, by omega⟩, hlengths⟩
  apply ne_nil_of_length_pos
  rw [hlengths]
  exact hleft.length_pos

/-! ## Comparison -/

lemma compareLoop_eq (hleft : Below bigintBase left) (hright : Below bigintBase right) (index : ℕ) :
    compareLoop left right index =
      Int.sign (((ofDigits bigintBase (left.take index) : ℕ) : ℤ) -
        (ofDigits bigintBase (right.take index) : ℕ)) := by
  induction index with
  | zero => rfl
  | succ index ih =>
    have hlower := value_take_lt one_lt_base hleft index
    have hlower' := value_take_lt one_lt_base hright index
    rw [compareLoop, value_take_succ, value_take_succ, ih]
    generalize ofDigits bigintBase (left.take index) = lower at *
    generalize ofDigits bigintBase (right.take index) = lower' at *
    generalize left.getD index 0 = limb
    generalize right.getD index 0 = limb'
    generalize bigintBase ^ index = power at *
    split
    · next hlt =>
      have hmul : power * (limb + 1) ≤ power * limb' := mul_le_mul_left _ hlt
      rw [mul_add, mul_one] at hmul
      symm
      apply Int.sign_eq_neg_one_of_neg
      omega
    · split
      · next hgt =>
        have hmul : power * (limb' + 1) ≤ power * limb := mul_le_mul_left _ hgt
        rw [mul_add, mul_one] at hmul
        symm
        apply Int.sign_eq_one_of_pos
        omega
      · have heq : limb = limb' := by omega
        rw [heq]
        congr 1
        push_cast
        ring

/-- `compare_magnitude` is the sign of the difference. -/
lemma compareMagnitude_eq (hleft : Stands left n) (hright : Stands right m) :
    compareMagnitude left right = Int.sign ((n : ℤ) - m) := by
  have hstands := hleft.normalizedLimbs
  have hstands' := hright.normalizedLimbs
  have hnormal := normalizedLimbs_normalized hleft.nonempty
  have hnormal' := normalizedLimbs_normalized hright.nonempty
  have hlength := normalizedLimbs_length left
  have hlength' := normalizedLimbs_length right
  have hpos := hstands.length_pos
  have hpos' := hstands'.length_pos
  unfold compareMagnitude
  dsimp only
  rw [← hlength, ← hlength']
  split
  · next hlt =>
    have hle := hstands'.pow_le hnormal' (by omega)
    have hbound := hstands.lt_pow
    have hpow : bigintBase ^ (normalizedLimbs left).length ≤
        bigintBase ^ ((normalizedLimbs right).length - 1) :=
      Nat.pow_le_pow_right base_pos (by omega)
    symm
    apply Int.sign_eq_neg_one_of_neg
    omega
  · split
    · next hgt =>
      have hle := hstands.pow_le hnormal (by omega)
      have hbound := hstands'.lt_pow
      have hpow : bigintBase ^ (normalizedLimbs right).length ≤
          bigintBase ^ ((normalizedLimbs left).length - 1) :=
        Nat.pow_le_pow_right base_pos (by omega)
      symm
      apply Int.sign_eq_one_of_pos
      omega
    · have hsame : (normalizedLimbs left).length = (normalizedLimbs right).length := by omega
      have htake : left.take (normalizedLimbs left).length = normalizedLimbs left := by
        rw [hlength]
        rfl
      have htake' : right.take (normalizedLimbs left).length = normalizedLimbs right := by
        rw [hsame, hlength']
        rfl
      rw [compareLoop_eq hleft.below hright.below, htake, htake', hstands.value, hstands'.value]

lemma compareMagnitude_nonneg (hleft : Stands left n) (hright : Stands right m) :
    0 ≤ compareMagnitude left right ↔ m ≤ n := by
  rw [compareMagnitude_eq hleft hright, Int.sign_nonneg_iff]
  omega

end Oseo.BigInts
