import Oseo.BigInts.CompareTheorems

/-!
# Texts of BigInts

A string is read as a BigInt exactly when it is a StringIntegerLiteral of an integer within the limit
of bits, and the numeral of a BigInt is read back (`text_exact`).
-/

namespace Oseo.BigInts

open Nat (ofDigits size zero_mul)
open List
open Oseo.AgentBroadcast (OseoBigInt bigintBits bigintBase)
open Oseo.Library.Limbs
open Oseo.UriCoding (CodeUnit codeUnit between between_iff)

variable {limbs digits : List ℕ} {units core rest : List CodeUnit} {radix n digit capacity : ℕ}
  {x : ℤ} {unit : CodeUnit}

/-! ## Grammar -/

/-- The unit of a digit above nine as a capital. -/
def capitalUnit (digit : ℕ) : CodeUnit := "ABCDEF".toList.map codeUnit |>.getD (digit - 10) 0

/-- A unit stands for a digit. -/
def DigitOf (unit : CodeUnit) (digit : ℕ) : Prop :=
  unit = digitUnit digit ∨ 10 ≤ digit ∧ unit = capitalUnit digit

/-- Digits of a radix, one at least, and the number they make. -/
def DigitText (radix : ℕ) (units : List CodeUnit) (n : ℕ) : Prop :=
  ∃ digits : List ℕ, digits ≠ [] ∧ List.Forall₂ DigitOf units digits ∧
    (∀ digit ∈ digits, digit < radix) ∧ Nat.ofDigits radix digits.reverse = n

/-- The letter of a prefix, with its radix. -/
inductive PrefixLetter : CodeUnit → ℕ → Prop where
  | binary {letter : CodeUnit} (h : letter = codeUnit 'b' ∨ letter = codeUnit 'B') :
      PrefixLetter letter 2
  | octal {letter : CodeUnit} (h : letter = codeUnit 'o' ∨ letter = codeUnit 'O') :
      PrefixLetter letter 8
  | hexadecimal {letter : CodeUnit} (h : letter = codeUnit 'x' ∨ letter = codeUnit 'X') :
      PrefixLetter letter 16

/-- StrIntegerLiteral, with its value. -/
inductive StrIntegerLiteral : List CodeUnit → ℤ → Prop where
  | decimal {units : List CodeUnit} {n : ℕ} (h : DigitText 10 units n) : StrIntegerLiteral units n
  | plus {units : List CodeUnit} {n : ℕ} (h : DigitText 10 units n) :
      StrIntegerLiteral (codeUnit '+' :: units) n
  | minus {units : List CodeUnit} {n : ℕ} (h : DigitText 10 units n) :
      StrIntegerLiteral (codeUnit '-' :: units) (-n)
  | prefixed {letter : CodeUnit} {radix : ℕ} {units : List CodeUnit} {n : ℕ}
      (hletter : PrefixLetter letter radix) (h : DigitText radix units n) :
      StrIntegerLiteral (codeUnit '0' :: letter :: units) n

/-- StrWhiteSpaceChar: WhiteSpace, with the space separators of Unicode, and LineTerminator. -/
def strWhiteSpace : List CodeUnit :=
  [0x0009, 0x000b, 0x000c, 0xfeff,
    0x0020, 0x00a0, 0x1680, 0x2000, 0x2001, 0x2002, 0x2003, 0x2004, 0x2005, 0x2006, 0x2007, 0x2008,
    0x2009, 0x200a, 0x202f, 0x205f, 0x3000,
    0x000a, 0x000d, 0x2028, 0x2029]

/-- Units that are all white space. -/
def Blank (units : List CodeUnit) : Prop := ∀ unit ∈ units, unit ∈ strWhiteSpace

/-- StringIntegerLiteral, with its value. -/
inductive StringIntegerLiteral : List CodeUnit → ℤ → Prop where
  | blank {units : List CodeUnit} (h : Blank units) : StringIntegerLiteral units 0
  | literal {before core after : List CodeUnit} {x : ℤ} (hbefore : Blank before)
      (hcore : StrIntegerLiteral core x) (hafter : Blank after) :
      StringIntegerLiteral (before ++ core ++ after) x

/-! ## Digits that are read -/

lemma digitUnit_facts : ∀ digit : Fin 16, literalDigit (digitUnit digit) = some digit.val ∧
    bigintWhitespace (digitUnit digit) = false ∧ bigintWhitespace (capitalUnit digit) = false := by
  decide

set_option maxRecDepth 4000 in
/-- A digit of the radix is accepted, and a capital becomes a small letter. -/
lemma stringDigit_facts : ∀ radix : Fin 17, ∀ digit : Fin 16,
    stringDigit radix (digitUnit digit) =
      (if digit.val < radix.val then some (digitUnit digit) else none) ∧
    (10 ≤ digit.val → stringDigit radix (capitalUnit digit) =
      if digit.val < radix.val then some (digitUnit digit) else none) := by
  decide

lemma stringDigit_digitOf (hradix : radix ≤ 16) (h : DigitOf unit digit) (hdigit : digit < 16) :
    stringDigit radix unit = if digit < radix then some (digitUnit digit) else none := by
  obtain ⟨hsmall, hcapital⟩ := stringDigit_facts ⟨radix, by omega⟩ ⟨digit, hdigit⟩
  rcases h with rfl | ⟨hle, rfl⟩
  · exact hsmall
  · exact hcapital hle

lemma decimalDigit_toNat (hdigit : digit < 10) : (digitUnit digit).toNat = digit + 48 :=
  (by decide : ∀ digit : Fin 10, (digitUnit digit).toNat = digit + 48) ⟨digit, hdigit⟩

lemma letterDigit_toNat (hdigit : digit < 6) : (digitUnit (digit + 10)).toNat = digit + 97 ∧
    (capitalUnit (digit + 10)).toNat = digit + 65 :=
  (by decide : ∀ digit : Fin 6, (digitUnit (digit + 10)).toNat = digit + 97 ∧
    (capitalUnit (digit + 10)).toNat = digit + 65) ⟨digit, hdigit⟩

/-- A unit of one of the three ranges is a digit. -/
lemma digitOf_between (h : between '0' '9' unit = true ∨ between 'a' 'f' unit = true ∨
    between 'A' 'F' unit = true) : ∃ digit < 16, DigitOf unit digit := by
  have hdigits : between '0' '9' unit = true ↔ 48 ≤ unit.toNat ∧ unit.toNat ≤ 57 := between_iff
  have hsmall : between 'a' 'f' unit = true ↔ 97 ≤ unit.toNat ∧ unit.toNat ≤ 102 := between_iff
  have hcapital : between 'A' 'F' unit = true ↔ 65 ≤ unit.toNat ∧ unit.toNat ≤ 70 := between_iff
  rw [hdigits, hsmall, hcapital] at h
  rcases h with h | h | h
  · have hunit := decimalDigit_toNat (by omega : unit.toNat - 48 < 10)
    exact ⟨unit.toNat - 48, by omega, .inl (UInt16.toNat_inj.mp (by omega))⟩
  · have hunit := (letterDigit_toNat (by omega : unit.toNat - 97 < 6)).1
    exact ⟨unit.toNat - 97 + 10, by omega, .inl (UInt16.toNat_inj.mp (by omega))⟩
  · have hunit := (letterDigit_toNat (by omega : unit.toNat - 65 < 6)).2
    exact ⟨unit.toNat - 65 + 10, by omega, .inr ⟨by omega, UInt16.toNat_inj.mp (by omega)⟩⟩

lemma stringDigit_some {character : CodeUnit} (hradix : radix ≤ 16)
    (h : stringDigit radix unit = some character) :
    ∃ digit < radix, DigitOf unit digit ∧ character = digitUnit digit := by
  by_cases hranges : between '0' '9' unit = true ∨ between 'a' 'f' unit = true ∨
      between 'A' 'F' unit = true
  · obtain ⟨digit, hdigit, hof⟩ := digitOf_between hranges
    rw [stringDigit_digitOf hradix hof hdigit] at h
    split at h
    · next hlt => exact ⟨digit, hlt, hof, (Option.some.inj h).symm⟩
    · cases h
  · -- a unit outside of them counts as a digit no radix has
    rw [not_or, not_or, Bool.not_eq_true, Bool.not_eq_true, Bool.not_eq_true] at hranges
    unfold stringDigit at h
    dsimp only at h
    rw [hranges.1, hranges.2.1, hranges.2.2, Bool.or_false, if_neg Bool.false_ne_true,
      if_neg Bool.false_ne_true, decide_eq_true (by omega : radix ≤ 2 ^ 32 - 1), Bool.or_true,
      if_pos rfl] at h
    cases h

/-- Digits of a radix are read as small letters. -/
lemma mapM_stringDigit (hradix : radix ≤ 16) (h : Forall₂ DigitOf units digits)
    (hlt : ∀ digit ∈ digits, digit < radix) :
    units.mapM (stringDigit radix) = some (digits.map digitUnit) := by
  induction h with
  | nil => rfl
  | @cons unit digit units digits hof _ ih =>
    have hdigit := hlt digit mem_cons_self
    rw [mapM_cons, stringDigit_digitOf hradix hof (by omega), if_pos hdigit,
      ih fun other hmem => hlt other (mem_cons_of_mem _ hmem)]
    rfl

lemma mapM_stringDigit_some {characters : List CodeUnit} (hradix : radix ≤ 16)
    (h : units.mapM (stringDigit radix) = some characters) :
    ∃ digits : List ℕ, Forall₂ DigitOf units digits ∧ (∀ digit ∈ digits, digit < radix) ∧
      characters = digits.map digitUnit := by
  induction units generalizing characters with
  | nil =>
    refine ⟨[], .nil, ?_, ?_⟩
    · intro digit hmem
      cases hmem
    · exact (Option.some.inj h).symm
  | cons unit units ih =>
    rw [mapM_cons] at h
    cases hunit : stringDigit radix unit with
    | none =>
      rw [hunit] at h
      cases h
    | some character =>
      cases hunits : units.mapM (stringDigit radix) with
      | none =>
        rw [hunit, hunits] at h
        cases h
      | some others =>
        rw [hunit, hunits] at h
        obtain ⟨digits, hdigits, hlt, rfl⟩ := ih hunits
        obtain ⟨digit, hdigit, hof, rfl⟩ := stringDigit_some hradix hunit
        refine ⟨digit :: digits, .cons hof hdigits, ?_, (Option.some.inj h).symm⟩
        intro other hmem
        rcases mem_cons.mp hmem with rfl | hmem
        · exact hdigit
        · exact hlt other hmem

/-! ## The value of a literal -/

lemma value_map_mul (limbs : List ℕ) (radix : ℕ) :
    ofDigits bigintBase (limbs.map (· * radix)) = ofDigits bigintBase limbs * radix := by
  induction limbs with
  | nil => rw [map_nil, Nat.ofDigits_nil, zero_mul]
  | cons limb limbs ih => rw [map_cons, Nat.ofDigits_cons, Nat.ofDigits_cons, ih, Nat.add_mul, Nat.mul_assoc]

/-- One digit of the loop. -/
lemma literalStep_value (hradix : radix ≤ 36) (hdigit : digit < radix) (h : Stands limbs n) :
    (carryLoop 64 (limbs.map (· * radix)) digit).1.length = limbs.length ∧
    Below bigintBase (carryLoop 64 (limbs.map (· * radix)) digit).1 ∧
    (carryLoop 64 (limbs.map (· * radix)) digit).2 < bigintBase ∧
    ofDigits bigintBase (carryLoop 64 (limbs.map (· * radix)) digit).1 +
      bigintBase ^ limbs.length * (carryLoop 64 (limbs.map (· * radix)) digit).2 =
        n * radix + digit := by
  have hbase : bigintBase = 1073741824 := rfl
  have hbound : ∀ term ∈ limbs.map (· * radix), term + radix < bigintBase * (radix + 1) := by
    intro term hmem
    obtain ⟨limb, hlimb, rfl⟩ := mem_map.mp hmem
    have hle : (limb + 1) * radix ≤ bigintBase * radix :=
      Nat.mul_le_mul_right _ (h.below limb hlimb)
    rw [Nat.add_mul, Nat.one_mul] at hle
    rw [Nat.mul_add, Nat.mul_one]
    omega
  have hword : bigintBase * (radix + 1) ≤ 2 ^ 64 := by
    rw [hbase]
    omega
  have hloop := carryLoop_eq hword hbound hdigit.le
  have hlength := @carried_length bigintBase (limbs.map (· * radix)) digit
  have hvalue := @carried_value bigintBase (limbs.map (· * radix)) digit
  have hcarry := @carried_carry bigintBase _ radix digit hbound hdigit.le
  rw [hloop]
  rw [value_map_mul, h.value, length_map] at hvalue
  rw [length_map] at hlength
  exact ⟨hlength, carried_below base_pos _ _, by omega, hvalue⟩

/-- The loop keeps the value of what it has read, and refuses only a number that has too many
bits: the capacity suffices for all others. -/
lemma literalLoop_value (hradix : radix ≤ 16) (hlt : ∀ digit ∈ digits, digit < radix)
    (h : Stands limbs n)
    (hcapacity : bigintBase ^ capacity ≤ n * radix ^ digits.length + ofDigits radix digits.reverse →
      bigintMaxBits < size (n * radix ^ digits.length + ofDigits radix digits.reverse)) :
    (∃ result, literalLoop radix capacity (digits.map digitUnit) limbs = .ok result ∧
      Stands result (n * radix ^ digits.length + ofDigits radix digits.reverse)) ∨
    (literalLoop radix capacity (digits.map digitUnit) limbs = .error bigintLimitError ∧
      bigintMaxBits < size (n * radix ^ digits.length + ofDigits radix digits.reverse)) := by
  induction digits generalizing limbs n with
  | nil =>
    left
    refine ⟨limbs, rfl, ?_⟩
    rwa [reverse_nil, Nat.ofDigits_nil, length_nil, Nat.pow_zero, Nat.mul_one, Nat.add_zero]
  | cons digit digits ih =>
    have hdigit := hlt digit mem_cons_self
    have hothers : ∀ other ∈ digits, other < radix :=
      fun other hmem => hlt other (mem_cons_of_mem _ hmem)
    have htotal : n * radix ^ (digit :: digits).length + ofDigits radix (digit :: digits).reverse =
        (n * radix + digit) * radix ^ digits.length + ofDigits radix digits.reverse := by
      rw [reverse_cons, Nat.ofDigits_append, Nat.ofDigits_singleton, length_reverse,
        length_cons, Nat.pow_succ]
      ring
    rw [htotal] at hcapacity ⊢
    obtain ⟨hlength, hbelow, hcarry, hvalue⟩ := literalStep_value (by omega) hdigit h
    have hword : bigintBase < 2 ^ 32 := by decide
    have hliteral := (digitUnit_facts ⟨digit, by omega⟩).1
    dsimp only at hliteral
    rw [map_cons, literalLoop, hliteral]
    dsimp only
    rw [if_neg (by omega)]
    generalize carryLoop 64 (limbs.map (· * radix)) digit = product at *
    obtain ⟨row, carry⟩ := product
    dsimp only at hlength hbelow hcarry hvalue ⊢
    have hrow : row ≠ [] := by
      apply ne_nil_of_length_pos
      rw [hlength]
      exact h.length_pos
    split
    · next hne =>
      split
      · next hfull =>
        -- no room is left: the number has reached the power of all the limbs there may be
        right
        refine ⟨rfl, hcapacity ?_⟩
        have hpower : bigintBase ^ capacity ≤ bigintBase ^ limbs.length :=
          Nat.pow_le_pow_right base_pos (by omega)
        have hreached : bigintBase ^ limbs.length * 1 ≤ bigintBase ^ limbs.length * carry :=
          Nat.mul_le_mul_left _ (Nat.pos_of_ne_zero hne)
        have hgrows : (n * radix + digit) * 1 ≤ (n * radix + digit) * radix ^ digits.length :=
          Nat.mul_le_mul_left _ (Nat.pow_pos (by omega))
        omega
      · rw [Nat.mod_eq_of_lt (by omega)]
        apply ih hothers _ hcapacity
        refine ⟨append_ne_nil_of_left_ne_nil hrow _, below_snoc hbelow hcarry, ?_⟩
        rw [value_snoc, hlength, hvalue]
    · next hzero =>
      apply ih hothers _ hcapacity
      refine ⟨hrow, hbelow, ?_⟩
      rw [show carry = 0 by omega, Nat.mul_zero, Nat.add_zero] at hvalue
      exact hvalue

lemma Exact.bind_publish {result : Except BigIntError (List ℕ)}
    (h : (∃ limbs, result = .ok limbs ∧ Stands limbs n) ∨
      (result = .error bigintLimitError ∧ bigintMaxBits < size n)) :
    Exact n (result.bind (publishBigint false)) := by
  rcases h with ⟨limbs, rfl, hlimbs⟩ | ⟨rfl, hlarge⟩
  · exact publishBigint_exact hlimbs false
  · exact .error (by rwa [Int.natAbs_natCast])

/-- A literal is the BigInt of its value, or that has too many bits. -/
lemma bigintLiteral_exact (hradix : radix = 2 ∨ radix = 8 ∨ radix = 10 ∨ radix = 16)
    (hne : digits ≠ []) (hlt : ∀ digit ∈ digits, digit < radix) :
    Exact (ofDigits radix digits.reverse : ℕ) (bigintLiteral (digits.map digitUnit) radix) := by
  have hsmall : radix ≤ 16 := by omega
  have hvalue : ofDigits radix digits.reverse < radix ^ digits.length := by
    rw [← length_reverse]
    exact Nat.ofDigits_lt_base_pow_length (by omega) fun digit hmem => hlt digit (mem_reverse.mp hmem)
  have hcapacity : bigintBase ^ min (digits.length * 4 / bigintBits + 2) (bigintMaxLimbs + 1) ≤
      ofDigits radix digits.reverse →
      bigintMaxBits < size (ofDigits radix digits.reverse) := by
    intro hle
    have hpower : radix ^ digits.length ≤ 2 ^ (4 * digits.length) := by
      rw [Nat.pow_mul]
      exact Nat.pow_le_pow_left hsmall _
    have hbits : bigintBits = 30 := rfl
    have hmost : bigintMaxLimbs = 2185 := by decide
    have hmax : bigintMaxBits = 65536 := rfl
    rw [base_eq, ← Nat.pow_mul] at hle
    have hexponent : bigintBits * min (digits.length * 4 / bigintBits + 2) (bigintMaxLimbs + 1) <
        4 * digits.length := by
      have hchain := hle.trans_lt (hvalue.trans_le hpower)
      exact (Nat.pow_lt_pow_iff_right (by decide)).mp hchain
    have hsize := Nat.lt_size.mpr hle
    rw [hbits, hmost] at hexponent hsize
    omega
  have hloop := literalLoop_value hsmall hlt stands_zero (by rwa [zero_mul, Nat.zero_add])
  rw [zero_mul, Nat.zero_add] at hloop
  unfold bigintLiteral
  rw [if_neg (by rcases hradix with rfl | rfl | rfl | rfl <;> decide), isEmpty_map, if_neg (by simpa using hne),
    length_map]
  exact .bind_publish hloop

/-! ## Reading -/

/-- What reading an integer comes to. -/
def Reads (x : ℤ) (result : Except BigIntError (Option BigIntObject)) : Prop :=
  ∃ integer : BigIntResult, Exact x integer ∧ result = integer.map some

/-- What follows the sign, once the white space is gone. -/
def readInteger (hasSign negative : Bool) (units : List CodeUnit) :
    Except BigIntError (Option BigIntObject) :=
  if prefixRadix units ≠ 10 && hasSign then .ok none
  else
    let digits := if prefixRadix units ≠ 10 then units.drop 2 else units
    if digits.isEmpty then .ok none
    else
      match digits.mapM (stringDigit (prefixRadix units)) with
      | none => .ok none
      | some digits =>
        (bigintLiteral digits (prefixRadix units)).bind fun result =>
          if negative && !result.isZero then (bigintNegate result).map some else .ok (some result)

lemma stringToBigint_cons {first : CodeUnit}
    (h : (units.dropWhile bigintWhitespace).rdropWhile bigintWhitespace = first :: rest) :
    stringToBigint units = readInteger (first = codeUnit '+' || first = codeUnit '-')
      (first = codeUnit '-') (if first = codeUnit '+' || first = codeUnit '-' then rest
        else first :: rest) := by
  unfold stringToBigint
  rw [h]
  rfl

lemma prefixRadix_cases (units : List CodeUnit) : prefixRadix units = 10 ∨
    ∃ letter rest, units = codeUnit '0' :: letter :: rest ∧ PrefixLetter letter (prefixRadix units) := by
  match units with
  | [] => exact .inl rfl
  | [_] => exact .inl rfl
  | zero :: letter :: rest =>
    rw [prefixRadix]
    split
    · next hzero =>
      rw [hzero]
      split
      · next hbinary =>
        rw [Bool.or_eq_true, decide_eq_true_iff, decide_eq_true_iff] at hbinary
        exact .inr ⟨letter, rest, rfl, .binary hbinary⟩
      · split
        · next hoctal =>
          rw [Bool.or_eq_true, decide_eq_true_iff, decide_eq_true_iff] at hoctal
          exact .inr ⟨letter, rest, rfl, .octal hoctal⟩
        · split
          · next hhexadecimal =>
            rw [Bool.or_eq_true, decide_eq_true_iff, decide_eq_true_iff] at hhexadecimal
            exact .inr ⟨letter, rest, rfl, .hexadecimal hhexadecimal⟩
          · exact .inl rfl
    · exact .inl rfl

section
variable {letter : CodeUnit} (h : PrefixLetter letter radix)
include h

lemma prefixRadix_letter (rest : List CodeUnit) :
    prefixRadix (codeUnit '0' :: letter :: rest) = radix := by
  rw [prefixRadix, if_pos rfl]
  cases h with
  | binary h => rcases h with rfl | rfl <;> rfl
  | octal h => rcases h with rfl | rfl <;> rfl
  | hexadecimal h => rcases h with rfl | rfl <;> rfl

lemma PrefixLetter.radix_cases :
    radix = 2 ∨ radix = 8 ∨ radix = 16 := by
  cases h with
  | binary => exact .inl rfl
  | octal => exact .inr (.inl rfl)
  | hexadecimal => exact .inr (.inr rfl)

lemma PrefixLetter.not_blank :
    bigintWhitespace letter = false := by
  cases h with
  | binary h => rcases h with rfl | rfl <;> decide
  | octal h => rcases h with rfl | rfl <;> decide
  | hexadecimal h => rcases h with rfl | rfl <;> decide

/-- The letter of a prefix is no decimal digit. -/
lemma PrefixLetter.not_digit (hdigit : digit < 10) :
    ¬DigitOf letter digit := by
  intro hof
  rcases hof with rfl | ⟨hle, -⟩
  · have hnot : ∀ digit : Fin 10, digitUnit digit ≠ codeUnit 'b' ∧ digitUnit digit ≠ codeUnit 'B' ∧
        digitUnit digit ≠ codeUnit 'o' ∧ digitUnit digit ≠ codeUnit 'O' ∧
        digitUnit digit ≠ codeUnit 'x' ∧ digitUnit digit ≠ codeUnit 'X' := by decide
    obtain ⟨hb, hB, ho, hO, hx, hX⟩ := hnot ⟨digit, hdigit⟩
    cases h with
    | binary h => exact h.elim hb hB
    | octal h => exact h.elim ho hO
    | hexadecimal h => exact h.elim hx hX
  · omega

end

lemma prefixRadix_decimal (h : DigitText 10 units n) : prefixRadix units = 10 := by
  rcases prefixRadix_cases units with hten | ⟨letter, rest, rfl, hletter⟩
  · exact hten
  · obtain ⟨digits, -, hof, hlt, -⟩ := h
    rw [forall₂_cons_left_iff] at hof
    obtain ⟨_, _, -, hof, rfl⟩ := hof
    rw [forall₂_cons_left_iff] at hof
    obtain ⟨digit, _, hdigit, -, rfl⟩ := hof
    exact absurd hdigit (hletter.not_digit
      (hlt digit (mem_cons_of_mem _ mem_cons_self)))

/-- Digits of the radix are read as the integer they make. -/
lemma readDigits_reads (hradix : radix = 2 ∨ radix = 8 ∨ radix = 10 ∨ radix = 16)
    (h : DigitText radix units n) (negative : Bool) :
    ∃ characters, units.mapM (stringDigit radix) = some characters ∧
      Reads (signed negative n) ((bigintLiteral characters radix).bind fun result =>
        if negative && !result.isZero then (bigintNegate result).map some else .ok (some result)) := by
  obtain ⟨digits, hne, hof, hlt, rfl⟩ := h
  refine ⟨_, mapM_stringDigit (by omega) hof hlt, ?_⟩
  have hliteral := bigintLiteral_exact hradix hne hlt
  generalize bigintLiteral (digits.map digitUnit) radix = literal at *
  generalize ofDigits radix digits.reverse = n at *
  refine ⟨literal.bind fun result =>
    if negative && !result.isZero then bigintNegate result else .ok result, ?_, ?_⟩
  · apply hliteral.bind
    · intro _
      rw [natAbs_signed, Int.natAbs_natCast]
    · intro integer hpublishes
      rw [hpublishes.holds.isZero]
      cases negative with
      | false => exact exact_ok hpublishes
      | true =>
        by_cases hzero : (n : ℤ) = 0
        · rw [decide_eq_true hzero]
          have hn : n = 0 := by omega
          subst hn
          exact exact_ok hpublishes
        · rw [decide_eq_false hzero]
          exact negate_exact hpublishes.holds
  · cases literal with
    | error _ => rfl
    | ok result =>
      show (if _ then _ else _) = Except.map some (if _ then _ else _)
      split <;> rfl

lemma DigitText.isEmpty (h : DigitText radix units n) : units.isEmpty = false := by
  obtain ⟨digits, hne, hof, -, -⟩ := h
  cases hof with
  | nil => exact absurd rfl hne
  | cons => rfl

/-- Decimal digits behind an optional sign. -/
lemma readInteger_decimal (h : DigitText 10 units n) (hasSign negative : Bool) :
    Reads (signed negative n) (readInteger hasSign negative units) := by
  obtain ⟨characters, hcharacters, hreads⟩ := readDigits_reads (by omega) h negative
  have hdigits : (if (10 : ℕ) ≠ 10 then units.drop 2 else units) = units := if_neg (by decide)
  unfold readInteger
  dsimp only
  rw [prefixRadix_decimal h, if_neg (by simp), hdigits, h.isEmpty, if_neg Bool.false_ne_true,
    hcharacters]
  exact hreads

/-- Digits behind a prefix, which has no sign. -/
lemma readInteger_prefixed {letter : CodeUnit} (hletter : PrefixLetter letter radix)
    (h : DigitText radix units n) :
    Reads n (readInteger false false (codeUnit '0' :: letter :: units)) := by
  have hradix := hletter.radix_cases
  obtain ⟨characters, hcharacters, hreads⟩ := readDigits_reads (by omega) h false
  have hdigits : (if radix ≠ 10 then (codeUnit '0' :: letter :: units).drop 2
      else codeUnit '0' :: letter :: units) = units := if_pos (by omega)
  unfold readInteger
  dsimp only
  rw [prefixRadix_letter hletter, if_neg (by simp), hdigits, h.isEmpty, if_neg Bool.false_ne_true,
    hcharacters]
  exact hreads

/-- All else is refused. -/
lemma readInteger_refuses (hasSign negative : Bool) (units : List CodeUnit) :
    readInteger hasSign negative units = .ok none ∨ (∃ n, DigitText 10 units n) ∨
      (hasSign = false ∧ ∃ letter radix rest n, units = codeUnit '0' :: letter :: rest ∧
        PrefixLetter letter radix ∧ DigitText radix rest n) := by
  have haccepted : ∀ digits : List CodeUnit, prefixRadix units ≤ 16 → digits.isEmpty = false →
      (∃ n, DigitText (prefixRadix units) digits n) ∨
        digits.mapM (stringDigit (prefixRadix units)) = none := by
    intro digits hradix hne
    cases hread : digits.mapM (stringDigit (prefixRadix units)) with
    | none => exact .inr rfl
    | some characters =>
      obtain ⟨values, hof, hlt, -⟩ := mapM_stringDigit_some hradix hread
      refine .inl ⟨_, values, ?_, hof, hlt, rfl⟩
      rintro rfl
      cases hof
      cases hne
  unfold readInteger
  dsimp only
  rcases prefixRadix_cases units with hten | ⟨letter, rest, rfl, hletter⟩
  · have hdigits : (if (10 : ℕ) ≠ 10 then units.drop 2 else units) = units := if_neg (by decide)
    rw [hten] at haccepted ⊢
    rw [if_neg (by simp), hdigits]
    cases hempty : units.isEmpty with
    | true => exact .inl rfl
    | false =>
      rcases haccepted units (by decide) hempty with htext | hnone
      · exact .inr (.inl htext)
      · rw [hnone]
        exact .inl rfl
  · have hradix := hletter.radix_cases
    have hdigits : (if prefixRadix (codeUnit '0' :: letter :: rest) ≠ 10
        then (codeUnit '0' :: letter :: rest).drop 2 else codeUnit '0' :: letter :: rest) = rest :=
      if_pos (by omega)
    rw [hdigits]
    cases hasSign with
    | true =>
      left
      rw [if_pos]
      rw [decide_eq_true (by omega), Bool.true_and]
    | false =>
      rw [Bool.and_false, if_neg Bool.false_ne_true]
      cases hempty : rest.isEmpty with
      | true => exact .inl rfl
      | false =>
        rcases haccepted rest (by omega) hempty with ⟨n, htext⟩ | hnone
        · exact .inr (.inr ⟨rfl, letter, _, rest, n, rfl, hletter, htext⟩)
        · rw [hnone]
          exact .inl rfl

/-! ## White space -/

lemma bigintWhitespace_iff : bigintWhitespace unit = true ↔ unit ∈ strWhiteSpace := by
  have hrange : ∀ n : ℕ, 8192 ≤ n ∧ n ≤ 8202 ↔ n = 8192 ∨ n = 8193 ∨ n = 8194 ∨ n = 8195 ∨
      n = 8196 ∨ n = 8197 ∨ n = 8198 ∨ n = 8199 ∨ n = 8200 ∨ n = 8201 ∨ n = 8202 := by
    omega
  unfold bigintWhitespace strWhiteSpace
  simp only [Bool.or_eq_true, Bool.and_eq_true, decide_eq_true_iff, mem_cons,
    not_mem_nil, or_false, UInt16.le_iff_toNat_le, ← UInt16.toNat_inj, UInt16.reduceToNat,
    hrange, or_assoc]
  simp only [or_comm, or_left_comm]

section Trim

variable {α : Type} {p : α → Bool} {left middle right list : List α}

lemma dropWhile_none (h : ∀ a ∈ middle, p a = false) : middle.dropWhile p = middle := by
  cases middle with
  | nil => rfl
  | cons a middle =>
    apply dropWhile_cons_of_neg
    rw [h a mem_cons_self]
    exact Bool.false_ne_true

/-- What stands between blanks, and has none itself, is left. -/
lemma trim_append (hleft : ∀ a ∈ left, p a = true) (hright : ∀ a ∈ right, p a = true)
    (hmiddle : ∀ a ∈ middle, p a = false) :
    ((left ++ middle ++ right).dropWhile p).rdropWhile p = middle := by
  have hfront : (left ++ middle ++ right).dropWhile p = middle ++ right ∨ middle = [] ∧
      (left ++ middle ++ right).dropWhile p = [] := by
    rw [append_assoc, dropWhile_append_of_pos hleft]
    cases middle with
    | nil =>
      right
      refine ⟨rfl, ?_⟩
      rw [nil_append, ← append_nil right, dropWhile_append_of_pos hright, dropWhile_nil]
    | cons a middle =>
      left
      apply dropWhile_cons_of_neg
      rw [hmiddle a mem_cons_self]
      exact Bool.false_ne_true
  rcases hfront with hfront | ⟨rfl, hfront⟩
  · unfold rdropWhile
    rw [hfront, reverse_append, dropWhile_append_of_pos fun a hmem => hright a (mem_reverse.mp hmem),
      dropWhile_none fun a hmem => hmiddle a (mem_reverse.mp hmem), reverse_reverse]
  · rw [hfront]
    rfl

/-- What is left stands between blanks. -/
lemma trim_split (list : List α) : ∃ left right, (∀ a ∈ left, p a = true) ∧ (∀ a ∈ right, p a = true) ∧
    list = left ++ (list.dropWhile p).rdropWhile p ++ right := by
  refine ⟨list.takeWhile p, (list.dropWhile p).rtakeWhile p, ?_, ?_, ?_⟩
  · intro a hmem
    exact mem_takeWhile_imp hmem
  · intro a hmem
    exact mem_rtakeWhile_imp hmem
  · rw [append_assoc, rdropWhile_append_rtakeWhile, takeWhile_append_dropWhile]

end Trim

/-! ## Strings -/

lemma DigitOf.facts (h : DigitOf unit digit) (hdigit : digit < 16) :
    bigintWhitespace unit = false ∧ unit ≠ codeUnit '+' ∧ unit ≠ codeUnit '-' := by
  have hfacts : ∀ digit : Fin 16, (bigintWhitespace (digitUnit digit) = false ∧
      digitUnit digit ≠ codeUnit '+' ∧ digitUnit digit ≠ codeUnit '-') ∧
      bigintWhitespace (capitalUnit digit) = false ∧
      capitalUnit digit ≠ codeUnit '+' ∧ capitalUnit digit ≠ codeUnit '-' := by decide
  rcases h with rfl | ⟨-, rfl⟩
  · exact (hfacts ⟨digit, hdigit⟩).1
  · exact (hfacts ⟨digit, hdigit⟩).2

lemma DigitText.facts (hradix : radix ≤ 16) (h : DigitText radix units n) :
    units ≠ [] ∧ ∀ unit ∈ units, bigintWhitespace unit = false ∧ unit ≠ codeUnit '+' ∧
      unit ≠ codeUnit '-' := by
  obtain ⟨digits, hne, hof, hlt, -⟩ := h
  constructor
  · rintro rfl
    cases hof
    exact hne rfl
  · intro unit hmem
    obtain ⟨index, hindex, rfl⟩ := mem_iff_getElem.mp hmem
    have hlength := hof.length_eq
    apply (Forall₂.get hof hindex (by omega)).facts
    exact (hlt _ (getElem_mem _)).trans_le hradix

/-- A literal has no white space. -/
lemma StrIntegerLiteral.facts (h : StrIntegerLiteral core x) :
    core ≠ [] ∧ ∀ unit ∈ core, bigintWhitespace unit = false := by
  have hsign : bigintWhitespace (codeUnit '+') = false ∧ bigintWhitespace (codeUnit '-') = false ∧
      bigintWhitespace (codeUnit '0') = false := by decide
  cases h with
  | decimal h =>
    obtain ⟨hne, hunits⟩ := h.facts (by decide)
    exact ⟨hne, fun unit hmem => (hunits unit hmem).1⟩
  | plus h =>
    refine ⟨cons_ne_nil _ _, forall_mem_cons.mpr ⟨hsign.1, fun unit hmem => ?_⟩⟩
    exact ((h.facts (by decide)).2 unit hmem).1
  | minus h =>
    refine ⟨cons_ne_nil _ _, forall_mem_cons.mpr ⟨hsign.2.1, fun unit hmem => ?_⟩⟩
    exact ((h.facts (by decide)).2 unit hmem).1
  | prefixed hletter h =>
    have hradix := hletter.radix_cases
    have hblank : bigintWhitespace _ = false := hletter.not_blank
    refine ⟨cons_ne_nil _ _, forall_mem_cons.mpr ⟨hsign.2.2,
      forall_mem_cons.mpr ⟨hblank, fun unit hmem => ?_⟩⟩⟩
    exact ((h.facts (by omega)).2 unit hmem).1

/-- The units that `oseo_internal_string_to_bigint` looks at. -/
def trimmed (units : List CodeUnit) : List CodeUnit :=
  (units.dropWhile bigintWhitespace).rdropWhile bigintWhitespace

/-- A literal that is trimmed is read. -/
lemma stringToBigint_literal (htrimmed : trimmed units = core) (h : StrIntegerLiteral core x) :
    Reads x (stringToBigint units) := by
  cases h with
  | decimal h =>
    obtain ⟨hne, hunits⟩ := h.facts (by decide)
    obtain ⟨first, rest, rfl⟩ := exists_cons_of_ne_nil hne
    obtain ⟨-, hplus, hminus⟩ := hunits first mem_cons_self
    rw [stringToBigint_cons htrimmed, decide_eq_false hplus, decide_eq_false hminus]
    exact readInteger_decimal h false false
  | plus h =>
    rw [stringToBigint_cons htrimmed]
    exact readInteger_decimal h true false
  | minus h =>
    rw [stringToBigint_cons htrimmed]
    exact readInteger_decimal h true true
  | prefixed hletter h =>
    rw [stringToBigint_cons htrimmed]
    exact readInteger_prefixed hletter h

/-- Everything else is refused. -/
lemma stringToBigint_refuses (units : List CodeUnit) :
    stringToBigint units = .ok none ∨ ∃ x, StringIntegerLiteral units x := by
  obtain ⟨before, after, hbefore, hafter, hsplit⟩ := @trim_split _ bigintWhitespace units
  have hblank : Blank before := fun unit hmem => bigintWhitespace_iff.mp (hbefore unit hmem)
  have hblank' : Blank after := fun unit hmem => bigintWhitespace_iff.mp (hafter unit hmem)
  have hliteral : (∃ x, StrIntegerLiteral (trimmed units) x) → ∃ x, StringIntegerLiteral units x := by
    rintro ⟨x, hcore⟩
    refine ⟨x, ?_⟩
    rw [hsplit]
    exact .literal hblank hcore hblank'
  cases htrimmed : trimmed units with
  | nil =>
    right
    refine ⟨0, ?_⟩
    apply StringIntegerLiteral.blank
    have hunits : units = before ++ trimmed units ++ after := hsplit
    rw [hunits, htrimmed, append_nil]
    intro unit hmem
    rcases mem_append.mp hmem with hmem | hmem
    · exact hblank unit hmem
    · exact hblank' unit hmem
  | cons first rest =>
    rw [htrimmed] at hliteral
    rw [stringToBigint_cons htrimmed]
    by_cases hplus : first = codeUnit '+'
    · subst hplus
      rcases readInteger_refuses true false rest with hnone | ⟨n, hdecimal⟩ | ⟨hcontra, -⟩
      · exact .inl hnone
      · exact .inr (hliteral ⟨n, .plus hdecimal⟩)
      · cases hcontra
    · by_cases hminus : first = codeUnit '-'
      · subst hminus
        rcases readInteger_refuses true true rest with hnone | ⟨n, hdecimal⟩ | ⟨hcontra, -⟩
        · exact .inl hnone
        · exact .inr (hliteral ⟨-n, .minus hdecimal⟩)
        · cases hcontra
      · rw [decide_eq_false hplus, decide_eq_false hminus]
        rcases readInteger_refuses false false (first :: rest) with
          hnone | ⟨n, hdecimal⟩ | ⟨-, letter, radix, digits, n, heq, hletter, hdigits⟩
        · exact .inl hnone
        · exact .inr (hliteral ⟨n, .decimal hdecimal⟩)
        · rw [heq] at hliteral
          exact .inr (hliteral ⟨n, .prefixed hletter hdigits⟩)

/-- A StringIntegerLiteral is read as its value. -/
lemma stringToBigint_reads (h : StringIntegerLiteral units x) : Reads x (stringToBigint units) := by
  cases h with
  | blank h =>
    have htrimmed : trimmed units = [] := by
      have htrim := @trim_append _ bigintWhitespace units [] []
        (fun unit hmem => bigintWhitespace_iff.mpr (h unit hmem)) (by simp) (by simp)
      rwa [append_nil, append_nil] at htrim
    refine ⟨smallBigint false 0, smallBigint_exact base_pos false, ?_⟩
    unfold stringToBigint
    rw [show (units.dropWhile bigintWhitespace).rdropWhile bigintWhitespace = [] from htrimmed]
  | literal hbefore hcore hafter =>
    apply stringToBigint_literal _ hcore
    exact trim_append (fun unit hmem => bigintWhitespace_iff.mpr (hbefore unit hmem))
      (fun unit hmem => bigintWhitespace_iff.mpr (hafter unit hmem)) hcore.facts.2

/-! ## Round trip -/

lemma ofDigits_numeralDigits (radix n : ℕ) :
    ofDigits radix (numeralDigits radix n).reverse = n := by
  unfold numeralDigits
  split
  · next hzero => rw [hzero, reverse_singleton, Nat.ofDigits_singleton]
  · rw [reverse_reverse, Nat.ofDigits_digits]

/-- A numeral is a literal of its number. -/
lemma numeral_digitText (hradix : 2 ≤ radix) (n : ℕ) :
    DigitText radix ((numeralDigits radix n).map digitUnit) n := by
  refine ⟨numeralDigits radix n, numeralDigits_ne_nil radix n, ?_, numeralDigits_lt hradix,
    ofDigits_numeralDigits radix n⟩
  rw [forall₂_map_left_iff, forall₂_same]
  exact fun digit _ => .inl rfl

lemma numeral_literal (x : ℤ) : StrIntegerLiteral (numeral 10 x) x := by
  have htext := numeral_digitText (by decide : 2 ≤ 10) x.natAbs
  unfold numeral
  by_cases hneg : x < 0
  · rw [if_pos hneg]
    have hliteral := StrIntegerLiteral.minus htext
    rwa [show -((x.natAbs : ℕ) : ℤ) = x by omega] at hliteral
  · rw [if_neg hneg]
    have hliteral := StrIntegerLiteral.decimal htext
    rwa [show ((x.natAbs : ℕ) : ℤ) = x by omega] at hliteral

/-- A value has one BigInt. -/
lemma object_unique {a b : OseoBigInt} (h : a.value = b.value) : bigintObject a = bigintObject b := by
  have ha := holds_object a
  have hb := holds_object b
  rw [← h] at hb
  have hlimbs := ha.stands.unique hb.stands ha.normalized hb.normalized
  have hsign := ha.negative.trans hb.negative.symm
  generalize bigintObject a = left at *
  generalize bigintObject b = right at *
  obtain ⟨negative, limbs⟩ := left
  obtain ⟨negative', limbs'⟩ := right
  dsimp only at hlimbs hsign
  rw [hlimbs, hsign]

/-- Reading an integer within the limit of bits. -/
lemma Reads.ok {result : Except BigIntError (Option BigIntObject)} (h : Reads x result)
    (hfits : size x.natAbs ≤ bigintMaxBits) :
    ∃ b : OseoBigInt, result = .ok (some (bigintObject b)) ∧ b.value = x := by
  obtain ⟨integer, hexact, rfl⟩ := h
  obtain ⟨b, rfl, hvalue⟩ := hexact.ok hfits
  exact ⟨b, rfl, hvalue⟩

/-- Reading an integer beyond it. -/
lemma Reads.error {result : Except BigIntError (Option BigIntObject)} (h : Reads x result)
    (hlarge : bigintMaxBits < size x.natAbs) : result = .error bigintLimitError := by
  obtain ⟨integer, hexact, rfl⟩ := h
  unfold Exact at hexact
  rw [if_neg (by omega)] at hexact
  rw [hexact]
  rfl

lemma stringToBigint_some (units : List CodeUnit) (integer : BigIntObject) :
    stringToBigint units = .ok (some integer) ↔
      ∃ b : OseoBigInt, bigintObject b = integer ∧ Fits b ∧ StringIntegerLiteral units b.value := by
  constructor
  · intro h
    rcases stringToBigint_refuses units with hnone | ⟨x, hliteral⟩
    · rw [h] at hnone
      cases hnone
    · have hreads := stringToBigint_reads hliteral
      rcases Nat.lt_or_ge bigintMaxBits (size x.natAbs) with hlarge | hfits
      · rw [hreads.error hlarge] at h
        cases h
      · obtain ⟨b, hresult, hvalue⟩ := hreads.ok hfits
        rw [hresult] at h
        refine ⟨b, Option.some.inj (Except.ok.inj h), ?_, ?_⟩
        · unfold Fits
          rwa [hvalue]
        · rwa [hvalue]
  · rintro ⟨b, rfl, hfits, hliteral⟩
    obtain ⟨b', hresult, hvalue⟩ := (stringToBigint_reads hliteral).ok hfits
    rw [hresult, object_unique hvalue]

lemma stringToBigint_error (units : List CodeUnit) :
    stringToBigint units = .error bigintLimitError ↔
      ∃ x, bigintMaxBits < size x.natAbs ∧ StringIntegerLiteral units x := by
  constructor
  · intro h
    rcases stringToBigint_refuses units with hnone | ⟨x, hliteral⟩
    · rw [h] at hnone
      cases hnone
    · refine ⟨x, ?_, hliteral⟩
      by_contra hfits
      obtain ⟨b, hresult, -⟩ := (stringToBigint_reads hliteral).ok (by omega)
      rw [h] at hresult
      cases hresult
  · rintro ⟨x, hlarge, hliteral⟩
    exact (stringToBigint_reads hliteral).error hlarge

lemma stringToBigint_none (units : List CodeUnit) :
    stringToBigint units = .ok none ↔ ¬∃ x, StringIntegerLiteral units x := by
  constructor
  · rintro h ⟨x, hliteral⟩
    have hreads := stringToBigint_reads hliteral
    rcases Nat.lt_or_ge bigintMaxBits (size x.natAbs) with hlarge | hfits
    · rw [hreads.error hlarge] at h
      cases h
    · obtain ⟨b, hresult, -⟩ := hreads.ok hfits
      rw [hresult] at h
      cases h
  · intro hnot
    exact (stringToBigint_refuses units).resolve_right hnot

lemma radixString_numeral (a : OseoBigInt) (hradix : 2 ≤ radix) (hsmall : radix ≤ 36) :
    bigintRadixString (bigintObject a) radix = .ok (some (numeral radix a.value)) := by
  unfold bigintRadixString
  rw [if_neg (by simp; omega), bigintString_eq (holds_object a) hradix hsmall]

/-- Texts and integers. A numeral is written without a leading zero, its buffer is never too short,
and between any white space it is read back; a string is accepted exactly when it is a literal of an
integer within the limit of bits, which it then returns. -/
theorem text_exact (a : OseoBigInt) :
    (∀ radix, 2 ≤ radix → radix ≤ 36 →
      bigintRadixString (bigintObject a) radix = .ok (some (numeral radix a.value)) ∧
      ((numeralDigits radix a.value.natAbs).head? = some 0 → a.value = 0) ∧
      Nat.ofDigits radix (numeralDigits radix a.value.natAbs).reverse = a.value.natAbs) ∧
    (Fits a → ∀ before after, Blank before → Blank after →
      stringToBigint (before ++ numeral 10 a.value ++ after) = .ok (some (bigintObject a))) ∧
    (∀ units integer, stringToBigint units = .ok (some integer) ↔
      ∃ b : OseoBigInt, bigintObject b = integer ∧ Fits b ∧ StringIntegerLiteral units b.value) ∧
    (∀ units, stringToBigint units = .error bigintLimitError ↔
      ∃ x, bigintMaxBits < Nat.size x.natAbs ∧ StringIntegerLiteral units x) ∧
    (∀ units, stringToBigint units = .ok none ↔ ¬∃ x, StringIntegerLiteral units x) := by
  refine ⟨?_, ?_, stringToBigint_some, stringToBigint_error, stringToBigint_none⟩
  · intro radix hradix hsmall
    refine ⟨radixString_numeral a hradix hsmall, ?_, ofDigits_numeralDigits radix _⟩
    intro hlead
    have hzero := numeralDigits_lead hlead
    omega
  · intro hfits before after hbefore hafter
    apply (stringToBigint_some _ _).mpr
    exact ⟨a, rfl, hfits, .literal hbefore (numeral_literal a.value) hafter⟩

end Oseo.BigInts
