import Mathlib.Data.Nat.Digits.Lemmas

/-!
# Digit lists

Schoolbook arithmetic on decimal digits, the last digit first: each function with what it does to
the number the digits stand for. Long division and the comparison start with the leading digit.
-/

namespace Oseo.NumberFormatting

open List
open Nat (mod_lt ofDigits ofDigits_cons ofDigits_nil)

/-- Decimal digits. -/
def Decimal (digits : List ℕ) : Prop := ∀ digit ∈ digits, digit < 10

/-- The digits without the zeros at the upper end; one digit stays. -/
def trimDigits : List ℕ → List ℕ
  | [] => []
  | digit :: digits =>
    match trimDigits digits with
    | [] => [digit]
    | [0] => [digit]
    | rest => digit :: rest

/-- Digits times a small multiplier, and a carry. -/
def multiplyDigits (multiplier : ℕ) : List ℕ → ℕ → List ℕ
  | [], carry => Nat.digits 10 carry
  | digit :: digits, carry =>
    (digit * multiplier + carry) % 10 ::
      multiplyDigits multiplier digits ((digit * multiplier + carry) / 10)

/-- A carry added to the accumulator from its first place on. -/
def carryDigits : List ℕ → ℕ → List ℕ
  | [], _ => []
  | place :: accumulator, carry =>
    if carry = 0 then place :: accumulator
    else (place + carry) % 10 :: carryDigits accumulator ((place + carry) / 10)

/-- The multiplier times one digit, added to the accumulator. -/
def multiplyRow (digit : ℕ) : List ℕ → List ℕ → ℕ → List ℕ
  | [], accumulator, carry => carryDigits accumulator carry
  | _ :: _, [], _ => []
  | factor :: multiplier, place :: accumulator, carry =>
    (digit * factor + place + carry) % 10 ::
      multiplyRow digit multiplier accumulator ((digit * factor + place + carry) / 10)

/-- All rows, each one place further; later rows leave the first place alone. -/
def multiplyRows (multiplier : List ℕ) : List ℕ → List ℕ → List ℕ
  | [], accumulator => accumulator
  | digit :: digits, accumulator =>
    match multiplyRow digit multiplier accumulator 0 with
    | [] => []
    | place :: rest => place :: multiplyRows multiplier digits rest

/-- The sum of two digit lists and a carry, the shorter one filled up with zeros. -/
def addDigits : List ℕ → List ℕ → ℕ → List ℕ
  | [], [], carry => if carry = 0 then [] else [carry]
  | a :: left, [], carry => (a + carry) % 10 :: addDigits left [] ((a + carry) / 10)
  | [], b :: right, carry => (b + carry) % 10 :: addDigits [] right ((b + carry) / 10)
  | a :: left, b :: right, carry => (a + b + carry) % 10 :: addDigits left right ((a + b + carry) / 10)

/-- The difference of two digit lists and a borrow. -/
def subtractDigits : List ℕ → List ℕ → ℕ → List ℕ
  | [], _, _ => []
  | a :: left, right, borrow =>
    if a < right.headD 0 + borrow then
      (a + 10 - right.headD 0 - borrow) :: subtractDigits left right.tail 1
    else (a - right.headD 0 - borrow) :: subtractDigits left right.tail 0

/-- Long division by a small number, the leading digit first: the quotient and the remainder. -/
def divideDigits (divisor : ℕ) : List ℕ → ℕ → List ℕ × ℕ
  | [], remainder => ([], remainder)
  | digit :: digits, remainder =>
    let value := remainder * 10 + digit
    let rest := divideDigits divisor digits (value % divisor)
    (value / divisor :: rest.1, rest.2)

/-- Digit lists of one length, the leading digit first. -/
def compareDigits : List ℕ → List ℕ → Ordering
  | a :: left, b :: right =>
    if a ≠ b then (if a < b then .lt else .gt) else compareDigits left right
  | _, _ => .eq

/-! ## Decimal digits -/

lemma decimal_cons {digit : ℕ} {digits : List ℕ} :
    Decimal (digit :: digits) ↔ digit < 10 ∧ Decimal digits := forall_mem_cons

lemma decimal_nil : Decimal [] := fun _ h => absurd h not_mem_nil

lemma decimal_zero : Decimal [0] := decimal_cons.mpr ⟨by decide, decimal_nil⟩

lemma mod_ten_lt (n : ℕ) : n % 10 < 10 := mod_lt n (by decide)

/-- A digit and what is carried over make up the number again. -/
lemma ofDigits_carry (n rest : ℕ) : n % 10 + 10 * (n / 10 + rest) = n + 10 * rest := by omega

lemma decimal_digits (n : ℕ) : Decimal (Nat.digits 10 n) :=
  fun _ h => Nat.digits_lt_base (by decide) h

/-! ## Trimming -/

lemma trimDigits_ne_nil {digits : List ℕ} (h : digits ≠ []) : trimDigits digits ≠ [] := by
  cases digits with
  | nil => exact absurd rfl h
  | cons digit digits =>
    unfold trimDigits
    split <;> exact cons_ne_nil _ _

lemma decimal_trimDigits {digits : List ℕ} (h : Decimal digits) : Decimal (trimDigits digits) := by
  induction digits with
  | nil => exact h
  | cons digit digits ih =>
    obtain ⟨hdigit, hrest⟩ := decimal_cons.mp h
    have hone : Decimal [digit] := decimal_cons.mpr ⟨hdigit, decimal_nil⟩
    unfold trimDigits
    split
    · exact hone
    · exact hone
    · exact decimal_cons.mpr ⟨hdigit, ih hrest⟩

/-- Trimming changes no value. -/
lemma ofDigits_trimDigits (digits : List ℕ) :
    ofDigits 10 (trimDigits digits) = ofDigits 10 digits := by
  induction digits with
  | nil => rfl
  | cons digit digits ih =>
    unfold trimDigits
    rw [ofDigits_cons, ← ih]
    split
    · rename_i heq
      rw [heq, ofDigits_nil, Nat.ofDigits_singleton, mul_zero, add_zero]
    · rename_i heq
      rw [heq, Nat.ofDigits_singleton, Nat.ofDigits_singleton, mul_zero, add_zero]
    · exact ofDigits_cons

/-- No digit list of more than one digit has a zero at its upper end. -/
def Trimmed (digits : List ℕ) : Prop := 1 < digits.length → digits.getLast? ≠ some 0

lemma trimmed_trimDigits (digits : List ℕ) : Trimmed (trimDigits digits) := by
  induction digits with
  | nil => exact fun h => absurd h (by decide)
  | cons digit digits ih =>
    unfold trimDigits
    split
    · exact fun h => absurd h (lt_irrefl _)
    · exact fun h => absurd h (lt_irrefl _)
    · rename_i hnil hzero
      intro _
      -- the upper end is that of the rest
      have hne : trimDigits digits ≠ [] := hnil
      rw [getLast?_cons_of_ne_nil hne]
      by_cases hlength : 1 < (trimDigits digits).length
      · exact ih hlength
      · obtain ⟨last, hlast⟩ := length_eq_one_iff.mp (le_antisymm (not_lt.mp hlength)
          (length_pos_of_ne_nil hne))
        rw [hlast] at hzero ⊢
        intro heq
        rw [getLast?_singleton, Option.some_inj] at heq
        exact hzero (by rw [heq])

/-! ## Multiplication -/

lemma decimal_multiplyDigits (multiplier carry : ℕ) (digits : List ℕ) :
    Decimal (multiplyDigits multiplier digits carry) := by
  induction digits generalizing carry with
  | nil => exact decimal_digits carry
  | cons digit digits ih => exact decimal_cons.mpr ⟨mod_ten_lt _, ih _⟩

lemma ofDigits_multiplyDigits (multiplier carry : ℕ) (digits : List ℕ) :
    ofDigits 10 (multiplyDigits multiplier digits carry) =
      ofDigits 10 digits * multiplier + carry := by
  induction digits generalizing carry with
  | nil =>
    show ofDigits 10 (Nat.digits 10 carry) = 0 * multiplier + carry
    rw [Nat.ofDigits_digits, zero_mul, zero_add]
  | cons digit digits ih =>
    unfold multiplyDigits
    rw [ofDigits_cons, ofDigits_cons, ih]
    have hcarry := ofDigits_carry (digit * multiplier + carry)
      (ofDigits 10 digits * multiplier)
    rw [add_comm (_ / 10)] at hcarry
    linarith

lemma length_carryDigits (accumulator : List ℕ) (carry : ℕ) :
    (carryDigits accumulator carry).length = accumulator.length := by
  induction accumulator generalizing carry with
  | nil => rfl
  | cons place accumulator ih =>
    unfold carryDigits
    split
    · rfl
    · rw [length_cons, length_cons, ih]

lemma length_multiplyRow (digit : ℕ) (multiplier accumulator : List ℕ) (carry : ℕ) :
    (multiplyRow digit multiplier accumulator carry).length = accumulator.length := by
  induction multiplier generalizing accumulator carry with
  | nil => exact length_carryDigits accumulator carry
  | cons factor multiplier ih =>
    cases accumulator with
    | nil => rfl
    | cons place accumulator =>
      unfold multiplyRow
      rw [length_cons, length_cons, ih]

lemma length_multiplyRows (multiplier digits accumulator : List ℕ) :
    (multiplyRows multiplier digits accumulator).length = accumulator.length := by
  induction digits generalizing accumulator with
  | nil => rfl
  | cons digit digits ih =>
    have hlength := length_multiplyRow digit multiplier accumulator 0
    unfold multiplyRows
    split
    · rename_i heq
      rw [heq] at hlength
      exact hlength
    · rename_i place rest heq
      rw [heq] at hlength
      rw [← hlength, length_cons, length_cons, ih]

lemma decimal_carryDigits {accumulator : List ℕ} (h : Decimal accumulator) (carry : ℕ) :
    Decimal (carryDigits accumulator carry) := by
  induction accumulator generalizing carry with
  | nil => exact h
  | cons place accumulator ih =>
    unfold carryDigits
    split
    · exact h
    · exact decimal_cons.mpr ⟨mod_ten_lt _, ih (decimal_cons.mp h).2 _⟩

lemma decimal_multiplyRow {accumulator : List ℕ} (h : Decimal accumulator) (digit : ℕ)
    (multiplier : List ℕ) (carry : ℕ) :
    Decimal (multiplyRow digit multiplier accumulator carry) := by
  induction multiplier generalizing accumulator carry with
  | nil => exact decimal_carryDigits h carry
  | cons factor multiplier ih =>
    cases accumulator with
    | nil => exact decimal_nil
    | cons place accumulator =>
      exact decimal_cons.mpr ⟨mod_ten_lt _, ih (decimal_cons.mp h).2 _⟩

lemma decimal_multiplyRows {accumulator : List ℕ} (h : Decimal accumulator)
    (multiplier digits : List ℕ) : Decimal (multiplyRows multiplier digits accumulator) := by
  induction digits generalizing accumulator with
  | nil => exact h
  | cons digit digits ih =>
    have hrow := decimal_multiplyRow h digit multiplier 0
    unfold multiplyRows
    split
    · exact decimal_nil
    · rename_i place rest heq
      rw [heq] at hrow
      obtain ⟨hplace, hrest⟩ := decimal_cons.mp hrow
      exact decimal_cons.mpr ⟨hplace, ih hrest⟩

/-- What leaves the accumulator is a multiple of its room. -/
lemma ofDigits_carryDigits (accumulator : List ℕ) (carry : ℕ) :
    ofDigits 10 (carryDigits accumulator carry) ≡
      ofDigits 10 accumulator + carry [MOD 10 ^ accumulator.length] := by
  induction accumulator generalizing carry with
  | nil => exact Nat.modEq_one
  | cons place accumulator ih =>
    unfold carryDigits
    split
    · rename_i hzero
      rw [hzero, add_zero]
    · rw [ofDigits_cons, ofDigits_cons, length_cons, pow_succ']
      have hrest := ((ih ((place + carry) / 10)).mul_left' 10).add_left ((place + carry) % 10)
      have hcarry := ofDigits_carry (place + carry) (ofDigits 10 accumulator)
      rw [add_comm (_ / 10)] at hcarry
      rw [hcarry] at hrest
      rwa [add_right_comm]

lemma ofDigits_multiplyRow (digit : ℕ) {multiplier accumulator : List ℕ} (carry : ℕ)
    (h : multiplier.length ≤ accumulator.length) :
    ofDigits 10 (multiplyRow digit multiplier accumulator carry) ≡
      ofDigits 10 accumulator + digit * ofDigits 10 multiplier + carry
        [MOD 10 ^ accumulator.length] := by
  induction multiplier generalizing accumulator carry with
  | nil => exact ofDigits_carryDigits accumulator carry
  | cons factor multiplier ih =>
    cases accumulator with
    | nil => exact absurd h (Nat.not_succ_le_zero _)
    | cons place accumulator =>
      have hlength := Nat.succ_le_succ_iff.mp h
      unfold multiplyRow
      rw [ofDigits_cons, ofDigits_cons, ofDigits_cons, length_cons, pow_succ']
      have hrest := ((ih ((digit * factor + place + carry) / 10) hlength).mul_left' 10).add_left
        ((digit * factor + place + carry) % 10)
      have hcarry := ofDigits_carry (digit * factor + place + carry)
        (ofDigits 10 accumulator + digit * ofDigits 10 multiplier)
      rw [add_comm (_ / 10)] at hcarry
      rw [hcarry] at hrest
      have hsum : place + 10 * ofDigits 10 accumulator +
          digit * (factor + 10 * ofDigits 10 multiplier) + carry =
          digit * factor + place + carry +
            10 * (ofDigits 10 accumulator + digit * ofDigits 10 multiplier) := by ring
      rwa [hsum]

lemma ofDigits_multiplyRows {multiplier digits accumulator : List ℕ}
    (h : digits.length + multiplier.length ≤ accumulator.length) :
    ofDigits 10 (multiplyRows multiplier digits accumulator) ≡
      ofDigits 10 accumulator + ofDigits 10 digits * ofDigits 10 multiplier
        [MOD 10 ^ accumulator.length] := by
  induction digits generalizing accumulator with
  | nil =>
    rw [ofDigits_nil, zero_mul, add_zero]
    rfl
  | cons digit digits ih =>
    rw [length_cons] at h
    have hlength := length_multiplyRow digit multiplier accumulator 0
    have hrow := ofDigits_multiplyRow digit 0 (by omega : multiplier.length ≤ accumulator.length)
    unfold multiplyRows
    split
    · rename_i heq
      rw [heq, length_nil] at hlength
      omega
    · rename_i place rest heq
      rw [heq] at hlength hrow
      rw [length_cons] at hlength
      have hrest := ((ih (by omega : digits.length + multiplier.length ≤ rest.length)).mul_left'
        10).add_left place
      rw [← pow_succ', hlength] at hrest
      rw [ofDigits_cons]
      apply hrest.trans
      rw [mul_add, ← add_assoc]
      rw [ofDigits_cons] at hrow
      apply (hrow.add_right _).trans
      rw [ofDigits_cons, add_zero, add_mul, add_assoc, mul_assoc]

/-- The accumulator has room for the product. -/
lemma ofDigits_product {multiplier digits : List ℕ} (hdigits : Decimal digits)
    (hmultiplier : Decimal multiplier) :
    ofDigits 10 (multiplyRows multiplier digits
        (replicate (digits.length + multiplier.length) 0)) =
      ofDigits 10 digits * ofDigits 10 multiplier := by
  have hrows := @ofDigits_multiplyRows multiplier digits
    (replicate (digits.length + multiplier.length) 0) (by rw [length_replicate])
  rw [length_replicate, Nat.ofDigits_replicate_zero, zero_add] at hrows
  have hzeros : Decimal (replicate (digits.length + multiplier.length) 0) := by
    intro digit h
    rw [(mem_replicate.mp h).2]
    decide
  have hlow := Nat.ofDigits_lt_base_pow_length (by decide : 1 < 10)
    (decimal_multiplyRows hzeros multiplier digits)
  rw [length_multiplyRows, length_replicate] at hlow
  have hleft := Nat.ofDigits_lt_base_pow_length (by decide : 1 < 10) hdigits
  have hright := Nat.ofDigits_lt_base_pow_length (by decide : 1 < 10) hmultiplier
  apply Nat.ModEq.eq_of_lt_of_lt hrows hlow
  rw [pow_add]
  exact Nat.mul_lt_mul'' hleft hright

/-! ## Addition and subtraction -/

lemma decimal_addDigits {left right : List ℕ} {carry : ℕ} (hcarry : carry < 10) (hleft : Decimal left)
    (hright : Decimal right) : Decimal (addDigits left right carry) := by
  fun_induction addDigits left right carry with
  | case1 => exact decimal_nil
  | case2 carry hne => exact decimal_cons.mpr ⟨hcarry, decimal_nil⟩
  | case3 carry a left ih =>
    obtain ⟨ha, hleft⟩ := decimal_cons.mp hleft
    exact decimal_cons.mpr ⟨mod_ten_lt _, ih (by omega) hleft hright⟩
  | case4 carry b right ih =>
    obtain ⟨hb, hright⟩ := decimal_cons.mp hright
    exact decimal_cons.mpr ⟨mod_ten_lt _, ih (by omega) hleft hright⟩
  | case5 carry a left b right ih =>
    obtain ⟨ha, hleft⟩ := decimal_cons.mp hleft
    obtain ⟨hb, hright⟩ := decimal_cons.mp hright
    exact decimal_cons.mpr ⟨mod_ten_lt _, ih (by omega) hleft hright⟩

lemma ofDigits_addDigits (left right : List ℕ) (carry : ℕ) :
    ofDigits 10 (addDigits left right carry) =
      ofDigits 10 left + ofDigits 10 right + carry := by
  fun_induction addDigits left right carry with
  | case1 => rfl
  | case2 carry hne =>
    rw [Nat.ofDigits_singleton, ofDigits_nil]
    omega
  | case3 carry a left ih =>
    rw [ofDigits_cons, ofDigits_cons, ih, ofDigits_nil]
    omega
  | case4 carry b right ih =>
    rw [ofDigits_cons, ofDigits_cons, ih, ofDigits_nil]
    omega
  | case5 carry a left b right ih =>
    rw [ofDigits_cons, ofDigits_cons, ofDigits_cons, ih]
    omega

lemma addDigits_ne_nil {left : List ℕ} (h : left ≠ []) (right : List ℕ) (carry : ℕ) :
    addDigits left right carry ≠ [] := by
  fun_cases addDigits left right carry with
  | case1 => exact absurd rfl h
  | case2 => exact cons_ne_nil _ _
  | case3 => exact cons_ne_nil _ _
  | case4 => exact cons_ne_nil _ _
  | case5 => exact cons_ne_nil _ _

lemma decimal_subtractDigits {left right : List ℕ} {borrow : ℕ} (hleft : Decimal left) :
    Decimal (subtractDigits left right borrow) := by
  induction left generalizing right borrow with
  | nil => exact decimal_nil
  | cons a left ih =>
    obtain ⟨ha, hleft⟩ := decimal_cons.mp hleft
    unfold subtractDigits
    split
    · exact decimal_cons.mpr ⟨by omega, ih hleft⟩
    · exact decimal_cons.mpr ⟨by omega, ih hleft⟩

lemma length_subtractDigits (left right : List ℕ) (borrow : ℕ) :
    (subtractDigits left right borrow).length = left.length := by
  induction left generalizing right borrow with
  | nil => rfl
  | cons a left ih =>
    unfold subtractDigits
    split <;> rw [length_cons, length_cons, ih]

lemma ofDigits_headD_tail (digits : List ℕ) :
    digits.headD 0 + 10 * ofDigits 10 digits.tail = ofDigits 10 digits := by
  cases digits with
  | nil => rfl
  | cons digit digits => exact ofDigits_cons.symm

/-- The difference, where it is not negative. -/
lemma ofDigits_subtractDigits {left right : List ℕ} {borrow : ℕ} (hleft : Decimal left)
    (hright : Decimal right) (hborrow : borrow ≤ 1)
    (h : ofDigits 10 right + borrow ≤ ofDigits 10 left) :
    ofDigits 10 (subtractDigits left right borrow) + (ofDigits 10 right + borrow) =
      ofDigits 10 left := by
  induction left generalizing right borrow with
  | nil =>
    show 0 + (ofDigits 10 right + borrow) = 0
    rw [ofDigits_nil] at h
    omega
  | cons a left ih =>
    obtain ⟨ha, hleft⟩ := decimal_cons.mp hleft
    have hsplit := ofDigits_headD_tail right
    have htail : Decimal right.tail := fun digit hmem => hright digit (mem_of_mem_tail hmem)
    have hb : right.headD 0 < 10 := by
      cases right with
      | nil => decide
      | cons b right => exact (decimal_cons.mp hright).1
    rw [ofDigits_cons] at h ⊢
    unfold subtractDigits
    split
    · rename_i hlt
      have hrest := ih hleft htail (le_refl 1) (by omega)
      rw [ofDigits_cons]
      omega
    · rename_i hge
      have hrest := ih hleft htail (Nat.zero_le 1) (by omega)
      rw [ofDigits_cons]
      omega

/-! ## Division -/

lemma length_divideDigits (divisor remainder : ℕ) (digits : List ℕ) :
    (divideDigits divisor digits remainder).1.length = digits.length := by
  induction digits generalizing remainder with
  | nil => rfl
  | cons digit digits ih =>
    show (divideDigits divisor digits _).1.length + 1 = digits.length + 1
    rw [ih]

lemma decimal_divideDigits {divisor remainder : ℕ} {digits : List ℕ} (hdivisor : 0 < divisor)
    (hremainder : remainder < divisor) (h : Decimal digits) :
    Decimal (divideDigits divisor digits remainder).1 := by
  induction digits generalizing remainder with
  | nil => exact decimal_nil
  | cons digit digits ih =>
    obtain ⟨hdigit, hrest⟩ := decimal_cons.mp h
    refine decimal_cons.mpr ⟨?_, ih (mod_lt _ hdivisor) hrest⟩
    rw [Nat.div_lt_iff_lt_mul hdivisor]
    omega

/-- Long division, a remainder in front of the digits. -/
lemma divideDigits_eq (divisor remainder : ℕ) (digits : List ℕ) :
    remainder * 10 ^ digits.length + ofDigits 10 digits.reverse =
      ofDigits 10 (divideDigits divisor digits remainder).1.reverse * divisor +
        (divideDigits divisor digits remainder).2 := by
  induction digits generalizing remainder with
  | nil =>
    show remainder * 1 + 0 = 0 * divisor + remainder
    omega
  | cons digit digits ih =>
    have hrest := ih ((remainder * 10 + digit) % divisor)
    have hdiv := Nat.div_add_mod (remainder * 10 + digit) divisor
    show remainder * 10 ^ (digits.length + 1) + ofDigits 10 (digit :: digits).reverse =
      ofDigits 10 ((remainder * 10 + digit) / divisor ::
        (divideDigits divisor digits ((remainder * 10 + digit) % divisor)).1).reverse * divisor +
        (divideDigits divisor digits ((remainder * 10 + digit) % divisor)).2
    rw [Nat.ofDigits_reverse_cons, Nat.ofDigits_reverse_cons, length_divideDigits]
    calc remainder * 10 ^ (digits.length + 1) +
          (ofDigits 10 digits.reverse + 10 ^ digits.length * digit)
        = (remainder * 10 + digit) * 10 ^ digits.length + ofDigits 10 digits.reverse := by ring
      _ = (divisor * ((remainder * 10 + digit) / divisor)) * 10 ^ digits.length +
          ((remainder * 10 + digit) % divisor * 10 ^ digits.length +
            ofDigits 10 digits.reverse) := by
        nth_rewrite 1 [← hdiv]
        ring
      _ = _ := by
        rw [hrest]
        ring

lemma divideDigits_lt {divisor remainder : ℕ} {digits : List ℕ} (hdivisor : 0 < divisor)
    (h : remainder < divisor) : (divideDigits divisor digits remainder).2 < divisor := by
  induction digits generalizing remainder with
  | nil => exact h
  | cons digit digits ih => exact ih (mod_lt _ hdivisor)

/-! ## Comparison -/

/-- Digit lists of one length compare as their numbers. -/
lemma compareDigits_eq {left right : List ℕ} (hleft : Decimal left) (hright : Decimal right)
    (h : left.length = right.length) :
    compareDigits left right =
      compare (ofDigits 10 left.reverse) (ofDigits 10 right.reverse) := by
  induction left generalizing right with
  | nil =>
    rw [eq_nil_of_length_eq_zero h.symm]
    exact (compare_eq_iff_eq.mpr rfl).symm
  | cons a left ih =>
    cases right with
    | nil => exact absurd h (Nat.succ_ne_zero _)
    | cons b right =>
      obtain ⟨ha, hleft⟩ := decimal_cons.mp hleft
      obtain ⟨hb, hright⟩ := decimal_cons.mp hright
      have hlength := Nat.succ_inj.mp h
      have hlow := Nat.ofDigits_lt_base_pow_length (by decide : 1 < 10)
        (fun digit hmem => hleft digit (mem_reverse.mp hmem) : ∀ d ∈ left.reverse, d < 10)
      have hhigh := Nat.ofDigits_lt_base_pow_length (by decide : 1 < 10)
        (fun digit hmem => hright digit (mem_reverse.mp hmem) : ∀ d ∈ right.reverse, d < 10)
      rw [length_reverse] at hlow hhigh
      rw [Nat.ofDigits_reverse_cons, Nat.ofDigits_reverse_cons]
      rw [hlength] at hlow ⊢
      unfold compareDigits
      split
      · rename_i hne
        split
        · rename_i hlt
          symm
          rw [compare_lt_iff_lt]
          have hstep : 10 ^ right.length * (a + 1) ≤ 10 ^ right.length * b :=
            Nat.mul_le_mul_left _ hlt
          rw [mul_add, mul_one] at hstep
          omega
        · rename_i hge
          symm
          rw [compare_gt_iff_gt]
          have hstep : 10 ^ right.length * (b + 1) ≤ 10 ^ right.length * a :=
            Nat.mul_le_mul_left _ (by omega)
          rw [mul_add, mul_one] at hstep
          omega
      · rename_i heq
        rw [not_ne_iff.mp heq, ih hleft hright hlength]
        rw [Nat.compare_eq_ite_lt, Nat.compare_eq_ite_lt]
        simp only [add_lt_add_iff_right]

/-- More digits make a larger number. -/
lemma ofDigits_lt_of_length {left right : List ℕ} (hleft : Decimal left) (hright : Trimmed right)
    (h : left.length < right.length) (hne : left ≠ []) :
    ofDigits 10 left < ofDigits 10 right := by
  have hlow := Nat.ofDigits_lt_base_pow_length (by decide : 1 < 10) hleft
  have hlength : 1 < right.length := lt_of_le_of_lt (length_pos_of_ne_nil hne) h
  have hlast := hright hlength
  have hnil : right ≠ [] := ne_nil_of_length_pos (by omega)
  rw [getLast?_eq_some_getLast hnil] at hlast
  have hsplit := dropLast_append_getLast hnil
  have hpower : 10 ^ left.length ≤ 10 ^ right.dropLast.length := by
    apply Nat.pow_le_pow_right (by decide)
    rw [length_dropLast]
    omega
  rw [← hsplit, Nat.ofDigits_append, Nat.ofDigits_singleton]
  have hpos : 1 ≤ right.getLast hnil := Nat.one_le_iff_ne_zero.mpr fun heq => hlast (by rw [heq])
  have hstep := Nat.mul_le_mul_left (10 ^ right.dropLast.length) hpos
  omega

/-! ## Bignums of the number formatter

Integers of any size as their decimal digits. A bignum has a digit and no leading zeros, so that
comparing the lengths comes before comparing digits. Every operation ends by trimming, and is the
operation on the integers (`value_add`, `value_divmod` and the other lemmas).
-/

open Nat

/-- A bignum: at least one digit, and no leading zeros. -/
structure NumberBignum where
  digits : List ℕ
  decimal : Decimal digits
  ne_nil : digits ≠ []
  trimmed : Trimmed digits

namespace NumberBignum

variable {bignum left right : NumberBignum}

/-- The integer of a bignum. -/
def value (bignum : NumberBignum) : ℕ := Nat.ofDigits 10 bignum.digits

/-- number_bignum_trim. -/
def trim (digits : List ℕ) (decimal : Decimal digits) (ne_nil : digits ≠ []) : NumberBignum :=
  ⟨trimDigits digits, decimal_trimDigits decimal, trimDigits_ne_nil ne_nil,
    trimmed_trimDigits digits⟩

/-- The digits of a 64-bit integer; zero has one. -/
def fromU64 (value : ℕ) : NumberBignum :=
  if h : value = 0 then trim [0] decimal_zero (by decide)
  else trim (Nat.digits 10 value) (decimal_digits value) (Nat.digits_ne_nil_iff_ne_zero.mpr h)

def isZero (bignum : NumberBignum) : Bool :=
  bignum.digits.length == 1 && bignum.digits.headD 0 == 0

def compare (left right : NumberBignum) : Ordering :=
  if left.digits.length ≠ right.digits.length then
    if left.digits.length < right.digits.length then .lt else .gt
  else compareDigits left.digits.reverse right.digits.reverse

lemma multiplyDigits_ne_nil {digits : List ℕ} (h : digits ≠ []) (multiplier carry : ℕ) :
    multiplyDigits multiplier digits carry ≠ [] := by
  cases digits with
  | nil => exact absurd rfl h
  | cons digit digits => exact cons_ne_nil _ _

def multiplySmall (bignum : NumberBignum) (multiplier : ℕ) : NumberBignum :=
  trim (multiplyDigits multiplier bignum.digits 0) (decimal_multiplyDigits _ _ _)
    (multiplyDigits_ne_nil bignum.ne_nil _ _)

lemma decimal_zeros (count : ℕ) : Decimal (replicate count 0) := by
  intro digit h
  rw [(mem_replicate.mp h).2]
  decide

lemma product_ne_nil (left right : NumberBignum) :
    multiplyRows right.digits left.digits
      (replicate (left.digits.length + right.digits.length) 0) ≠ [] := by
  have hpos := length_pos_of_ne_nil left.ne_nil
  apply ne_nil_of_length_pos
  rw [length_multiplyRows, length_replicate]
  omega

def multiplyBignum (bignum multiplier : NumberBignum) : NumberBignum :=
  if bignum.isZero || multiplier.isZero then fromU64 0
  else
    trim (multiplyRows multiplier.digits bignum.digits
        (List.replicate (bignum.digits.length + multiplier.digits.length) 0))
      (decimal_multiplyRows (decimal_zeros _) _ _) (product_ne_nil bignum multiplier)

def add (bignum addend : NumberBignum) : NumberBignum :=
  trim (addDigits bignum.digits addend.digits 0)
    (decimal_addDigits (by decide) bignum.decimal addend.decimal)
    (addDigits_ne_nil bignum.ne_nil _ _)

lemma subtractDigits_ne_nil {digits : List ℕ} (h : digits ≠ []) (other : List ℕ) (borrow : ℕ) :
    subtractDigits digits other borrow ≠ [] := by
  apply ne_nil_of_length_pos
  rw [length_subtractDigits]
  exact length_pos_of_ne_nil h

/-- The difference, for a subtrahend that is not larger. -/
def subtract (bignum subtrahend : NumberBignum) : NumberBignum :=
  trim (subtractDigits bignum.digits subtrahend.digits 0) (decimal_subtractDigits bignum.decimal)
    (subtractDigits_ne_nil bignum.ne_nil _ _)

lemma decimal_reverse {digits : List ℕ} (h : Decimal digits) : Decimal digits.reverse :=
  fun digit hmem => h digit (mem_reverse.mp hmem)

lemma quotient_ne_nil (bignum : NumberBignum) (divisor : ℕ) :
    (divideDigits divisor bignum.digits.reverse 0).1.reverse ≠ [] := by
  apply ne_nil_of_length_pos
  rw [length_reverse, length_divideDigits, length_reverse]
  exact length_pos_of_ne_nil bignum.ne_nil

/-- Division by a small number: the quotient and the remainder. -/
def divideSmall (bignum : NumberBignum) (divisor : ℕ) (h : 0 < divisor) : NumberBignum × ℕ :=
  (trim (divideDigits divisor bignum.digits.reverse 0).1.reverse
      (decimal_reverse (decimal_divideDigits h h (decimal_reverse bignum.decimal)))
      (quotient_ne_nil bignum divisor),
    (divideDigits divisor bignum.digits.reverse 0).2)

/-- The multiples of a number, each the one before it and the number. -/
def multiple (denominator : NumberBignum) : ℕ → NumberBignum
  | 0 => fromU64 0
  | digit + 1 => (multiple denominator digit).add denominator

/-- The largest multiple that does not exceed the remainder, tried from a candidate downwards. -/
def chosenDigit (denominator remainder : NumberBignum) : ℕ → ℕ
  | 0 => 0
  | candidate + 1 =>
    if (denominator.multiple (candidate + 1)).compare remainder ≠ .gt then candidate + 1
    else chosenDigit denominator remainder candidate

lemma chosenDigit_le (denominator remainder : NumberBignum) (candidate : ℕ) :
    chosenDigit denominator remainder candidate ≤ candidate := by
  induction candidate with
  | zero => exact le_refl 0
  | succ candidate ih =>
    unfold chosenDigit
    split
    · exact le_refl _
    · exact le_succ_of_le ih

/-- What the remainder is reduced to by the chosen multiple. -/
def reduce (denominator remainder : NumberBignum) (digit : ℕ) : NumberBignum :=
  if digit ≠ 0 then remainder.subtract (denominator.multiple digit) else remainder

/-- Long division, the leading digit first: the digits of the quotient and the remainder. -/
def divmodDigits (denominator : NumberBignum) : List ℕ → NumberBignum → List ℕ × NumberBignum
  | [], remainder => ([], remainder)
  | digit :: digits, remainder =>
    let shifted := (remainder.multiplySmall 10).add (fromU64 digit)
    let chosen := denominator.chosenDigit shifted 9
    let rest := divmodDigits denominator digits (denominator.reduce shifted chosen)
    (chosen :: rest.1, rest.2)

lemma length_divmodDigits (denominator remainder : NumberBignum) (digits : List ℕ) :
    (divmodDigits denominator digits remainder).1.length = digits.length := by
  induction digits generalizing remainder with
  | nil => rfl
  | cons digit digits ih => exact congrArg (· + 1) (ih _)

lemma decimal_divmodDigits (denominator remainder : NumberBignum) (digits : List ℕ) :
    Decimal (divmodDigits denominator digits remainder).1 := by
  induction digits generalizing remainder with
  | nil => exact decimal_nil
  | cons digit digits ih =>
    exact decimal_cons.mpr ⟨lt_succ_of_le (chosenDigit_le _ _ 9), ih _⟩

lemma divmod_ne_nil (numerator denominator : NumberBignum) :
    (divmodDigits denominator numerator.digits.reverse (fromU64 0)).1.reverse ≠ [] := by
  apply ne_nil_of_length_pos
  rw [length_reverse, length_divmodDigits, length_reverse]
  exact length_pos_of_ne_nil numerator.ne_nil

/-- The quotient and the remainder of two bignums. -/
def divmod (numerator denominator : NumberBignum) : NumberBignum × NumberBignum :=
  (trim (divmodDigits denominator numerator.digits.reverse (fromU64 0)).1.reverse
      (decimal_reverse (decimal_divmodDigits _ _ _)) (divmod_ne_nil numerator denominator),
    (divmodDigits denominator numerator.digits.reverse (fromU64 0)).2)

/-- The decimal text. -/
def digitString (bignum : NumberBignum) : List Char :=
  bignum.digits.reverse.map fun digit => Char.ofNat ('0'.toNat + digit)

/-! ## Values -/

@[simp]
lemma value_trim (digits : List ℕ) (decimal : Decimal digits) (ne_nil : digits ≠ []) :
    (trim digits decimal ne_nil).value = ofDigits 10 digits := ofDigits_trimDigits digits

@[simp]
lemma value_fromU64 (n : ℕ) : (fromU64 n).value = n := by
  unfold fromU64
  split
  · rename_i h
    rw [value_trim, ofDigits_singleton, h]
  · rw [value_trim, ofDigits_digits]

lemma isZero_iff : bignum.isZero = true ↔ bignum.value = 0 := by
  unfold isZero
  rw [Bool.and_eq_true, beq_iff_eq, beq_iff_eq]
  constructor
  · rintro ⟨hlength, hhead⟩
    obtain ⟨digit, hdigit⟩ := length_eq_one_iff.mp hlength
    rw [hdigit] at hhead
    show ofDigits 10 bignum.digits = 0
    rw [hdigit, ofDigits_singleton]
    exact hhead
  · intro hzero
    have hlength : ¬1 < bignum.digits.length := by
      intro hlong
      have hlt := ofDigits_lt_of_length decimal_zero bignum.trimmed hlong (by decide)
      change _ < bignum.value at hlt
      omega
    have hone : bignum.digits.length = 1 :=
      le_antisymm (not_lt.mp hlength) (length_pos_of_ne_nil bignum.ne_nil)
    refine ⟨hone, ?_⟩
    obtain ⟨digit, hdigit⟩ := length_eq_one_iff.mp hone
    change ofDigits 10 bignum.digits = 0 at hzero
    rw [hdigit, ofDigits_singleton] at hzero
    rw [hdigit]
    exact hzero

/-- Bignums compare as their integers. -/
lemma compare_eq (left right : NumberBignum) :
    left.compare right = Ord.compare left.value right.value := by
  unfold compare
  split
  · split
    · rename_i hlt
      exact (compare_lt_iff_lt.mpr
        (ofDigits_lt_of_length left.decimal right.trimmed hlt left.ne_nil)).symm
    · rename_i hne hge
      exact (compare_gt_iff_gt.mpr
        (ofDigits_lt_of_length right.decimal left.trimmed (by omega) right.ne_nil)).symm
  · rename_i heq
    rw [compareDigits_eq (decimal_reverse left.decimal) (decimal_reverse right.decimal)
      (by rw [length_reverse, length_reverse, not_ne_iff.mp heq]),
      reverse_reverse, reverse_reverse]
    rfl

@[simp]
lemma compare_eq_lt : left.compare right = .lt ↔ left.value < right.value := by
  rw [compare_eq, compare_lt_iff_lt]

@[simp]
lemma compare_eq_gt : left.compare right = .gt ↔ right.value < left.value := by
  rw [compare_eq, compare_gt_iff_gt]

@[simp]
lemma value_multiplySmall (bignum : NumberBignum) (multiplier : ℕ) :
    (bignum.multiplySmall multiplier).value = bignum.value * multiplier := by
  unfold multiplySmall
  rw [value_trim, ofDigits_multiplyDigits, add_zero]
  rfl

lemma value_iterate_multiplySmall (bignum : NumberBignum) (multiplier count : ℕ) :
    ((multiplySmall · multiplier)^[count] bignum).value = bignum.value * multiplier ^ count := by
  induction count with
  | zero => rw [Function.iterate_zero_apply, pow_zero, mul_one]
  | succ count ih =>
    rw [Function.iterate_succ_apply', value_multiplySmall, ih, pow_succ, mul_assoc]

@[simp]
lemma value_multiplyBignum (left right : NumberBignum) :
    (left.multiplyBignum right).value = left.value * right.value := by
  unfold multiplyBignum
  split
  · rename_i hzero
    rw [value_fromU64]
    rw [Bool.or_eq_true, isZero_iff, isZero_iff] at hzero
    rcases hzero with hleft | hright
    · rw [hleft, zero_mul]
    · rw [hright, mul_zero]
  · rw [value_trim, ofDigits_product left.decimal right.decimal]
    rfl

@[simp]
lemma value_add (left right : NumberBignum) :
    (left.add right).value = left.value + right.value := by
  unfold add
  rw [value_trim, ofDigits_addDigits]
  rfl

lemma value_subtract (h : right.value ≤ left.value) :
    (left.subtract right).value = left.value - right.value := by
  have hdifference := ofDigits_subtractDigits left.decimal right.decimal (zero_le 1) h
  unfold subtract
  rw [value_trim]
  change _ + (right.value + 0) = left.value at hdifference
  omega

lemma value_divideSmall (bignum : NumberBignum) {divisor : ℕ} (h : 0 < divisor) :
    (bignum.divideSmall divisor h).1.value = bignum.value / divisor ∧
      (bignum.divideSmall divisor h).2 = bignum.value % divisor := by
  have hdivision := divideDigits_eq divisor 0 bignum.digits.reverse
  have hlt := @divideDigits_lt divisor 0 bignum.digits.reverse h h
  rw [zero_mul, zero_add, reverse_reverse, add_comm, mul_comm] at hdivision
  unfold divideSmall
  rw [value_trim]
  obtain ⟨hquotient, hremainder⟩ := (Nat.div_mod_unique h).mpr ⟨hdivision.symm, hlt⟩
  exact ⟨hquotient.symm, hremainder.symm⟩

@[simp]
lemma value_multiple (denominator : NumberBignum) (digit : ℕ) :
    (denominator.multiple digit).value = digit * denominator.value := by
  induction digit with
  | zero =>
    unfold multiple
    rw [value_fromU64, zero_mul]
  | succ digit ih =>
    unfold multiple
    rw [value_add, ih, succ_mul]

section
variable {denominator remainder : NumberBignum} {candidate : ℕ}
  (h : remainder.value < (candidate + 1) * denominator.value)
include h

/-- The digit chosen is that of the division, where the candidates reach it. -/
lemma chosenDigit_eq :
    denominator.chosenDigit remainder candidate = remainder.value / denominator.value := by
  induction candidate with
  | zero =>
    rw [zero_add, one_mul] at h
    exact (div_eq_of_lt h).symm
  | succ candidate ih =>
    unfold chosenDigit
    split
    · rename_i hle
      rw [ne_eq, compare_eq_gt, value_multiple, not_lt] at hle
      exact (Nat.div_eq_of_lt_le hle h).symm
    · rename_i hgt
      rw [not_not, compare_eq_gt, value_multiple] at hgt
      exact ih hgt

lemma value_reduce :
    (denominator.reduce remainder (denominator.chosenDigit remainder candidate)).value =
      remainder.value % denominator.value := by
  have hdiv := div_add_mod remainder.value denominator.value
  rw [mul_comm] at hdiv
  rw [chosenDigit_eq h]
  unfold reduce
  split
  · have hle : (denominator.multiple (remainder.value / denominator.value)).value ≤
        remainder.value := by
      rw [value_multiple]
      omega
    rw [value_subtract hle, value_multiple]
    omega
  · rename_i hzero
    rw [not_ne_iff] at hzero
    rw [hzero, zero_mul, zero_add] at hdiv
    exact hdiv.symm

end

/-- Long division, with a remainder in front of the digits. -/
lemma divmodDigits_eq {denominator remainder : NumberBignum} {digits : List ℕ}
    (hdigits : Decimal digits) (h : remainder.value < denominator.value) :
    remainder.value * 10 ^ digits.length + ofDigits 10 digits.reverse =
        ofDigits 10 (divmodDigits denominator digits remainder).1.reverse *
          denominator.value + (divmodDigits denominator digits remainder).2.value ∧
      (divmodDigits denominator digits remainder).2.value < denominator.value := by
  induction digits generalizing remainder with
  | nil =>
    refine ⟨?_, h⟩
    show remainder.value * 1 + 0 = 0 * denominator.value + remainder.value
    omega
  | cons digit digits ih =>
    obtain ⟨hdigit, hdigits⟩ := decimal_cons.mp hdigits
    set shifted := (remainder.multiplySmall 10).add (fromU64 digit) with hshifted
    have hvalue : shifted.value = remainder.value * 10 + digit := by
      rw [hshifted, value_add, value_multiplySmall, value_fromU64]
    have hroom : shifted.value < (9 + 1) * denominator.value := by
      rw [hvalue]
      omega
    have hreduced := value_reduce hroom
    have hchosen := chosenDigit_eq hroom
    have hpos : 0 < denominator.value := zero_lt_of_lt h
    have hbelow := mod_lt shifted.value hpos
    rw [← hreduced] at hbelow
    obtain ⟨hrest, hlt⟩ := ih hdigits hbelow
    refine ⟨?_, hlt⟩
    have hdiv := div_add_mod shifted.value denominator.value
    show remainder.value * 10 ^ (digits.length + 1) + ofDigits 10 (digit :: digits).reverse =
      ofDigits 10 (denominator.chosenDigit shifted 9 ::
        (divmodDigits denominator digits
          (denominator.reduce shifted (denominator.chosenDigit shifted 9))).1).reverse *
        denominator.value + (divmodDigits denominator digits
          (denominator.reduce shifted (denominator.chosenDigit shifted 9))).2.value
    rw [ofDigits_reverse_cons, ofDigits_reverse_cons, length_divmodDigits]
    rw [hreduced] at hrest
    calc remainder.value * 10 ^ (digits.length + 1) +
          (ofDigits 10 digits.reverse + 10 ^ digits.length * digit)
        = shifted.value * 10 ^ digits.length + ofDigits 10 digits.reverse := by
          rw [hvalue]
          ring
      _ = denominator.value * (shifted.value / denominator.value) * 10 ^ digits.length +
          (shifted.value % denominator.value * 10 ^ digits.length +
            ofDigits 10 digits.reverse) := by
        rw [← add_assoc, ← add_mul, hdiv]
      _ = _ := by
        rw [hrest, hchosen]
        ring

/-- number_bignum_divmod divides. -/
theorem value_divmod {numerator denominator : NumberBignum} (h : 0 < denominator.value) :
    (numerator.divmod denominator).1.value = numerator.value / denominator.value ∧
      (numerator.divmod denominator).2.value = numerator.value % denominator.value := by
  have hzero : (fromU64 0).value < denominator.value := by rwa [value_fromU64]
  obtain ⟨hdivision, hlt⟩ := divmodDigits_eq (decimal_reverse numerator.decimal) hzero
  rw [value_fromU64, zero_mul, zero_add, reverse_reverse, add_comm, mul_comm] at hdivision
  unfold divmod
  rw [value_trim]
  obtain ⟨hquotient, hremainder⟩ := (Nat.div_mod_unique h).mpr ⟨hdivision.symm, hlt⟩
  exact ⟨hquotient.symm, hremainder.symm⟩

end NumberBignum

end Oseo.NumberFormatting
