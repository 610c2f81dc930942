import Mathlib.Data.Nat.Digits.Lemmas

/-!
# Broadcast ids

`$262.agent.broadcast` of `runtime_agent.c`, with the BigInt conversions of `runtime_bigint.c` it
uses. A BigInt id travels as the 64 bits of its two's complement.

* an unsigned word is a number below 2^64, with the remainders of the source;
* a Number id is of any type `Number`, nothing is computed with it;
* the shared block and the turns of the cluster are left out.

The range check reads the limbs as 32 bits wide, and they hold 30 (`agentBroadcast_exact_iff`).
-/

namespace Oseo.AgentBroadcast

open Nat
open List

/-- The value bits of a limb. -/
def bigintBits : ℕ := 30

def bigintBase : ℕ := 2 ^ bigintBits

/-- A BigInt: its limbs are below the base and end with one that is not zero, and zero is not
negative. -/
structure OseoBigInt where
  negative : Bool
  limbs : List ℕ
  nonempty : limbs ≠ []
  below : ∀ limb ∈ limbs, limb < bigintBase
  normalized : 1 < limbs.length → limbs.getLast nonempty ≠ 0
  signed : negative = true → Nat.ofDigits bigintBase limbs ≠ 0

/-- The value a BigInt stands for. -/
def OseoBigInt.value (integer : OseoBigInt) : ℤ :=
  if integer.negative then -((Nat.ofDigits bigintBase integer.limbs : ℕ) : ℤ)
  else (Nat.ofDigits bigintBase integer.limbs : ℕ)

/-! ## Conversions -/

/-- `oseo_internal_bigint_to_raw_uint64`. -/
def bigintToRawUint64 (value : OseoBigInt) : ℕ :=
  let magnitude := (value.limbs.take 3).foldr
    (fun limb magnitude => (magnitude <<< bigintBits) % 2 ^ 64 ||| limb) 0
  if value.negative then (2 ^ 64 - magnitude) % 2 ^ 64 else magnitude

/-- The length of limbs without the zeros at their end; one limb is left at least. -/
def normalizedLength (limbs : List ℕ) : (length : ℕ) → ℕ
  | 0 => 0
  | length + 1 =>
    if 1 < length + 1 ∧ limbs[length]? = some 0 then normalizedLength limbs length
    else length + 1

lemma normalizedLength_le (limbs : List ℕ) (length : ℕ) :
    normalizedLength limbs length ≤ length := by
  induction length with
  | zero => exact le_refl 0
  | succ length ih =>
    rw [normalizedLength]
    split
    · omega
    · exact le_refl _

lemma normalizedLength_pos (limbs : List ℕ) {length : ℕ} (h : 0 < length) :
    0 < normalizedLength limbs length := by
  induction length with
  | zero => omega
  | succ length ih =>
    rw [normalizedLength]
    split
    · exact ih (by omega)
    · omega

/-- The last of several limbs that are left is not zero. -/
lemma normalizedLength_last (limbs : List ℕ) (length : ℕ)
    (h : 1 < normalizedLength limbs length) :
    limbs[normalizedLength limbs length - 1]? ≠ some 0 := by
  induction length with
  | zero => rw [normalizedLength] at h; omega
  | succ length ih =>
    rw [normalizedLength] at h ⊢
    split
    · rename_i hzero
      rw [if_pos hzero] at h
      exact ih h
    · rename_i hzero
      rw [if_neg hzero] at h
      exact fun heq => hzero ⟨h, heq⟩

lemma kept_ne_nil {limbs : List ℕ} (hne : limbs ≠ []) :
    limbs.take (normalizedLength limbs limbs.length) ≠ [] := by
  have hlength := length_pos_of_ne_nil hne
  have hpos := normalizedLength_pos limbs hlength
  apply ne_nil_of_length_pos
  rw [length_take]
  omega

lemma kept_last {limbs : List ℕ} (hne : limbs ≠ [])
    (h : 1 < (limbs.take (normalizedLength limbs limbs.length)).length) :
    (limbs.take (normalizedLength limbs limbs.length)).getLast (kept_ne_nil hne) ≠ 0 := by
  have hle := normalizedLength_le limbs limbs.length
  rw [length_take, min_eq_left hle] at h
  intro hlast
  apply normalizedLength_last limbs limbs.length h
  rw [getLast_eq_getElem, getElem_take] at hlast
  simp only [length_take, min_eq_left hle] at hlast
  rw [getElem?_eq_getElem (by omega), hlast]

/-- Only zeros are dropped. -/
lemma normalizedLength_value (limbs : List ℕ) {length : ℕ} (h : length ≤ limbs.length) :
    ofDigits bigintBase (limbs.take (normalizedLength limbs length)) =
      ofDigits bigintBase (limbs.take length) := by
  induction length with
  | zero => rfl
  | succ length ih =>
    rw [normalizedLength]
    split
    · rename_i hzero
      have hbound : length < limbs.length := by omega
      have hlast : limbs[length] = 0 := by
        have heq := hzero.2
        rw [getElem?_eq_getElem hbound] at heq
        exact Option.some.inj heq
      rw [ih (by omega), take_succ_eq_append_getElem (by omega), hlast,
        ofDigits_append_zero]
    · rfl

/-- Limbs that end with one that is not zero stand for a number of their length. -/
lemma pow_le_value {limbs : List ℕ} (hne : limbs ≠ []) (hlast : limbs.getLast hne ≠ 0) :
    bigintBase ^ (limbs.length - 1) ≤ ofDigits bigintBase limbs := by
  have hlength := length_pos_of_ne_nil hne
  have hpow : bigintBase ^ limbs.length ≤ bigintBase * ofDigits bigintBase limbs :=
    @pow_length_le_mul_ofDigits (2 ^ 30 - 2) limbs hne hlast
  rw [show limbs.length = limbs.length - 1 + 1 by omega, pow_succ, mul_comm] at hpow
  exact le_of_mul_le_mul_left hpow (Nat.two_pow_pos _)

/-- Normalized limbs other than one zero do not stand for zero. -/
lemma value_ne_zero {limbs : List ℕ} (hne : limbs ≠ [])
    (hnormal : 1 < limbs.length → limbs.getLast hne ≠ 0) (hzero : limbs ≠ [0]) :
    ofDigits bigintBase limbs ≠ 0 := by
  have hlast : limbs.getLast hne ≠ 0 := by
    rcases lt_or_ge 1 limbs.length with hlong | hshort
    · exact hnormal hlong
    · obtain ⟨limb, rfl⟩ : ∃ limb, limbs = [limb] := by
        have hpos := length_pos_of_ne_nil hne
        exact length_eq_one_iff.mp (by omega)
      rintro rfl
      exact hzero rfl
  have hpow : 0 < bigintBase ^ (limbs.length - 1) := Nat.pow_pos (Nat.two_pow_pos _)
  have hle := pow_le_value hne hlast
  omega

/-- `publish_bigint`, for limbs well below the implementation limit. -/
def publishBigint (negative : Bool) (limbs : List ℕ) (nonempty : limbs ≠ [])
    (below : ∀ limb ∈ limbs, limb < bigintBase) : OseoBigInt where
  negative := if limbs.take (normalizedLength limbs limbs.length) = [0] then false else negative
  limbs := limbs.take (normalizedLength limbs limbs.length)
  nonempty := kept_ne_nil nonempty
  below limb hmem := below limb (List.mem_of_mem_take hmem)
  normalized := kept_last nonempty
  signed hnegative := by
    apply value_ne_zero (kept_ne_nil nonempty) (kept_last nonempty)
    intro hzero
    rw [if_pos hzero] at hnegative
    cases hnegative

/-- The limbs of `oseo_internal_bigint_from_uint64`. -/
def uint64Limbs (magnitude : ℕ) : List ℕ :=
  [magnitude % bigintBase, (magnitude >>> bigintBits) % bigintBase,
    (magnitude >>> bigintBits >>> bigintBits) % bigintBase]

lemma uint64Limbs_below (magnitude : ℕ) : ∀ limb ∈ uint64Limbs magnitude, limb < bigintBase := by
  intro limb hmem
  have hbase : 0 < bigintBase := Nat.two_pow_pos _
  simp only [uint64Limbs, mem_cons, not_mem_nil, or_false] at hmem
  rcases hmem with rfl | rfl | rfl <;> exact Nat.mod_lt _ hbase

/-- `oseo_internal_bigint_from_uint64`. -/
def bigintFromUint64 (magnitude : ℕ) (negative : Bool) : OseoBigInt :=
  publishBigint negative (uint64Limbs magnitude) (List.cons_ne_nil _ _)
    (uint64Limbs_below magnitude)

/-! ## Broadcasts -/

/-- What a broadcast id may be. -/
inductive IdValue (Number : Type)
  | undefined
  | number (value : Number)
  | bigint (value : OseoBigInt)
  | other

/-- The id of one broadcast waiting in an agent's inbox. -/
inductive BroadcastId (Number : Type)
  | undefined
  | number (value : Number)
  | bigint (bits : ℕ)

/-- The errors of a broadcast that are about its id. -/
inductive BroadcastError
  /-- `$262.agent.broadcast id is outside the BigInt64 range.` -/
  | range
  /-- `$262.agent.broadcast id must be a Number or a BigInt.` -/
  | type
deriving DecidableEq

/-- An agent of the cluster, with the ids of its inbox. -/
structure Agent (Number : Type) where
  finished : Bool
  inbox : List (BroadcastId Number)

variable {Number : Type}

/-- The magnitude the range check of `agent_broadcast` assembles. -/
def checkedMagnitude (value : OseoBigInt) : ℕ :=
  value.limbs[0]?.getD 0 ||| (value.limbs[1]?.getD 0 <<< 32) % 2 ^ 64

/-- The id `agent_broadcast` sends for a value. -/
def broadcastIdOf : IdValue Number → Except BroadcastError (BroadcastId Number)
  | .number value => .ok (.number value)
  | .bigint value =>
    if value.limbs.length > 2 ∨
        checkedMagnitude value > (if value.negative then 0x8000000000000000
          else 0x7fffffffffffffff) then .error .range
    else .ok (.bigint (bigintToRawUint64 value))
  | .undefined => .ok .undefined
  | .other => .error .type

/-- `agent_broadcast`: every agent still evaluating gets the id. -/
def agentBroadcast (agents : List (Agent Number)) (id : IdValue Number) :
    Except BroadcastError (List (Agent Number)) := do
  let record ← broadcastIdOf id
  return agents.map fun agent =>
    if agent.finished then agent else { agent with inbox := agent.inbox ++ [record] }

/-- `broadcast_id`. -/
def broadcastId : BroadcastId Number → IdValue Number
  | .number value => .number value
  | .bigint bits =>
    let negative := bits >>> 63 ≠ 0
    .bigint (bigintFromUint64 (if negative then (2 ^ 64 - bits) % 2 ^ 64 else bits) negative)
  | .undefined => .undefined

/-! ## The transport -/

/-- A BigInt has at most two limbs exactly if its magnitude is below 2^60. -/
lemma OseoBigInt.length_le_two_iff (integer : OseoBigInt) :
    integer.limbs.length ≤ 2 ↔ ofDigits bigintBase integer.limbs < 2 ^ 60 := by
  constructor
  · intro hlength
    have hlt := @ofDigits_lt_base_pow_length bigintBase integer.limbs (by decide) integer.below
    have hpow : bigintBase ^ integer.limbs.length ≤ bigintBase ^ 2 :=
      Nat.pow_le_pow_right (Nat.two_pow_pos _) hlength
    have hsquare : bigintBase ^ 2 = 2 ^ 60 := by decide
    omega
  · intro hlt
    by_contra hlength
    have hle := pow_le_value integer.nonempty (integer.normalized (by omega))
    have hpow : bigintBase ^ 2 ≤ bigintBase ^ (integer.limbs.length - 1) :=
      Nat.pow_le_pow_right (Nat.two_pow_pos _) (by omega)
    have hsquare : bigintBase ^ 2 = 2 ^ 60 := by decide
    omega

lemma OseoBigInt.natAbs_value (integer : OseoBigInt) :
    integer.value.natAbs = ofDigits bigintBase integer.limbs := by
  unfold OseoBigInt.value
  split <;> omega

/-- Two limbs never fail the range check. -/
lemma checkedMagnitude_lt (integer : OseoBigInt) : checkedMagnitude integer < 2 ^ 62 := by
  have hlimb : ∀ index : ℕ, integer.limbs[index]?.getD 0 < 2 ^ 30 := by
    intro index
    cases hget : integer.limbs[index]? with
    | none => exact Nat.two_pow_pos 30
    | some limb => exact integer.below limb (mem_of_getElem? hget)
  have hlow := hlimb 0
  have hhigh := hlimb 1
  apply or_lt_two_pow
  · omega
  · rw [shiftLeft_eq]
    omega

lemma broadcastIdOf_bigint (integer : OseoBigInt) :
    (broadcastIdOf (.bigint integer) : Except BroadcastError (BroadcastId Number)) =
      if integer.limbs.length > 2 then .error .range
      else .ok (.bigint (bigintToRawUint64 integer)) := by
  show (if integer.limbs.length > 2 ∨ checkedMagnitude integer >
      (if integer.negative then 0x8000000000000000 else 0x7fffffffffffffff) then
    Except.error BroadcastError.range else _) = _
  have hlt := checkedMagnitude_lt integer
  have hnever : ¬checkedMagnitude integer >
      (if integer.negative then 0x8000000000000000 else 0x7fffffffffffffff) := by
    split <;> omega
  simp only [hnever, or_false]

/-- The bits of a BigInt of two limbs are its two's complement. -/
lemma bigintToRawUint64_eq {integer : OseoBigInt} (h : integer.limbs.length ≤ 2) :
    bigintToRawUint64 integer = if integer.negative then
      (2 ^ 64 - ofDigits bigintBase integer.limbs) % 2 ^ 64
    else ofDigits bigintBase integer.limbs := by
  have hbelow := integer.below
  have hmagnitude : (integer.limbs.take 3).foldr
      (fun limb magnitude => (magnitude <<< bigintBits) % 2 ^ 64 ||| limb) 0 =
      ofDigits bigintBase integer.limbs := by
    match hlimbs : integer.limbs, h, hbelow with
    | [], _, _ => rfl
    | [low], _, _ => simp [ofDigits_singleton]
    | [low, high], _, hbelow =>
      have hlow : low < 2 ^ 30 := hbelow low (by simp)
      have hhigh : high < 2 ^ 30 := hbelow high (by simp)
      simp only [take, foldr, zero_shiftLeft, zero_mod, zero_or,
        ofDigits_cons, ofDigits_nil, bigintBase, bigintBits]
      rw [mod_eq_of_lt (by rw [shiftLeft_eq]; omega), shiftLeft_eq,
        mul_comm high, ← two_pow_add_eq_or_of_lt hlow]
      omega
  unfold bigintToRawUint64
  rw [hmagnitude]

lemma uint64Limbs_value {magnitude : ℕ} (h : magnitude < 2 ^ 64) :
    ofDigits bigintBase (uint64Limbs magnitude) = magnitude := by
  simp only [uint64Limbs, ofDigits_cons, ofDigits_nil, bigintBase, bigintBits,
    shiftRight_eq_div_pow]
  omega

/-- A BigInt made of a magnitude and a sign. -/
lemma bigintFromUint64_value {magnitude : ℕ} (h : magnitude < 2 ^ 64) (negative : Bool) :
    (bigintFromUint64 magnitude negative).value =
      if negative then -(magnitude : ℤ) else magnitude := by
  have hvalue := normalizedLength_value (uint64Limbs magnitude) (le_refl _)
  rw [take_length, uint64Limbs_value h] at hvalue
  simp only [OseoBigInt.value, bigintFromUint64, publishBigint, hvalue]
  by_cases hzero : (uint64Limbs magnitude).take
      (normalizedLength (uint64Limbs magnitude) (uint64Limbs magnitude).length) = [0]
  · rw [hzero] at hvalue
    have hmagnitude : magnitude = 0 := hvalue.symm
    subst hmagnitude
    simp
  · rw [if_neg hzero]

/-- What is received for the bits of a magnitude below 2^63 is the number that was sent. -/
lemma broadcastId_value {magnitude : ℕ} (h : magnitude < 2 ^ 63) (negative : Bool)
    (hsigned : negative = true → magnitude ≠ 0) :
    ∃ received, (broadcastId (.bigint (if negative then (2 ^ 64 - magnitude) % 2 ^ 64
        else magnitude)) : IdValue Number) = .bigint received ∧
      received.value = if negative then -(magnitude : ℤ) else magnitude := by
  refine ⟨_, rfl, ?_⟩
  cases negative with
  | true =>
    have hpositive := hsigned rfl
    have hbits : (2 ^ 64 - magnitude) % 2 ^ 64 = 2 ^ 64 - magnitude :=
      mod_eq_of_lt (by omega)
    have hsign : (2 ^ 64 - magnitude) >>> 63 ≠ 0 := by
      rw [shiftRight_eq_div_pow]
      omega
    simp only [if_true, hbits]
    rw [bigintFromUint64_value]
    · rw [if_pos hsign, if_pos (by simpa using hsign)]
      omega
    · rw [if_pos hsign]
      omega
  | false =>
    have hsign : ¬magnitude >>> 63 ≠ 0 := by
      rw [shiftRight_eq_div_pow]
      omega
    simp only [Bool.false_eq_true, if_false]
    rw [bigintFromUint64_value]
    · rw [if_neg hsign, if_neg (by simpa using hsign)]
    · rw [if_neg hsign]
      omega

/-! ## Which ids arrive -/

/-- Every agent that gets a broadcast receives the id: what it finds at the end of its inbox is
a BigInt of the same value. -/
def Delivered (integer : OseoBigInt) (agents agents' : List (Agent Number)) : Prop :=
  List.Forall₂ (fun agent agent' =>
    if agent.finished then agent' = agent
    else ∃ record received, agent'.inbox = agent.inbox ++ [record] ∧
      broadcastId record = .bigint received ∧ received.value = integer.value) agents agents'

/-- What a broadcast should do with a BigInt id: a RangeError exactly outside of the signed
64-bit range, and else every agent receives it. -/
def BroadcastsExactly (Number : Type) (integer : OseoBigInt) : Prop :=
  ∀ agents : List (Agent Number),
    (agentBroadcast agents (.bigint integer) = .error .range ↔
      integer.value < -2 ^ 63 ∨ 2 ^ 63 ≤ integer.value) ∧
    ∀ agents', agentBroadcast agents (.bigint integer) = .ok agents' →
      Delivered integer agents agents'

/-- A broadcast does what it should exactly for ids of magnitude below 2^60, and for those
outside of the 64-bit range. -/
theorem agentBroadcast_exact_iff (integer : OseoBigInt) :
    BroadcastsExactly Number integer ↔
      integer.value.natAbs < 2 ^ 60 ∨ integer.value < -2 ^ 63 ∨ 2 ^ 63 ≤ integer.value := by
  have hlength := integer.length_le_two_iff
  rw [← integer.natAbs_value] at hlength
  constructor
  · intro h
    obtain ⟨hrange, -⟩ := h []
    by_cases hshort : integer.limbs.length ≤ 2
    · exact .inl (hlength.mp hshort)
    · refine .inr (hrange.mp ?_)
      simp only [agentBroadcast, broadcastIdOf_bigint, if_pos (Nat.lt_of_not_le hshort)]
      rfl
  · intro h agents
    by_cases hshort : integer.limbs.length ≤ 2
    · have habs := hlength.mp hshort
      have hok : agentBroadcast agents (.bigint integer) = .ok (agents.map fun agent =>
          if agent.finished then agent else { agent with
            inbox := agent.inbox ++ [.bigint (bigintToRawUint64 integer)] }) := by
        simp only [agentBroadcast, broadcastIdOf_bigint, if_neg (Nat.not_lt_of_le hshort)]
        rfl
      refine ⟨?_, ?_⟩
      · rw [hok]
        exact iff_of_false nofun (by omega)
      · intro agents' hagents'
        rw [hok] at hagents'
        cases hagents'
        rw [Delivered, forall₂_map_right_iff, forall₂_same]
        intro agent hmem
        split
        · rfl
        · obtain ⟨received, hreceived, hvalue⟩ := @broadcastId_value Number
            (ofDigits bigintBase integer.limbs) (by rw [← integer.natAbs_value]; omega)
            integer.negative integer.signed
          rw [← bigintToRawUint64_eq hshort] at hreceived
          exact ⟨_, received, rfl, hreceived, hvalue⟩
    · have herror : agentBroadcast agents (.bigint integer) = .error .range := by
        simp only [agentBroadcast, broadcastIdOf_bigint, if_pos (Nat.lt_of_not_le hshort)]
        rfl
      have hbig : ¬integer.value.natAbs < 2 ^ 60 := fun hlt => hshort (hlength.mpr hlt)
      refine ⟨iff_of_true herror (h.resolve_left hbig), fun agents' hagents' => ?_⟩
      rw [herror] at hagents'
      cases hagents'

/-- The BigInt 2^60. -/
def threeLimbs : OseoBigInt where
  negative := false
  limbs := [0, 0, 1]
  nonempty := nofun
  below := by decide
  normalized := by decide
  signed := nofun

/-- It is in range, and no broadcast takes it. -/
theorem agentBroadcast_threeLimbs :
    threeLimbs.value = 2 ^ 60 ∧
      agentBroadcast ([⟨false, []⟩] : List (Agent ℕ)) (.bigint threeLimbs) = .error .range ∧
      ¬BroadcastsExactly ℕ threeLimbs := by
  have hvalue : threeLimbs.value = 2 ^ 60 := by decide
  refine ⟨hvalue, rfl, fun hexact => ?_⟩
  have hrange := (hexact []).1.mp rfl
  rw [hvalue] at hrange
  omega

end Oseo.AgentBroadcast
