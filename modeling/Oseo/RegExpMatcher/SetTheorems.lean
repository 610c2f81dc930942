import Mathlib.Tactic.Positivity
import Mathlib.Tactic.Ring
import Oseo.Library.InversionLists
import Oseo.RegExpMatcher.Program

/-!
# What the set operations compute

Every operation keeps the inversion lists, and its result holds what the operation is named after.
Membership is told by the parity of the boundaries (`inside`); the binary search of `setHas` finds
the same answer in an increasing list.
-/

namespace Oseo.RegExpMatcher

open Nat
open List hiding set
open Option
open Oseo.Library

variable {set left right : MatcherSet} {c : ℕ}

/-- A strictly increasing list of even length. -/
structure Increasing (set : MatcherSet) : Prop where
  sorted : set.Pairwise (· < ·)
  even : set.length % 2 = 0

/-- An inversion list of code points. -/
structure InversionList (set : MatcherSet) : Prop extends Increasing set where
  bounded : ∀ boundary ∈ set, boundary ≤ codePointLimit

/-! ## Membership -/

/-- The binary search stops after the boundaries up to the code point. -/
lemma setHasLoop_spec (hsorted : set.Pairwise (· < ·)) {fuel low high : ℕ}
    (hfuel : high - low ≤ fuel) (hlow : low ≤ high) (hhigh : high ≤ set.length)
    (hbefore : ∀ boundary ∈ set.take low, boundary ≤ c)
    (hafter : ∀ boundary ∈ set.drop high, c < boundary) :
    ∃ before after, set = before ++ after ∧ before.length = setHasLoop set c fuel low high ∧
      (∀ boundary ∈ before, boundary ≤ c) ∧ ∀ boundary ∈ after, c < boundary := by
  induction fuel generalizing low high with
  | zero =>
    have hsame : high = low := by omega
    rw [hsame] at hafter
    refine ⟨_, _, (take_append_drop low set).symm, ?_, hbefore, hafter⟩
    rw [length_take, setHasLoop]
    omega
  | succ fuel ih =>
    rw [setHasLoop]
    by_cases hlt : low < high
    · rw [if_pos hlt]
      dsimp only
      have hmiddle : (low + high) / 2 < set.length := by omega
      rw [getElem?_eq_getElem hmiddle, getD_some]
      have hsplit := pairwise_iff_getElem.mp hsorted
      split
      · next hle =>
        refine ih (by omega) (by omega) hhigh (fun boundary hmem => ?_) hafter
        obtain ⟨i, hi, rfl⟩ := mem_take_iff_getElem.mp hmem
        rcases lt_or_ge i ((low + high) / 2) with hbelow | habove
        · exact (hsplit i _ (by omega) hmiddle hbelow).le.trans hle
        · have hsame : i = (low + high) / 2 := by omega
          subst hsame
          exact hle
      · next hgt =>
        refine ih (by omega) (by omega) (by omega) hbefore fun boundary hmem => ?_
        obtain ⟨i, hi, rfl⟩ := mem_drop_iff_getElem.mp hmem
        rcases Nat.eq_zero_or_pos i with rfl | hpos
        · exact not_le.mp hgt
        · exact (not_le.mp hgt).trans (hsplit _ _ hmiddle (by omega) (by omega))
    · rw [if_neg hlt]
      have hsame : high = low := by omega
      rw [hsame] at hafter
      refine ⟨_, _, (take_append_drop low set).symm, ?_, hbefore, hafter⟩
      rw [length_take]
      omega

/-- A binary search finds the parity of the boundaries. -/
lemma setHas_eq (hsorted : set.Pairwise (· < ·)) (c : ℕ) : setHas set c = inside set c := by
  obtain ⟨before, after, hset, hlength, hbefore, hafter⟩ :=
    @setHasLoop_spec set c hsorted set.length 0 set.length (by omega) (by omega) le_rfl
      (by simp) (by simp)
  unfold setHas
  rw [← hlength]
  conv_rhs => rw [hset]
  exact (inside_of_split hbefore hafter).symm

/-- Nothing past the code points is in a set of code points. -/
lemma Increasing.inside_of_le (hset : Increasing set) (hle : ∀ boundary ∈ set, boundary ≤ c) :
    inside set c = false := by
  rw [Library.inside_of_le hle, hset.even]
  rfl

/-- The length of a list that is empty past its boundaries is even. -/
lemma even_of_inside (hle : ∀ boundary ∈ set, boundary ≤ c) (hinside : inside set c = false) :
    set.length % 2 = 0 := by
  rw [Library.inside_of_le hle, decide_eq_false_iff_not] at hinside
  omega

lemma InversionList.nil : InversionList [] := ⟨⟨.nil, rfl⟩, by simp⟩

/-! ## Union -/

/-- The number of open ranges, before the boundaries at two positions. -/
def openDepth (leftIndex rightIndex : ℕ) : ℤ := (leftIndex % 2 : ℕ) + (rightIndex % 2 : ℕ)

lemma openingAt_depth (index : ℕ) :
    ((index + 1) % 2 : ℕ) = ((index % 2 : ℕ) : ℤ) + openingAt index := by
  unfold openingAt
  split
  · push_cast
    omega
  · push_cast
    omega

/-- A position after a boundary at `value`, where there is one. -/
def passed (set : MatcherSet) (index value : ℕ) : ℕ :=
  if set[index]?.getD (codePointLimit + 1) = value then index + 1 else index

/-- Whether the code point is in the set, told from the boundaries that are left. -/
def insideFrom (set : MatcherSet) (index c : ℕ) : Bool :=
  xor (decide (index % 2 = 1)) (inside (set.drop index) c)

lemma insideFrom_zero (set : MatcherSet) (c : ℕ) : insideFrom set 0 c = inside set c := by
  unfold insideFrom
  rw [drop_zero, decide_eq_false (by omega), Bool.false_xor]

section Passing

variable {index value : ℕ}

lemma drop_passed (hvalue : value ≤ codePointLimit) :
    (passed set index value = index ∧ set[index]?.getD (codePointLimit + 1) ≠ value) ∨
      (passed set index value = index + 1 ∧ index < set.length ∧
        set.drop index = value :: set.drop (index + 1)) := by
  unfold passed
  by_cases hat : set[index]?.getD (codePointLimit + 1) = value
  · right
    rw [if_pos hat]
    have hlt : index < set.length := by
      by_contra hge
      rw [getElem?_eq_none (by omega), getD_none] at hat
      omega
    rw [getElem?_eq_getElem hlt, getD_some] at hat
    rw [drop_eq_getElem_cons hlt, hat]
    exact ⟨rfl, hlt, rfl⟩
  · left
    rw [if_neg hat]
    exact ⟨rfl, hat⟩

/-- The boundaries past `value` are greater. -/
lemma lt_of_passed (hsorted : set.Pairwise (· < ·)) (hvalue : value ≤ codePointLimit)
    (hle : value ≤ set[index]?.getD (codePointLimit + 1)) :
    ∀ boundary ∈ set.drop (passed set index value), value < boundary := by
  have hdrop := hsorted.sublist (drop_sublist index set)
  rcases @drop_passed set index value hvalue with ⟨hpassed, hne⟩ | ⟨hpassed, -, hcons⟩
  · rw [hpassed]
    intro boundary hmem
    have hlt : index < set.length := by
      by_contra hge
      rw [drop_eq_nil_of_le (by omega)] at hmem
      cases hmem
    rw [getElem?_eq_getElem hlt, getD_some] at hle hne
    rw [drop_eq_getElem_cons hlt] at hmem hdrop
    rcases mem_cons.mp hmem with rfl | hmem
    · omega
    · have := (pairwise_cons.mp hdrop).1 boundary hmem
      omega
  · rw [hpassed]
    rw [hcons] at hdrop
    exact (pairwise_cons.mp hdrop).1

/-- The boundaries up to a position do not matter past it. -/
lemma insideFrom_passed {c : ℕ} (hvalue : value ≤ codePointLimit) (hle : value ≤ c) :
    insideFrom set (passed set index value) c = insideFrom set index c := by
  rcases @drop_passed set index value hvalue with ⟨hpassed, -⟩ | ⟨hpassed, -, hcons⟩
  · rw [hpassed]
  · unfold insideFrom
    rw [hpassed, hcons, inside_cons_of_le hle, Bool.xor_not]
    rcases mod_two_eq_zero_or_one index with hmod | hmod
    · rw [decide_eq_true (show (index + 1) % 2 = 1 by omega), decide_eq_false (by omega)]
      simp
    · rw [decide_eq_false (show ¬(index + 1) % 2 = 1 by omega), decide_eq_true (by omega)]
      simp

lemma passed_le (hvalue : value ≤ codePointLimit) (hindex : index ≤ set.length) :
    passed set index value ≤ set.length := by
  rcases @drop_passed set index value hvalue with ⟨hpassed, -⟩ | ⟨hpassed, hlt, -⟩
  · omega
  · omega

lemma passed_self (hlt : index < set.length) :
    passed set index (set[index]?.getD (codePointLimit + 1)) = index + 1 ∧
      set[index]?.getD (codePointLimit + 1) ∈ set.drop index := by
  refine ⟨if_pos rfl, ?_⟩
  rw [getElem?_eq_getElem hlt, getD_some, drop_eq_getElem_cons hlt]
  exact mem_cons_self

lemma le_passed (set : MatcherSet) (index value : ℕ) : index ≤ passed set index value := by
  unfold passed
  split
  · omega
  · exact le_rfl

/-- A position has a boundary exactly when its value is at most the limit. -/
lemma value_le_iff (hset : InversionList set) :
    set[index]?.getD (codePointLimit + 1) ≤ codePointLimit ↔ index < set.length := by
  constructor
  · intro hle
    by_contra hge
    rw [getElem?_eq_none (by omega), getD_none] at hle
    omega
  · intro hlt
    rw [getElem?_eq_getElem hlt, getD_some]
    exact hset.bounded _ (getElem_mem hlt)

lemma depth_passed :
    ((passed set index value % 2 : ℕ) : ℤ) = ((index % 2 : ℕ) : ℤ) +
      if set[index]?.getD (codePointLimit + 1) = value then openingAt index else 0 := by
  unfold passed
  split
  · exact openingAt_depth index
  · rw [Int.add_zero]

lemma passed_mem {boundary : ℕ} (hvalue : value ≤ codePointLimit)
    (hmem : boundary ∈ set.drop (passed set index value)) : boundary ∈ set.drop index := by
  rcases @drop_passed set index value hvalue with ⟨hpassed, -⟩ | ⟨hpassed, -, hcons⟩
  · rwa [hpassed] at hmem
  · rw [hpassed] at hmem
    rw [hcons]
    exact mem_cons_of_mem _ hmem

end Passing

/-- What the loop of a union returns from two positions on. -/
structure UnionFrom (left right : MatcherSet) (leftIndex rightIndex : ℕ) (result : List ℕ) :
    Prop where
  sorted : result.Pairwise (· < ·)
  mem : ∀ boundary ∈ result, boundary ∈ left.drop leftIndex ∨ boundary ∈ right.drop rightIndex
  inside_eq : ∀ c, inside result c = xor (decide (0 < openDepth leftIndex rightIndex))
    (insideFrom left leftIndex c || insideFrom right rightIndex c)

lemma openDepth_pos {leftIndex rightIndex : ℕ} :
    decide (0 < openDepth leftIndex rightIndex) =
      (decide (leftIndex % 2 = 1) || decide (rightIndex % 2 = 1)) := by
  unfold openDepth
  rw [← Bool.decide_or]
  congr 1
  rw [eq_iff_iff]
  omega

/-- The boundary that the loop may write is the one where the union changes. -/
lemma UnionFrom.cons {leftIndex rightIndex value : ℕ} {rest : List ℕ}
    (hrest : UnionFrom left right (passed left leftIndex value) (passed right rightIndex value)
      rest)
    (hleft : left.Pairwise (· < ·)) (hright : right.Pairwise (· < ·))
    (hvalue : value ≤ codePointLimit)
    (hleftLe : value ≤ left[leftIndex]?.getD (codePointLimit + 1))
    (hrightLe : value ≤ right[rightIndex]?.getD (codePointLimit + 1))
    (hmem : value ∈ left.drop leftIndex ∨ value ∈ right.drop rightIndex) :
    UnionFrom left right leftIndex rightIndex
      (if decide (0 < openDepth leftIndex rightIndex) =
          decide (0 < openDepth (passed left leftIndex value) (passed right rightIndex value))
        then rest else value :: rest) := by
  have hleftGt := lt_of_passed hleft hvalue hleftLe
  have hrightGt := lt_of_passed hright hvalue hrightLe
  have hrestGt : ∀ boundary ∈ rest, value < boundary := fun boundary hboundary => by
    rcases hrest.mem boundary hboundary with h | h
    · exact hleftGt boundary h
    · exact hrightGt boundary h
  constructor
  · split
    · exact hrest.sorted
    · exact pairwise_cons.mpr ⟨hrestGt, hrest.sorted⟩
  · have hlater : ∀ boundary ∈ rest, boundary ∈ left.drop leftIndex ∨
        boundary ∈ right.drop rightIndex := fun boundary hboundary =>
      (hrest.mem boundary hboundary).imp (passed_mem hvalue) (passed_mem hvalue)
    split
    · exact hlater
    · intro boundary hboundary
      rcases mem_cons.mp hboundary with rfl | hboundary
      · exact hmem
      · exact hlater boundary hboundary
  · intro c
    rcases lt_or_ge c value with hlt | hge
    · -- Before the boundary, everything is as at the two positions.
      have hbefore : ∀ {set : MatcherSet} {index : ℕ}, set.Pairwise (· < ·) →
          value ≤ set[index]?.getD (codePointLimit + 1) →
          insideFrom set index c = decide (index % 2 = 1) := by
        intro set index hsorted hle
        unfold insideFrom
        rw [inside_of_lt, Bool.xor_false]
        intro boundary hboundary
        have hindex : index < set.length := by
          by_contra hge
          rw [drop_eq_nil_of_le (by omega)] at hboundary
          cases hboundary
        rw [getElem?_eq_getElem hindex, getD_some] at hle
        have hdrop := hsorted.sublist (drop_sublist index set)
        rw [drop_eq_getElem_cons hindex] at hboundary hdrop
        rcases mem_cons.mp hboundary with rfl | hboundary
        · omega
        · have := (pairwise_cons.mp hdrop).1 boundary hboundary
          omega
      rw [hbefore hleft hleftLe, hbefore hright hrightLe, openDepth_pos, Bool.xor_self]
      apply inside_of_lt
      intro boundary hboundary
      split at hboundary
      · exact hlt.trans (hrestGt boundary hboundary)
      · rcases mem_cons.mp hboundary with rfl | hboundary
        · exact hlt
        · exact hlt.trans (hrestGt boundary hboundary)
    · have hrestInside := hrest.inside_eq c
      rw [insideFrom_passed hvalue hge, insideFrom_passed hvalue hge] at hrestInside
      split
      · next hsame => rw [hrestInside, hsame]
      · next hchanges =>
        rw [inside_cons_of_le hge, hrestInside, ← Bool.not_xor]
        congr 1
        exact (Bool.eq_not.mpr hchanges).symm

/-- A boundary is written where the depth comes from zero or goes to zero. -/
lemma boundary_written {depth depth' : ℤ} (hdepth : 0 ≤ depth) (hdepth' : 0 ≤ depth')
    (value : ℕ) (rest : List ℕ) :
    (if depth = 0 ∧ depth' > 0 then value :: rest
      else if depth > 0 ∧ depth' = 0 then value :: rest else rest) =
      if decide (0 < depth) = decide (0 < depth') then rest else value :: rest := by
  by_cases h : 0 < depth
  · by_cases h' : 0 < depth'
    · rw [if_neg (by omega), if_neg (by omega), if_pos (by simp [h, h'])]
    · rw [if_neg (by omega), if_pos (by omega), if_neg (by simp [h, h'])]
  · by_cases h' : 0 < depth'
    · rw [if_pos (by omega), if_neg (by simp [h, h'])]
    · rw [if_neg (by omega), if_neg (by omega), if_pos (by simp [h, h'])]

/-- The loop of a union. -/
lemma setUnionLoop_spec (hleft : InversionList left) (hright : InversionList right)
    {fuel leftIndex rightIndex : ℕ}
    (hfuel : (left.length - leftIndex) + (right.length - rightIndex) ≤ fuel)
    (hleftIndex : leftIndex ≤ left.length) (hrightIndex : rightIndex ≤ right.length) :
    UnionFrom left right leftIndex rightIndex
      (setUnionLoop left right fuel leftIndex rightIndex (openDepth leftIndex rightIndex)) := by
  have hend : ∀ {leftIndex rightIndex}, left.length ≤ leftIndex → right.length ≤ rightIndex →
      leftIndex ≤ left.length → rightIndex ≤ right.length →
      UnionFrom left right leftIndex rightIndex [] := by
    intro leftIndex rightIndex hleftEnd hrightEnd hleftLe hrightLe
    have hleftEven := hleft.even
    have hrightEven := hright.even
    refine ⟨.nil, by simp, fun c => ?_⟩
    unfold insideFrom
    rw [openDepth_pos, drop_eq_nil_of_le hleftEnd, drop_eq_nil_of_le hrightEnd,
      decide_eq_false (show ¬leftIndex % 2 = 1 by omega),
      decide_eq_false (show ¬rightIndex % 2 = 1 by omega)]
    rfl
  induction fuel generalizing leftIndex rightIndex with
  | zero =>
    rw [setUnionLoop]
    exact hend (by omega) (by omega) hleftIndex hrightIndex
  | succ fuel ih =>
    rw [setUnionLoop]
    by_cases hmore : leftIndex < left.length ∨ rightIndex < right.length
    · rw [if_pos hmore]
      dsimp only
      set leftValue := left[leftIndex]?.getD (codePointLimit + 1) with hleftValue
      set rightValue := right[rightIndex]?.getD (codePointLimit + 1) with hrightValue
      have hat : min leftValue rightValue ≤ codePointLimit ∧
          (min leftValue rightValue ∈ left.drop leftIndex ∨
            min leftValue rightValue ∈ right.drop rightIndex) ∧
          left.length - passed left leftIndex (min leftValue rightValue) +
            (right.length - passed right rightIndex (min leftValue rightValue)) ≤ fuel ∧
          passed left leftIndex (min leftValue rightValue) ≤ left.length ∧
          passed right rightIndex (min leftValue rightValue) ≤ right.length := by
        have hleftIff := @value_le_iff left leftIndex hleft
        have hrightIff := @value_le_iff right rightIndex hright
        have hvalue : min leftValue rightValue ≤ codePointLimit := by
          rw [min_le_iff, hleftIff, hrightIff]
          exact hmore
        have hleftLe := le_passed left leftIndex (min leftValue rightValue)
        have hrightLe := le_passed right rightIndex (min leftValue rightValue)
        refine ⟨hvalue, ?_, ?_, passed_le hvalue hleftIndex, passed_le hvalue hrightIndex⟩
        · rcases min_choice leftValue rightValue with hmin | hmin
          · left
            rw [hmin] at hvalue ⊢
            exact (passed_self (hleftIff.mp hvalue)).2
          · right
            rw [hmin] at hvalue ⊢
            exact (passed_self (hrightIff.mp hvalue)).2
        · rcases min_choice leftValue rightValue with hmin | hmin
          · rw [hmin] at hvalue hrightLe ⊢
            have hlt := hleftIff.mp hvalue
            rw [(passed_self hlt).1]
            omega
          · rw [hmin] at hvalue hleftLe ⊢
            have hlt := hrightIff.mp hvalue
            rw [(passed_self hlt).1]
            omega
      obtain ⟨hvalue, hmem, hless, hleftPassed, hrightPassed⟩ := hat
      have hrest := ih hless hleftPassed hrightPassed
      have hcons := hrest.cons hleft.sorted hright.sorted hvalue (min_le_left ..)
        (min_le_right ..) hmem
      have hdepth : openDepth (passed left leftIndex (min leftValue rightValue))
          (passed right rightIndex (min leftValue rightValue)) =
          openDepth leftIndex rightIndex +
            ((if leftValue = min leftValue rightValue then openingAt leftIndex else 0) +
              if rightValue = min leftValue rightValue then openingAt rightIndex else 0) := by
        unfold openDepth
        rw [depth_passed, depth_passed]
        ring
      have hnonneg : 0 ≤ openDepth (passed left leftIndex (min leftValue rightValue))
          (passed right rightIndex (min leftValue rightValue)) := by
        unfold openDepth
        positivity
      have hnonneg' : 0 ≤ openDepth leftIndex rightIndex := by
        unfold openDepth
        positivity
      rw [← hdepth]
      convert hcons using 1
      exact boundary_written hnonneg' hnonneg _ _
    · rw [if_neg hmore]
      exact hend (by omega) (by omega) hleftIndex hrightIndex

lemma inside_of_limit (hset : InversionList set) (hle : codePointLimit ≤ c) :
    inside set c = false :=
  hset.inside_of_le fun boundary hmem => (hset.bounded boundary hmem).trans hle

/-- A list of boundaries with the answers of a set of code points. -/
lemma InversionList.of_inside (hsorted : set.Pairwise (· < ·))
    (hbounded : ∀ boundary ∈ set, boundary ≤ codePointLimit)
    (hinside : inside set codePointLimit = false) : InversionList set :=
  ⟨⟨hsorted, even_of_inside hbounded hinside⟩, hbounded⟩

/-- The union holds what either list holds. -/
lemma setUnion_spec (hleft : InversionList left) (hright : InversionList right) :
    InversionList (setUnion left right) ∧
      ∀ c, inside (setUnion left right) c = (inside left c || inside right c) := by
  have hunion : UnionFrom left right 0 0 (setUnion left right) :=
    setUnionLoop_spec hleft hright (by omega) (by omega) (by omega)
  have hinside : ∀ c, inside (setUnion left right) c = (inside left c || inside right c) := by
    intro c
    rw [hunion.inside_eq, insideFrom_zero, insideFrom_zero, openDepth_pos]
    simp
  have hbounded : ∀ boundary ∈ setUnion left right, boundary ≤ codePointLimit := by
    intro boundary hmem
    rcases hunion.mem boundary hmem with h | h
    · exact hleft.bounded boundary (mem_of_mem_drop h)
    · exact hright.bounded boundary (mem_of_mem_drop h)
  refine ⟨.of_inside hunion.sorted hbounded ?_, hinside⟩
  rw [hinside, inside_of_limit hleft le_rfl, inside_of_limit hright le_rfl]
  rfl

/-! ## Running unions -/

/-- Every slot of a running union holds an inversion list. -/
def SlotsHeld (slots : SetUnionSlots) : Prop :=
  ∀ held ∈ slots, ∀ set, held = some set → InversionList set

/-- Some slot of a running union holds a code point. -/
def slotsInside (slots : SetUnionSlots) (c : ℕ) : Bool :=
  slots.any fun held => held.any (inside · c)

/-- A list added to a running union. -/
lemma addSetUnion_spec {slots : SetUnionSlots} (hslots : SlotsHeld slots)
    (hset : InversionList set) :
    SlotsHeld (addSetUnion slots set) ∧
      ∀ c, slotsInside (addSetUnion slots set) c = (slotsInside slots c || inside set c) := by
  induction slots generalizing set with
  | nil =>
    rw [addSetUnion]
    refine ⟨fun held hmem other hother => ?_, fun c => by simp [slotsInside]⟩
    rw [mem_singleton.mp hmem] at hother
    cases hother
    exact hset
  | cons held slots ih =>
    have hrest : SlotsHeld slots := fun other hmem => hslots other (mem_cons_of_mem _ hmem)
    cases held with
    | none =>
      rw [addSetUnion]
      refine ⟨fun held hmem other hother => ?_, fun c => ?_⟩
      · rcases mem_cons.mp hmem with rfl | hmem
        · cases hother
          exact hset
        · exact hrest held hmem other hother
      · simp [slotsInside, Bool.or_comm]
    | some held =>
      rw [addSetUnion]
      have hheld : InversionList held := hslots _ mem_cons_self held rfl
      obtain ⟨hunion, hinside⟩ := setUnion_spec hheld hset
      obtain ⟨hadded, hslotsInside⟩ := ih hrest hunion
      refine ⟨fun other hmem => ?_, fun c => ?_⟩
      · rcases mem_cons.mp hmem with rfl | hmem
        · intro set hset
          cases hset
        · exact hadded other hmem
      · have hcarried := hslotsInside c
        rw [hinside] at hcarried
        simp only [slotsInside, any_cons, any_none, any_some,
          Bool.false_or] at hcarried ⊢
        rw [hcarried]
        ac_rfl

/-- The union of all slots. -/
lemma finishSetUnion_spec {slots : SetUnionSlots} (hslots : SlotsHeld slots) :
    InversionList (finishSetUnion slots) ∧
      ∀ c, inside (finishSetUnion slots) c = slotsInside slots c := by
  obtain ⟨step, hstep, hnone, hsome⟩ : ∃ step, finishSetUnion slots = slots.foldl step [] ∧
      (∀ union, step union none = union) ∧
        ∀ union set, step union (some set) = setUnion union set :=
    ⟨_, rfl, fun _ => rfl, fun _ _ => rfl⟩
  rw [hstep]
  clear hstep
  have hfold : ∀ {union}, InversionList union → InversionList (slots.foldl step union) ∧
      ∀ c, inside (slots.foldl step union) c = (inside union c || slotsInside slots c) := by
    induction slots with
    | nil =>
      intro union hunion
      exact ⟨hunion, fun c => by simp [slotsInside]⟩
    | cons held slots ih =>
      have hrest : SlotsHeld slots := fun other hmem => hslots other (mem_cons_of_mem _ hmem)
      intro union hunion
      rw [foldl_cons]
      cases held with
      | none =>
        rw [hnone]
        obtain ⟨hlist, hinside⟩ := ih hrest hunion
        exact ⟨hlist, fun c => by rw [hinside]; rfl⟩
      | some held =>
        rw [hsome]
        have hheld : InversionList held := hslots _ mem_cons_self held rfl
        obtain ⟨hunion', hinside'⟩ := setUnion_spec hunion hheld
        obtain ⟨hlist, hinside⟩ := ih hrest hunion'
        refine ⟨hlist, fun c => ?_⟩
        rw [hinside, hinside']
        simp only [slotsInside, any_cons, any_some]
        rw [Bool.or_assoc]
  obtain ⟨hlist, hinside⟩ := hfold .nil
  exact ⟨hlist, fun c => (hinside c).trans (Bool.false_or _)⟩

/-- Any number of lists added one after the other. -/
lemma foldl_addSetUnion_spec {sets : List MatcherSet} {slots : SetUnionSlots}
    (hslots : SlotsHeld slots) (hsets : ∀ set ∈ sets, InversionList set) :
    SlotsHeld (sets.foldl addSetUnion slots) ∧
      ∀ c, slotsInside (sets.foldl addSetUnion slots) c =
        (slotsInside slots c || sets.any (inside · c)) := by
  induction sets generalizing slots with
  | nil => exact ⟨hslots, fun c => by simp⟩
  | cons set sets ih =>
    obtain ⟨hadded, hinside⟩ := addSetUnion_spec hslots (hsets set mem_cons_self)
    obtain ⟨hfold, hfoldInside⟩ := ih hadded fun other hmem =>
      hsets other (mem_cons_of_mem _ hmem)
    refine ⟨hfold, fun c => ?_⟩
    rw [foldl_cons, hfoldInside, hinside, any_cons, Bool.or_assoc]

lemma SlotsHeld.nil : SlotsHeld [] := fun _ hmem => by cases hmem

/-- The running union of any number of lists. -/
lemma finishSetUnion_foldl_spec {sets : List MatcherSet} (hsets : ∀ set ∈ sets, InversionList set) :
    InversionList (finishSetUnion (sets.foldl addSetUnion [])) ∧
      ∀ c, inside (finishSetUnion (sets.foldl addSetUnion [])) c = sets.any (inside · c) := by
  obtain ⟨hslots, hslotsInside⟩ := foldl_addSetUnion_spec .nil hsets
  obtain ⟨hlist, hinside⟩ := finishSetUnion_spec hslots
  refine ⟨hlist, fun c => ?_⟩
  rw [hinside, hslotsInside]
  rfl

/-! ## Complement -/

lemma nil_of_even (heven : set.length % 2 = 0)
    (hshort : ∀ start finish rest, set = start :: finish :: rest → False) : set = [] := by
  match set, hshort, heven with
  | [], _, _ => rfl
  | [_], _, heven => simp at heven
  | start :: finish :: rest, hshort, _ => exact (hshort start finish rest rfl).elim

lemma setComplementLoop_spec {position : ℕ} (hset : InversionList set)
    (hposition : position ≤ codePointLimit) (hle : ∀ boundary ∈ set, position ≤ boundary) :
    (setComplementLoop position set).Pairwise (· < ·) ∧
      (∀ boundary ∈ setComplementLoop position set,
        position ≤ boundary ∧ boundary ≤ codePointLimit) ∧
      ∀ c, inside (setComplementLoop position set) c =
        (decide (position ≤ c) && decide (c < codePointLimit) && !inside set c) := by
  induction position, set using setComplementLoop.induct with
  | case1 position start finish rest ih =>
    have hsorted := hset.sorted
    rw [pairwise_cons, pairwise_cons] at hsorted
    obtain ⟨hstart, hfinish, hrest⟩ := hsorted
    have hstartFinish : start < finish := hstart finish mem_cons_self
    have hpositionStart : position ≤ start := hle start mem_cons_self
    have hfinishLimit : finish ≤ codePointLimit := hset.bounded finish (by simp)
    have hrestList : InversionList rest := by
      refine ⟨⟨hrest, ?_⟩, fun boundary hmem => hset.bounded boundary (by simp [hmem])⟩
      have := hset.even
      simp only [length_cons] at this
      omega
    obtain ⟨ihSorted, ihMem, ihInside⟩ := ih hrestList hfinishLimit
      fun boundary hmem => (hfinish boundary hmem).le
    rw [setComplementLoop]
    refine ⟨?_, fun boundary hmem => ?_, fun c => ?_⟩
    · split
      · refine pairwise_append.mpr ⟨by simpa using ‹start > position›, ihSorted, ?_⟩
        intro boundary hmem later hlater
        have := (ihMem later hlater).1
        rcases mem_pair.mp hmem with rfl | rfl
        · omega
        · omega
      · exact ihSorted
    · rcases mem_append.mp hmem with hmem | hmem
      · split at hmem
        · rcases mem_pair.mp hmem with rfl | rfl
          · omega
          · omega
        · cases hmem
      · have := ihMem boundary hmem
        omega
    · have hpair : inside (if start > position then [position, start] else []) c =
          xor (decide (position ≤ c)) (decide (start ≤ c)) := by
        split
        · rw [inside_cons, inside_cons, inside_nil, Bool.xor_false]
        · have hsame : start = position := by omega
          rw [hsame, Bool.xor_self, inside_nil]
      rw [inside_append, hpair, ihInside, inside_cons, inside_cons]
      rcases lt_or_ge c finish with hlt | hge
      · have hnone : inside rest c = false :=
          inside_of_lt fun boundary hmem => hlt.trans (hfinish boundary hmem)
        rw [hnone, decide_eq_false (show ¬finish ≤ c by omega),
          decide_eq_true (show c < codePointLimit by omega)]
        by_cases hstart : start ≤ c
        · simp [hstart, show position ≤ c by omega]
        · simp [hstart]
      · simp [hge, show start ≤ c by omega, show position ≤ c by omega]
  | case2 set position hnot hlt =>
    obtain rfl := nil_of_even hset.even hlt
    rw [setComplementLoop, if_pos hnot]
    · refine ⟨by simpa using hnot, fun boundary hmem => ?_, fun c => ?_⟩
      · rcases mem_pair.mp hmem with rfl | rfl
        · omega
        · omega
      · rw [inside_cons, inside_cons, inside_nil, Bool.xor_false, Bool.not_false, Bool.and_true]
        by_cases hpositionLe : position ≤ c
        · rw [decide_eq_true hpositionLe, Bool.true_xor, Bool.true_and, ← decide_not]
          congr 1
          rw [eq_iff_iff]
          omega
        · rw [decide_eq_false hpositionLe, decide_eq_false (show ¬codePointLimit ≤ c by omega)]
          rfl
    · exact hlt
  | case3 set position hnot hlt =>
    obtain rfl := nil_of_even hset.even hlt
    rw [setComplementLoop, if_neg hnot]
    · refine ⟨.nil, by simp, fun c => ?_⟩
      rw [inside_nil, eq_comm, Bool.and_eq_false_iff]
      left
      rw [Bool.and_eq_false_iff, decide_eq_false_iff_not, decide_eq_false_iff_not]
      omega
    · exact hlt

/-- The complement holds the code points that the list does not hold. -/
lemma setComplement_spec (hset : InversionList set) :
    InversionList (setComplement set) ∧
      ∀ c, inside (setComplement set) c = (decide (c < codePointLimit) && !inside set c) := by
  obtain ⟨hsorted, hmem, hinside⟩ := setComplementLoop_spec hset (zero_le _)
    fun boundary _ => zero_le boundary
  have hinside' : ∀ c, inside (setComplement set) c =
      (decide (c < codePointLimit) && !inside set c) := fun c => by
    rw [setComplement, hinside, decide_eq_true (zero_le c), Bool.true_and]
  refine ⟨.of_inside hsorted (fun boundary hboundary => (hmem boundary hboundary).2) ?_, hinside'⟩
  have := hinside' codePointLimit
  rw [decide_eq_false (lt_irrefl _), Bool.false_and] at this
  exact this

/-! ## Combination at every boundary -/

/-- The loop over the points from `point` on. Between two of them, no list has a boundary. -/
lemma combineSetsLoop_spec (hleft : InversionList left) (hright : InversionList right)
    {choose : Bool → Bool → Bool} (hchoose : choose false false = false) {point : ℕ}
    {points : List ℕ} (hsorted : (point :: points).Pairwise (· < ·))
    (hlast : (point :: points).getLast? = some codePointLimit)
    (hpoints : ∀ boundary, boundary ∈ left ∨ boundary ∈ right → point < boundary →
      boundary ∈ points) (included : Bool) :
    (combineSetsLoop left right choose (point :: points) included).Pairwise (· < ·) ∧
      (∀ boundary ∈ combineSetsLoop left right choose (point :: points) included,
        boundary ∈ point :: points) ∧
      ∀ c, point ≤ c → inside (combineSetsLoop left right choose (point :: points) included) c =
        xor included (choose (inside left c) (inside right c)) := by
  induction points generalizing point included with
  | nil =>
    rw [getLast?_singleton, some.injEq] at hlast
    subst hlast
    rw [combineSetsLoop]
    · refine ⟨?_, fun boundary hmem => ?_, fun c hc => ?_⟩
      · split
        · exact pairwise_singleton _ _
        · exact .nil
      · split at hmem
        · exact hmem
        · cases hmem
      · rw [inside_of_limit hleft hc, inside_of_limit hright hc, hchoose, Bool.xor_false]
        cases included with
        | false => rfl
        | true => exact inside_cons_of_le hc
    · simp
  | cons next points ih =>
    have hrestSorted := (pairwise_cons.mp hsorted).2
    have hpointNext : point < next := (pairwise_cons.mp hsorted).1 next mem_cons_self
    have hnext : ∀ boundary, boundary ∈ left ∨ boundary ∈ right → next < boundary →
        boundary ∈ points := fun boundary hmem hlt =>
      (mem_cons.mp (hpoints boundary hmem (hpointNext.trans hlt))).resolve_left hlt.ne'
    rw [getLast?_cons_cons] at hlast
    set now := choose (setHas left point) (setHas right point) with hnow
    obtain ⟨ihSorted, ihMem, ihInside⟩ := ih hrestSorted hlast hnext now
    have hge : ∀ boundary ∈ combineSetsLoop left right choose (next :: points) now,
        next ≤ boundary := fun boundary hmem => by
      rcases mem_cons.mp (ihMem boundary hmem) with rfl | hmem
      · exact le_rfl
      · exact ((pairwise_cons.mp hrestSorted).1 boundary hmem).le
    rw [combineSetsLoop, ← hnow]
    refine ⟨?_, fun boundary hmem => ?_, fun c hc => ?_⟩
    · split
      · exact pairwise_cons.mpr
          ⟨fun boundary hmem => hpointNext.trans_le (hge boundary hmem), ihSorted⟩
      · exact ihSorted
    · rcases mem_append.mp hmem with hmem | hmem
      · split at hmem
        · rw [mem_singleton.mp hmem]
          exact mem_cons_self
        · cases hmem
      · exact mem_cons_of_mem _ (ihMem boundary hmem)
    · have hhead : ∀ now included : Bool,
          inside (if now ≠ included then [point] else []) c = xor now included := by
        intro now included
        cases now <;> cases included <;> simp [inside_cons_of_le hc]
      rw [inside_append, hhead]
      rcases lt_or_ge c next with hlt | hge'
      · -- No boundary stands after `point`, up to here.
        have hsame : ∀ {set : MatcherSet}, (∀ boundary ∈ set, boundary ∈ left ∨ boundary ∈ right) →
            inside set point = inside set c := by
          intro set hmember
          refine inside_congr hc fun boundary hmem hle => ?_
          by_contra hgt
          have hin := hpoints boundary (hmember boundary hmem) (not_le.mp hgt)
          rcases mem_cons.mp hin with rfl | hin
          · omega
          · have := (pairwise_cons.mp hrestSorted).1 boundary hin
            omega
        rw [inside_of_lt fun boundary hmem => hlt.trans_le (hge boundary hmem), Bool.xor_false,
          hnow, setHas_eq hleft.sorted, setHas_eq hright.sorted, hsame fun _ => .inl,
          hsame fun _ => .inr, Bool.xor_comm]
      · rw [ihInside c hge']
        cases now <;> cases included <;> simp

/-- The last element of an increasing list that holds its upper bound. -/
lemma getLast?_of_max {points : List ℕ} {most : ℕ} (hsorted : points.Pairwise (· < ·))
    (hmem : most ∈ points) (hle : ∀ point ∈ points, point ≤ most) :
    points.getLast? = some most := by
  rcases eq_nil_or_concat points with rfl | ⟨before, last, rfl⟩
  · cases hmem
  · rw [concat_eq_append] at hsorted hmem hle ⊢
    rw [getLast?_append, getLast?_singleton, some_or]
    rcases mem_append.mp hmem with hbefore | hlast
    · have hlt := (pairwise_append.mp hsorted).2.2 most hbefore last mem_cons_self
      have := hle last (mem_append_right _ mem_cons_self)
      omega
    · rw [mem_singleton.mp hlast]

section
variable (hleft : InversionList left) (hright : InversionList right)
include hleft hright

/-- Two lists combined point by point. -/
lemma combineSets_spec {choose : Bool → Bool → Bool} (hchoose : choose false false = false) :
    InversionList (combineSets left right choose) ∧
      ∀ c, inside (combineSets left right choose) c = choose (inside left c) (inside right c) := by
  unfold combineSets
  set points := (0 :: left ++ right ++ [codePointLimit]).dedup.insertionSort (· ≤ ·)
    with hpoints
  have hmem : ∀ {point}, point ∈ points ↔
      point = 0 ∨ point ∈ left ∨ point ∈ right ∨ point = codePointLimit := by
    intro point
    rw [hpoints, mem_insertionSort, mem_dedup]
    simp
  have hle : ∀ point ∈ points, point ≤ codePointLimit := by
    intro point hpoint
    rcases hmem.mp hpoint with rfl | h | h | rfl
    · exact zero_le _
    · exact hleft.bounded point h
    · exact hright.bounded point h
    · exact le_rfl
  have hsorted : points.Pairwise (· < ·) := by
    have hnodup : points.Nodup :=
      (perm_insertionSort _ _).nodup_iff.mpr (nodup_dedup _)
    have hordered : points.Pairwise (· ≤ ·) := pairwise_insertionSort (· ≤ ·) _
    exact hordered.imp₂ (fun _ _ hle hne => lt_of_le_of_ne hle hne) hnodup
  have hlast := getLast?_of_max hsorted (hmem.mpr (by simp)) hle
  obtain ⟨first, rest, hcons⟩ : ∃ first rest, points = first :: rest := by
    cases hcases : points with
    | nil =>
      rw [hcases] at hlast
      cases hlast
    | cons first rest => exact ⟨first, rest, rfl⟩
  have hfirst : first = 0 := by
    have hzero : 0 ∈ points := hmem.mpr (.inl rfl)
    rw [hcons] at hzero hsorted
    rcases mem_cons.mp hzero with hzero | hzero
    · exact hzero.symm
    · have := (pairwise_cons.mp hsorted).1 0 hzero
      omega
  have hrest : ∀ boundary, boundary ∈ left ∨ boundary ∈ right → first < boundary →
      boundary ∈ rest := by
    intro boundary hboundary hlt
    have hin : boundary ∈ points := hmem.mpr (by tauto)
    rw [hcons] at hin
    exact (mem_cons.mp hin).resolve_left hlt.ne'
  rw [hcons] at hsorted hlast ⊢
  obtain ⟨hresult, hresultMem, hinside⟩ :=
    combineSetsLoop_spec hleft hright hchoose hsorted hlast hrest false
  have hinside' : ∀ c, inside (combineSetsLoop left right choose (first :: rest) false) c =
      choose (inside left c) (inside right c) := fun c => by
    rw [hinside c (by omega), Bool.false_xor]
  refine ⟨.of_inside hresult (fun boundary hboundary => hle boundary ?_) ?_, hinside'⟩
  · rw [hcons]
    exact hresultMem boundary hboundary
  · rw [hinside', inside_of_limit hleft le_rfl, inside_of_limit hright le_rfl, hchoose]

lemma setIntersection_spec :
    InversionList (setIntersection left right) ∧
      ∀ c, inside (setIntersection left right) c = (inside left c && inside right c) :=
  combineSets_spec hleft hright rfl

lemma setDifference_spec :
    InversionList (setDifference left right) ∧
      ∀ c, inside (setDifference left right) c = (inside left c && !inside right c) :=
  combineSets_spec hleft hright rfl

end

/-! ## Ranges -/

/-- Whether an inclusive range covers a code point. -/
def covers (range : ℕ × ℕ) (c : ℕ) : Bool := range.1 ≤ c && c ≤ range.2

/-- The boundaries of the loop, the last one first: all but the end of the last range stand at or
before every range to come. -/
structure Written (boundaries : List ℕ) (ranges : List (ℕ × ℕ)) : Prop where
  sorted : boundaries.Pairwise (· > ·)
  even : boundaries.length % 2 = 0
  before : ∀ boundary ∈ boundaries.tail, ∀ range ∈ ranges, boundary ≤ range.1

lemma inside_range {start finish : ℕ} (hle : start ≤ finish) :
    inside [finish + 1, start] c = covers (start, finish) c := by
  rw [inside_cons, inside_cons, inside_nil, Bool.xor_false, covers]
  by_cases hfinish : finish + 1 ≤ c
  · rw [decide_eq_true hfinish, decide_eq_true (show start ≤ c by omega),
      decide_eq_false (show ¬c ≤ finish by omega)]
    rfl
  · rw [decide_eq_false hfinish, decide_eq_true (show c ≤ finish by omega), Bool.false_xor,
      Bool.and_true]

/-- The last range written is open before its end. -/
lemma Written.inside_tail {previousEnd : ℕ} {before : List ℕ} {ranges : List (ℕ × ℕ)}
    {range : ℕ × ℕ} (hwritten : Written (previousEnd :: before) (range :: ranges))
    (hle : range.1 ≤ c) : inside before c = true := by
  have heven := hwritten.even
  rw [length_cons] at heven
  have hbefore : ∀ boundary ∈ before, boundary ≤ c := fun boundary hmem =>
    (hwritten.before boundary hmem range mem_cons_self).trans hle
  rw [Library.inside_of_le hbefore]
  exact decide_eq_true (by omega)

/-- One range is written. -/
lemma Written.range {boundaries : List ℕ} {ranges : List (ℕ × ℕ)} {start finish : ℕ}
    (hwritten : Written boundaries ((start, finish) :: ranges)) (hrange : start ≤ finish)
    (hlater : ∀ range ∈ ranges, start ≤ range.1) :
    ∃ boundaries', setOfRangesLoop boundaries ((start, finish) :: ranges) =
        setOfRangesLoop boundaries' ranges ∧ Written boundaries' ranges ∧
      (∀ c, inside boundaries' c = (inside boundaries c || covers (start, finish) c)) ∧
      ∀ boundary ∈ boundaries', boundary ∈ boundaries ∨ boundary = start ∨
        boundary = finish + 1 := by
  have hbefore : ∀ boundary ∈ boundaries.tail, boundary ≤ start := fun boundary hmem =>
    hwritten.before boundary hmem _ mem_cons_self
  cases boundaries with
  | nil =>
    refine ⟨[finish + 1, start], rfl, ⟨?_, by simp, ?_⟩, fun c => ?_, by simp⟩
    · simp
      omega
    · simpa using hlater
    · rw [inside_range hrange, inside_nil, Bool.false_or]
  | cons previousEnd before =>
    rw [tail_cons] at hbefore
    have hsorted := hwritten.sorted
    have heven := hwritten.even
    rw [pairwise_cons] at hsorted
    rw [setOfRangesLoop]
    by_cases htouches : start ≤ previousEnd
    · rw [if_pos htouches]
      by_cases hlonger : finish + 1 > previousEnd
      · -- The last range grows.
        rw [if_pos hlonger]
        refine ⟨_, rfl, ⟨?_, heven, fun boundary hmem range hrange => ?_⟩, fun c => ?_, ?_⟩
        · refine pairwise_cons.mpr ⟨fun boundary hmem => ?_, hsorted.2⟩
          exact (hsorted.1 boundary hmem).trans hlonger
        · exact hwritten.before boundary hmem range (mem_cons_of_mem _ hrange)
        · rw [inside_cons, inside_cons, covers]
          by_cases hstart : start ≤ c
          · rw [hwritten.inside_tail hstart, decide_eq_true hstart]
            by_cases hfinish : finish + 1 ≤ c
            · rw [decide_eq_true hfinish, decide_eq_true (show previousEnd ≤ c by omega),
                decide_eq_false (show ¬c ≤ finish by omega)]
              rfl
            · rw [decide_eq_false hfinish, decide_eq_true (show c ≤ finish by omega),
                Bool.and_self, Bool.or_true]
              rfl
          · rw [decide_eq_false hstart, decide_eq_false (show ¬finish + 1 ≤ c by omega),
              decide_eq_false (show ¬previousEnd ≤ c by omega), Bool.false_and, Bool.or_false]
        · intro boundary hmem
          rcases mem_cons.mp hmem with rfl | hmem
          · exact .inr (.inr rfl)
          · exact .inl (mem_cons_of_mem _ hmem)
      · -- The last range covers this one.
        rw [if_neg hlonger]
        refine ⟨_, rfl, ⟨hwritten.sorted, heven, fun boundary hmem range hrange => ?_⟩,
          fun c => ?_, fun _ => .inl⟩
        · exact hwritten.before boundary hmem range (mem_cons_of_mem _ hrange)
        · cases hcovers : covers (start, finish) c with
          | false => rw [Bool.or_false]
          | true =>
            simp only [covers, Bool.and_eq_true, decide_eq_true_eq] at hcovers
            rw [inside_cons, hwritten.inside_tail hcovers.1,
              decide_eq_false (show ¬previousEnd ≤ c by omega)]
            rfl
    · -- A range of its own.
      rw [if_neg htouches]
      refine ⟨_, rfl, ⟨?_, ?_, fun boundary hmem range hrange => ?_⟩, fun c => ?_, ?_⟩
      · refine pairwise_cons.mpr ⟨fun boundary hmem => ?_,
          pairwise_cons.mpr ⟨fun boundary hmem => ?_, hwritten.sorted⟩⟩
        · rcases mem_cons.mp hmem with rfl | hmem
          · omega
          · rcases mem_cons.mp hmem with rfl | hmem
            · omega
            · have := hbefore boundary hmem
              omega
        · rcases mem_cons.mp hmem with rfl | hmem
          · omega
          · have := hsorted.1 boundary hmem
            omega
      · rw [length_cons, length_cons]
        omega
      · have := hlater range hrange
        rw [tail_cons] at hmem
        rcases mem_cons.mp hmem with rfl | hmem
        · exact this
        · rcases mem_cons.mp hmem with rfl | hmem
          · omega
          · exact (hbefore boundary hmem).trans this
      · have hpair : inside ((finish + 1) :: start :: previousEnd :: before) c =
            xor (inside [finish + 1, start] c) (inside (previousEnd :: before) c) :=
          inside_append [finish + 1, start] (previousEnd :: before)
        rw [hpair, inside_range hrange]
        cases hcovers : covers (start, finish) c with
        | false => rw [Bool.false_xor, Bool.or_false]
        | true =>
          simp only [covers, Bool.and_eq_true, decide_eq_true_eq] at hcovers
          have hnone : inside (previousEnd :: before) c = false := by
            rw [inside_cons_of_le (by omega), hwritten.inside_tail hcovers.1]
            rfl
          rw [hnone]
          rfl
      · intro boundary hmem
        rcases mem_cons.mp hmem with rfl | hmem
        · exact .inr (.inr rfl)
        · rcases mem_cons.mp hmem with rfl | hmem
          · exact .inr (.inl rfl)
          · exact .inl hmem

/-- The loop over sorted ranges. -/
lemma setOfRangesLoop_spec {boundaries : List ℕ} {ranges : List (ℕ × ℕ)}
    (hwritten : Written boundaries ranges) (hranges : ∀ range ∈ ranges, range.1 ≤ range.2)
    (hsorted : ranges.Pairwise fun first second => first.1 ≤ second.1) :
    Written (setOfRangesLoop boundaries ranges) [] ∧
      (∀ c, inside (setOfRangesLoop boundaries ranges) c =
        (inside boundaries c || ranges.any (covers · c))) ∧
      ∀ boundary ∈ setOfRangesLoop boundaries ranges, boundary ∈ boundaries ∨
        ∃ range ∈ ranges, boundary = range.1 ∨ boundary = range.2 + 1 := by
  induction ranges generalizing boundaries with
  | nil =>
    have hsame : setOfRangesLoop boundaries [] = boundaries := by
      cases boundaries <;> rfl
    rw [hsame]
    exact ⟨⟨hwritten.sorted, hwritten.even, by simp⟩, fun c => by simp, fun _ => .inl⟩
  | cons range ranges ih =>
    obtain ⟨start, finish⟩ := range
    rw [pairwise_cons] at hsorted
    obtain ⟨boundaries', hloop, hwritten', hinside, hmem⟩ :=
      hwritten.range (hranges _ mem_cons_self) hsorted.1
    obtain ⟨ihWritten, ihInside, ihMem⟩ :=
      ih hwritten' (fun range hmem => hranges range (mem_cons_of_mem _ hmem)) hsorted.2
    rw [hloop]
    refine ⟨ihWritten, fun c => ?_, fun boundary hboundary => ?_⟩
    · rw [ihInside, hinside, any_cons, Bool.or_assoc]
    · rcases ihMem boundary hboundary with h | ⟨range, hrange, h⟩
      · rcases hmem boundary h with h | h
        · exact .inl h
        · exact .inr ⟨_, mem_cons_self, h⟩
      · exact .inr ⟨range, mem_cons_of_mem _ hrange, h⟩

/-- The list of any ranges covers what the ranges cover. -/
lemma setOfRanges_spec (ranges : List (ℕ × ℕ)) :
    Increasing (setOfRanges ranges) ∧
      (∀ c, inside (setOfRanges ranges) c = ranges.any (covers · c)) ∧
      ((∀ range ∈ ranges, range.2 ≤ maximumCodePoint) → InversionList (setOfRanges ranges)) := by
  unfold setOfRanges
  set kept := ranges.filter fun range => range.1 ≤ range.2 with hkept
  set sorted := kept.insertionSort fun first second => first.1 ≤ second.1 with hsorted
  have hmem : ∀ {range}, range ∈ sorted ↔ range ∈ ranges ∧ range.1 ≤ range.2 := by
    intro range
    rw [hsorted, mem_insertionSort, hkept, mem_filter, decide_eq_true_eq]
  have hordered : sorted.Pairwise fun first second => first.1 ≤ second.1 := by
    exact pairwise_insertionSort _ _
  obtain ⟨hwritten, hinside, hboundaries⟩ :=
    setOfRangesLoop_spec ⟨.nil, rfl, by simp⟩
      (fun range hrange => (hmem.mp hrange).2) hordered
  have hincreasing : Increasing (setOfRangesLoop [] sorted).reverse :=
    ⟨pairwise_reverse.mpr hwritten.sorted, by
      rw [length_reverse]
      exact hwritten.even⟩
  refine ⟨hincreasing, fun c => ?_, fun hbounded => ⟨hincreasing, fun boundary hboundary => ?_⟩⟩
  · rw [inside_reverse, hinside, inside_nil, Bool.false_or, Bool.eq_iff_iff, List.any_eq_true,
      List.any_eq_true]
    constructor
    · rintro ⟨range, hrange, hcovers⟩
      exact ⟨range, (hmem.mp hrange).1, hcovers⟩
    · rintro ⟨range, hrange, hcovers⟩
      refine ⟨range, hmem.mpr ⟨hrange, ?_⟩, hcovers⟩
      simp only [covers, Bool.and_eq_true, decide_eq_true_eq] at hcovers
      omega
  · rcases hboundaries boundary (mem_reverse.mp hboundary) with h | ⟨range, hrange, h⟩
    · cases h
    · have := hmem.mp hrange
      have := hbounded range this.1
      unfold codePointLimit
      omega

/-! ## The operations -/

/-- An inversion list of the code points that a predicate names. -/
structure ListOf (set : MatcherSet) (members : ℕ → Bool) : Prop extends InversionList set where
  has : ∀ c ≤ maximumCodePoint, setHas set c = members c

lemma InversionList.listOf {members : ℕ → Bool} (hset : InversionList set)
    (hinside : ∀ c ≤ maximumCodePoint, inside set c = members c) : ListOf set members :=
  ⟨hset, fun c hc => (setHas_eq hset.sorted c).trans (hinside c hc)⟩

/-- Every operation on inversion lists holds what it is named after. -/
theorem setOperations_listOf {sets : List MatcherSet} (hleft : InversionList left)
    (hright : InversionList right) (hsets : ∀ set ∈ sets, InversionList set)
    (ranges : List (ℕ × ℕ)) :
    ListOf (setUnion left right) (fun c => setHas left c || setHas right c) ∧
      ListOf (finishSetUnion (sets.foldl addSetUnion [])) (fun c => sets.any (setHas · c)) ∧
      ListOf (setComplement left) (fun c => !setHas left c) ∧
      ListOf (setIntersection left right) (fun c => setHas left c && setHas right c) ∧
      ListOf (setDifference left right) (fun c => setHas left c && !setHas right c) ∧
      Increasing (setOfRanges ranges) ∧
      (∀ c, setHas (setOfRanges ranges) c = ranges.any (covers · c)) ∧
      ((∀ range ∈ ranges, range.2 ≤ maximumCodePoint) → InversionList (setOfRanges ranges)) := by
  have hunion := setUnion_spec hleft hright
  have hrunning := finishSetUnion_foldl_spec hsets
  have hcomplement := setComplement_spec hleft
  have hintersection := setIntersection_spec hleft hright
  have hdifference := setDifference_spec hleft hright
  obtain ⟨hincreasing, hranges, hlist⟩ := setOfRanges_spec ranges
  refine ⟨hunion.1.listOf fun c _ => ?_, hrunning.1.listOf fun c _ => ?_,
    hcomplement.1.listOf fun c hc => ?_, hintersection.1.listOf fun c _ => ?_,
    hdifference.1.listOf fun c _ => ?_, hincreasing, fun c => ?_, hlist⟩
  · rw [hunion.2, setHas_eq hleft.sorted, setHas_eq hright.sorted]
  · rw [hrunning.2, Bool.eq_iff_iff, List.any_eq_true, List.any_eq_true]
    constructor
    · rintro ⟨set, hmem, hset⟩
      exact ⟨set, hmem, (setHas_eq (hsets set hmem).sorted c).trans hset⟩
    · rintro ⟨set, hmem, hset⟩
      exact ⟨set, hmem, (setHas_eq (hsets set hmem).sorted c).symm.trans hset⟩
  · have hlt : c < codePointLimit := by
      unfold codePointLimit
      omega
    rw [hcomplement.2, decide_eq_true hlt, Bool.true_and, setHas_eq hleft.sorted]
  · rw [hintersection.2, setHas_eq hleft.sorted, setHas_eq hright.sorted]
  · rw [hdifference.2, setHas_eq hleft.sorted, setHas_eq hright.sorted]
  · rw [setHas_eq hincreasing.sorted, hranges]

/-- Two ranges that touch, three lists in a running union, and ranges in any order. -/
theorem setOperations_touching :
    ListOf (setUnion [0x30, 0x3a] [0x3a, 0x41])
        (fun c => setHas [0x30, 0x3a] c || setHas [0x3a, 0x41] c) ∧
      ListOf (finishSetUnion ([[0x30, 0x3a], [0, 1], [0x61, 0x110000]].foldl addSetUnion []))
        (fun c => [[0x30, 0x3a], [0, 1], [0x61, 0x110000]].any (setHas · c)) ∧
      ListOf (setComplement [0x30, 0x3a]) (fun c => !setHas [0x30, 0x3a] c) ∧
      ListOf (setIntersection [0x30, 0x3a] [0x3a, 0x41])
        (fun c => setHas [0x30, 0x3a] c && setHas [0x3a, 0x41] c) ∧
      ListOf (setDifference [0x30, 0x3a] [0x3a, 0x41])
        (fun c => setHas [0x30, 0x3a] c && !setHas [0x3a, 0x41] c) ∧
      Increasing (setOfRanges [(0x61, 0x7a), (5, 4), (0x30, 0x39)]) ∧
      (∀ c, setHas (setOfRanges [(0x61, 0x7a), (5, 4), (0x30, 0x39)]) c =
        [(0x61, 0x7a), (5, 4), (0x30, 0x39)].any (covers · c)) ∧
      ((∀ range ∈ [(0x61, 0x7a), (5, 4), (0x30, 0x39)], range.2 ≤ maximumCodePoint) →
        InversionList (setOfRanges [(0x61, 0x7a), (5, 4), (0x30, 0x39)])) :=
  setOperations_listOf ⟨⟨by decide, rfl⟩, by decide⟩ ⟨⟨by decide, rfl⟩, by decide⟩
    (by
      intro set hmem
      rcases List.mem_cons.mp hmem with rfl | hmem
      · exact ⟨⟨by decide, rfl⟩, by decide⟩
      · rcases List.mem_pair.mp hmem with rfl | rfl
        · exact ⟨⟨by decide, rfl⟩, by decide⟩
        · exact ⟨⟨by decide, rfl⟩, by decide⟩) _

end Oseo.RegExpMatcher
