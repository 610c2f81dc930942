import Mathlib.Data.List.Basic

/-!
# Live positions

A vector whose slots are never moved: a slot that is taken out stays as a tombstone, and a new
one goes behind all others. `firstFrom` is the scan for the next position with a property, and
`livePositions` lists the positions that are not tombstones.
-/

namespace Oseo.Library

open List

variable {p live live' : ℕ → Bool} {index count i j : ℕ}

/-- The first position from `index` on, below `count`, that has the property. -/
def firstFrom (p : ℕ → Bool) (index count : ℕ) : Option ℕ :=
  (List.range' index (count - index)).find? p

/-- The positions that are live. -/
def livePositions (live : ℕ → Bool) (count : ℕ) : List ℕ := (List.range count).filter live

lemma mem_window : i ∈ range' index (count - index) ↔ index ≤ i ∧ i < count := by
  rw [mem_range'_1]
  omega

lemma firstFrom_some : firstFrom p index count = some i ↔
    (index ≤ i ∧ i < count) ∧ p i = true ∧ ∀ j, index ≤ j → j < i → p j = false := by
  unfold firstFrom
  rw [find?_range'_eq_some, mem_window]
  simp only [Bool.not_eq_true']
  tauto

lemma firstFrom_none : firstFrom p index count = none ↔
    ∀ j, index ≤ j → j < count → p j = false := by
  unfold firstFrom
  rw [find?_eq_none]
  constructor
  · intro h j hj hlt
    exact Bool.eq_false_iff.mpr (h j (mem_window.mpr ⟨hj, hlt⟩))
  · intro h j hj
    obtain ⟨hle, hlt⟩ := mem_window.mp hj
    exact Bool.eq_false_iff.mp (h j hle hlt)

@[simp] lemma mem_livePositions : i ∈ livePositions live count ↔ i < count ∧ live i = true := by
  simp [livePositions]

lemma livePositions_congr (h : ∀ i < count, live' i = live i) :
    livePositions live' count = livePositions live count :=
  filter_congr fun i hi => h i (mem_range.mp hi)

/-- A live slot behind the others. -/
lemma livePositions_append (h : ∀ i < count, live' i = live i) (hnew : live' count = true) :
    livePositions live' (count + 1) = livePositions live count ++ [count] := by
  rw [← livePositions_congr h]
  unfold livePositions
  rw [range_succ, filter_append, filter_cons_of_pos hnew, filter_nil]

/-- A slot that becomes a tombstone. -/
lemma livePositions_remove (h : ∀ j, live' j = if j = i then false else live j) :
    livePositions live' count = (livePositions live count).filter (· ≠ i) := by
  unfold livePositions
  rw [filter_filter]
  refine filter_congr fun j _ => ?_
  rw [h]
  by_cases hj : j = i <;> simp [hj]

/-- Only tombstones. -/
lemma livePositions_clear (h : ∀ i < count, live' i = false) : livePositions live' count = [] := by
  unfold livePositions
  rw [filter_eq_nil_iff]
  intro i hi
  rw [h i (mem_range.mp hi)]
  exact Bool.false_ne_true

end Oseo.Library
