import Mathlib.Data.List.Sort

/-!
# Inversion lists

A set of the elements of a linear order, written as the list of the boundaries where membership
toggles.

* `inside boundaries x` counts the boundaries up to `x` by their parity;
* it is a sum modulo two, so that lists are appended and reversed without a look at their order;
* an increasing list is empty below its first boundary, and keeps its last answer.
-/

namespace Oseo.Library

open List

variable {α : Type*} [LinearOrder α] {boundaries rest : List α} {first x : α}

/-- Whether an odd number of boundaries stands at or before an element. -/
def inside : List α → α → Bool
  | [], _ => false
  | boundary :: rest, x => xor (decide (boundary ≤ x)) (inside rest x)

@[simp] lemma inside_nil : inside [] x = false := rfl

lemma inside_cons : inside (first :: rest) x = xor (decide (first ≤ x)) (inside rest x) := rfl

lemma inside_cons_of_le (hle : first ≤ x) : inside (first :: rest) x = !inside rest x := by
  rw [inside_cons, decide_eq_true hle, Bool.true_xor]

lemma inside_append (left right : List α) :
    inside (left ++ right) x = xor (inside left x) (inside right x) := by
  induction left with
  | nil => simp
  | cons first left ih => rw [cons_append, inside_cons, inside_cons, ih, Bool.xor_assoc]

lemma inside_reverse (boundaries : List α) : inside boundaries.reverse x = inside boundaries x := by
  induction boundaries with
  | nil => rfl
  | cons first rest ih =>
    rw [reverse_cons, inside_append, ih, inside_cons, inside_cons, inside_nil, Bool.xor_false,
      Bool.xor_comm]

/-- Nothing is inside before the first boundary. -/
lemma inside_of_lt (hlt : ∀ boundary ∈ boundaries, x < boundary) : inside boundaries x = false := by
  induction boundaries with
  | nil => rfl
  | cons first rest ih =>
    rw [inside_cons, decide_eq_false (not_le.mpr (hlt first mem_cons_self)), Bool.false_xor]
    exact ih fun boundary hmem => hlt boundary (mem_cons_of_mem _ hmem)

/-- After the last boundary, the number of boundaries decides. -/
lemma inside_of_le (hle : ∀ boundary ∈ boundaries, boundary ≤ x) :
    inside boundaries x = decide (boundaries.length % 2 = 1) := by
  induction boundaries with
  | nil => rfl
  | cons first rest ih =>
    rw [inside_cons_of_le (hle first mem_cons_self),
      ih fun boundary hmem => hle boundary (mem_cons_of_mem _ hmem), length_cons,
      ← decide_not]
    congr 1
    rw [eq_iff_iff]
    omega

/-- Between two boundaries, the answer does not change. -/
lemma inside_congr {y : α} (hle : x ≤ y) (hnone : ∀ boundary ∈ boundaries, boundary ≤ y →
    boundary ≤ x) : inside boundaries x = inside boundaries y := by
  induction boundaries with
  | nil => rfl
  | cons first rest ih =>
    rw [inside_cons, inside_cons,
      ih fun boundary hmem => hnone boundary (mem_cons_of_mem _ hmem)]
    congr 2
    rw [eq_iff_iff]
    exact ⟨fun h => h.trans hle, hnone first mem_cons_self⟩

/-- The boundaries up to `x` are the first ones of an increasing list. -/
lemma inside_of_split {before after : List α} (hbefore : ∀ boundary ∈ before, boundary ≤ x)
    (hafter : ∀ boundary ∈ after, x < boundary) :
    inside (before ++ after) x = decide (before.length % 2 = 1) := by
  rw [inside_append, inside_of_le hbefore, inside_of_lt hafter, Bool.xor_false]

end Oseo.Library
