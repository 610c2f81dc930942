import Mathlib.Data.List.Perm.Basic

/-!
# Bottom-up merging

A list is sorted bottom-up: its runs of one width are merged in pairs, and the width doubles until
it covers the list. What decides a merge is a relation, so that it may answer differently each time
it is asked:

* `Sorts.perm` needs nothing of the answers;
* `Sorts.pairwise` for a transitive relation that the answers agree with;
* `Sorts.filter` keeps the order of elements that tie, where the answers put the later of two
  elements first only if it is strictly before the other.
-/

namespace Oseo.Library

open List

variable {α : Type*} {Answers : α → α → Bool → Prop} {R : α → α → Prop} {P : List α → Prop}
  {left right out list next sorted : List α} {width : ℕ} {p : α → Bool}

/-- Two runs merged into one. The answer is whether the element of the second run goes first. -/
inductive Merges (Answers : α → α → Bool → Prop) : List α → List α → List α → Prop
  | leftDone (right : List α) : Merges Answers [] right right
  | rightDone (left : List α) : Merges Answers left [] left
  | takeLeft {a b : α} {left right out : List α} (answer : Answers a b false)
    (rest : Merges Answers left (b :: right) out) :
    Merges Answers (a :: left) (b :: right) (a :: out)
  | takeRight {a b : α} {left right out : List α} (answer : Answers a b true)
    (rest : Merges Answers (a :: left) right out) :
    Merges Answers (a :: left) (b :: right) (b :: out)

/-- All pairs of neighbouring runs merged. -/
inductive Pass (Answers : α → α → Bool → Prop) (width : ℕ) : List α → List α → Prop
  | nil : Pass Answers width [] []
  | cons {rest out outs : List α} (some_ : rest ≠ [])
    (merges : Merges Answers (rest.take width) ((rest.drop width).take width) out)
    (pass : Pass Answers width (rest.drop (2 * width)) outs) :
    Pass Answers width rest (out ++ outs)

/-- Passes over a list until one run covers it. -/
inductive Sorts (Answers : α → α → Bool → Prop) : ℕ → List α → List α → Prop
  | done {width : ℕ} {list : List α} (covered : list.length ≤ width) :
    Sorts Answers width list list
  | step {width : ℕ} {list next sorted : List α} (more : width < list.length)
    (pass : Pass Answers width list next) (sorts : Sorts Answers (width * 2) next sorted) :
    Sorts Answers width list sorted

/-! ## One merge -/

namespace Merges

section
variable (h : Merges Answers left right out)
include h

lemma perm : out.Perm (left ++ right) := by
  induction h with
  | leftDone right => rfl
  | rightDone left => rw [append_nil]
  | takeLeft answer rest ih => exact ih.cons _
  | takeRight answer rest ih => exact (ih.cons _).trans perm_middle.symm

lemma length : out.length = left.length + right.length := by
  rw [h.perm.length_eq, length_append]

/-- Two runs in order merge into a run in order. -/
lemma pairwise (trans : ∀ a b c, R a b → R b c → R a c)
    (kept : ∀ a b, Answers a b false → R a b) (swapped : ∀ a b, Answers a b true → R b a)
    (hleft : left.Pairwise R) (hright : right.Pairwise R) : out.Pairwise R := by
  induction h with
  | leftDone right => exact hright
  | rightDone left => exact hleft
  | @takeLeft a b left right out answer rest ih =>
    apply Pairwise.cons
    · intro c hc
      rcases mem_append.mp (rest.perm.mem_iff.mp hc) with hc | hc
      · exact rel_of_pairwise_cons hleft hc
      · have hfirst : R a b := kept a b answer
        rcases mem_cons.mp hc with rfl | hc
        · exact hfirst
        · exact trans a b c hfirst (rel_of_pairwise_cons hright hc)
    · exact ih hleft.of_cons hright
  | @takeRight a b left right out answer rest ih =>
    apply Pairwise.cons
    · intro c hc
      rcases mem_append.mp (rest.perm.mem_iff.mp hc) with hc | hc
      · have hfirst : R b a := swapped a b answer
        rcases mem_cons.mp hc with rfl | hc
        · exact hfirst
        · exact trans b a c hfirst (rel_of_pairwise_cons hleft hc)
      · exact rel_of_pairwise_cons hright hc
    · exact ih hleft hright.of_cons

/-- The elements that tie come in the order of the first run, then of the second. -/
lemma filter (strict : ∀ a b, Answers a b true → ¬ R a b)
    (trans : ∀ a b c, R a b → R b c → R a c) (tie : ∀ a b, p a → p b → R a b)
    (hleft : left.Pairwise R) : out.filter p = left.filter p ++ right.filter p := by
  induction h with
  | leftDone right => rfl
  | rightDone left => exact (append_nil _).symm
  | @takeLeft a b left right out answer rest ih =>
    rw [filter_cons, ih hleft.of_cons, filter_cons (x := a)]
    split
    · rfl
    · rfl
  | @takeRight a b left right out answer rest ih =>
    rw [filter_cons, ih hleft, filter_cons (x := b)]
    split
    · next hb =>
      -- What ties with the element that goes first is not in the first run.
      have hnone : (a :: left).filter p = [] := by
        rw [filter_eq_nil_iff]
        intro c hc hpc
        apply strict a b answer
        rcases mem_cons.mp hc with rfl | hc
        · exact tie c b hpc hb
        · exact trans a c b (rel_of_pairwise_cons hleft hc) (tie c b hpc hb)
      rw [hnone]
      rfl
    · rfl

end

end Merges

/-! ## Passes -/

/-- The runs of one width have a property each. -/
inductive Chunked (P : List α → Prop) (width : ℕ) : List α → Prop
  | nil : Chunked P width []
  | cons {rest : List α} (some_ : rest ≠ []) (first : P (rest.take width))
    (others : Chunked P width (rest.drop width)) : Chunked P width rest

namespace Chunked

/-- The elements on their own are runs. -/
lemma singles (single : ∀ a, P [a]) (list : List α) : Chunked P 1 list := by
  induction list with
  | nil => exact .nil
  | cons a list ih => exact .cons (cons_ne_nil a list) (single a) ih

lemma first (h : Chunked P width list) (empty : P []) : P (list.take width) := by
  cases h with
  | nil =>
    rw [take_nil]
    exact empty
  | cons some_ first others => exact first

lemma others (h : Chunked P width list) : Chunked P width (list.drop width) := by
  cases h with
  | nil =>
    rw [drop_nil]
    exact .nil
  | cons some_ first others => exact others

/-- One run that covers the list. -/
lemma whole (h : Chunked P width list) (empty : P []) (covered : list.length ≤ width) :
    P list := by
  have hfirst := h.first empty
  rwa [take_of_length_le covered] at hfirst

end Chunked

namespace Pass

lemma perm (h : Pass Answers width list out) : out.Perm list := by
  induction h with
  | nil => rfl
  | @cons rest out outs some_ merges pass ih =>
    apply (merges.perm.append ih).trans
    rw [Nat.two_mul, ← drop_drop, append_assoc, take_append_drop,
      take_append_drop]

/-- A pass makes runs of twice the width. -/
lemma chunked (h : Pass Answers width list out) (hchunked : Chunked P width list) (empty : P [])
    (merged : ∀ left right out, P left → P right → Merges Answers left right out → P out) :
    Chunked P (2 * width) out := by
  induction h with
  | nil => exact .nil
  | @cons rest out outs some_ merges pass ih =>
    have hothers : Chunked P (2 * width) outs := by
      apply ih
      rw [Nat.two_mul, ← drop_drop]
      exact hchunked.others.others
    have hout : P out := merged _ _ out (hchunked.first empty) (hchunked.others.first empty) merges
    have hlength : out.length = min (2 * width) rest.length := by
      rw [merges.length, length_take, length_take, length_drop]
      omega
    have houts : outs.length = rest.length - 2 * width := by
      rw [pass.perm.length_eq, length_drop]
    have hpos : 0 < rest.length := length_pos_iff.mpr some_
    rcases Nat.lt_or_ge rest.length (2 * width) with hlt | hge
    · -- The last runs of a list may be shorter.
      have hnil : outs = [] := length_eq_zero_iff.mp (by omega)
      rw [hnil, append_nil]
      apply Chunked.cons
      · intro hempty
        rw [hempty, length_nil] at hlength
        omega
      · rwa [take_of_length_le (by omega)]
      · rw [drop_of_length_le (by omega)]
        exact .nil
    · rcases Nat.eq_zero_or_pos width with hzero | hwidth
      · -- Runs of no width are empty.
        have hnil : out = [] := length_eq_zero_iff.mp (by omega)
        rwa [hnil, nil_append]
      · have hfull : out.length = 2 * width := by omega
        apply Chunked.cons
        · intro hempty
          rw [(append_eq_nil_iff.mp hempty).1, length_nil] at hfull
          omega
        · rwa [take_left' hfull]
        · rwa [drop_left' hfull]

/-- A pass keeps the order of elements that tie. -/
lemma filter (h : Pass Answers width list out) (hchunked : Chunked (Pairwise R) width list)
    (strict : ∀ a b, Answers a b true → ¬ R a b) (trans : ∀ a b c, R a b → R b c → R a c)
    (tie : ∀ a b, p a → p b → R a b) : out.filter p = list.filter p := by
  induction h with
  | nil => rfl
  | @cons rest out outs some_ merges pass ih =>
    have hothers : outs.filter p = (rest.drop (2 * width)).filter p := by
      apply ih
      rw [Nat.two_mul, ← drop_drop]
      exact hchunked.others.others
    rw [filter_append, hothers, merges.filter strict trans tie (hchunked.first .nil),
      ← filter_append, ← filter_append, Nat.two_mul, ← drop_drop,
      append_assoc, take_append_drop, take_append_drop]

end Pass

/-! ## The whole sort -/

namespace Sorts

theorem perm (h : Sorts Answers width list sorted) : sorted.Perm list := by
  induction h with
  | done covered => rfl
  | step more pass sorts ih => exact ih.trans pass.perm

section
variable (h : Sorts Answers width list sorted) (trans : ∀ a b c, R a b → R b c → R a c)
  (kept : ∀ a b, Answers a b false → R a b) (swapped : ∀ a b, Answers a b true → R b a)
include h trans kept swapped

/-- Runs in order are sorted. -/
theorem pairwise (hchunked : Chunked (Pairwise R) width list) : sorted.Pairwise R := by
  induction h with
  | done covered => exact hchunked.whole .nil covered
  | step more pass sorts ih =>
    apply ih
    rw [Nat.mul_comm]
    exact pass.chunked hchunked .nil fun left right out hleft hright merges =>
      merges.pairwise trans kept swapped hleft hright

/-- The elements that tie stay in their order. -/
theorem filter (strict : ∀ a b, Answers a b true → ¬ R a b) (tie : ∀ a b, p a → p b → R a b)
    (hchunked : Chunked (Pairwise R) width list) : sorted.filter p = list.filter p := by
  induction h with
  | done covered => rfl
  | step more pass sorts ih =>
    rw [← pass.filter hchunked strict trans tie]
    apply ih
    rw [Nat.mul_comm]
    exact pass.chunked hchunked .nil fun left right out hleft hright merges =>
      merges.pairwise trans kept swapped hleft hright

end

end Sorts

end Oseo.Library
