import Mathlib.Algebra.Order.BigOperators.Group.Finset

/-!
# Counting down to a release

Nodes that wait for a number of visits. A visit takes one off the counter of its node, and the
node is released when nothing is left, with visits of its own to other nodes. A blocked node
ignores its visits, and so does one that has been released.

The visits to be made are a multiset, and a step makes any of them. `Countdown.unique`: what is
released in the end, and what every counter comes to, do not depend on the order.
-/

namespace Oseo.Library

open Finset
open Function

variable {ι : Type*} [DecidableEq ι]

/-- The counters, the nodes released, and the visits still to be made. -/
@[ext]
structure Countdown (ι : Type*) where
  left : ι → ℕ
  released : Finset ι
  visits : Multiset ι

/-- The visit of `v`, with `rest` to be made after it. -/
def Countdown.visit (blocked : ι → Prop) [DecidablePred blocked] (sends : ι → Multiset ι)
    (c : Countdown ι) (v : ι) (rest : Multiset ι) : Countdown ι :=
  if v ∈ c.released ∨ blocked v then { c with visits := rest }
  else if c.left v - 1 = 0 then
    ⟨Function.update c.left v (c.left v - 1), insert v c.released, sends v + rest⟩
  else ⟨Function.update c.left v (c.left v - 1), c.released, rest⟩

/-- One visit is made. -/
def Countdown.Step (blocked : ι → Prop) [DecidablePred blocked] (sends : ι → Multiset ι)
    (c c' : Countdown ι) : Prop :=
  ∃ v rest, c.visits = v ::ₘ rest ∧ c' = c.visit blocked sends v rest

/-- Any number of visits are made, in any order. -/
abbrev Countdown.Visits (blocked : ι → Prop) [DecidablePred blocked] (sends : ι → Multiset ι) :
    Countdown ι → Countdown ι → Prop :=
  Relation.ReflTransGen (Countdown.Step blocked sends)

variable {blocked : ι → Prop} [DecidablePred blocked] {sends : ι → Multiset ι}
  {first c c' : Countdown ι}

/-- The visits to a node that are made once `released` are released. -/
def Countdown.total (sends : ι → Multiset ι) (visits : Multiset ι) (released : Finset ι) (v : ι) :
    ℕ :=
  visits.count v + ∑ r ∈ released, (sends r).count v

lemma Countdown.total_mono (visits : Multiset ι) {released released' : Finset ι}
    (h : released ⊆ released') (v : ι) :
    Countdown.total sends visits released v ≤ Countdown.total sends visits released' v :=
  Nat.add_le_add_left (sum_le_sum_of_subset h) _

lemma Countdown.total_insert (visits : Multiset ι) {released : Finset ι} {r : ι}
    (h : r ∉ released) (v : ι) :
    Countdown.total sends visits (insert r released) v =
      Countdown.total sends visits released v + (sends r).count v := by
  unfold Countdown.total
  rw [sum_insert h]
  omega

/-- What holds after some visits, `seen v` of them to `v`. -/
structure Countdown.Counts (blocked : ι → Prop) (sends : ι → Multiset ι) (first c : Countdown ι)
    (seen : ι → ℕ) : Prop where
  total : ∀ v, c.visits.count v + seen v = Countdown.total sends first.visits c.released v
  ignored : ∀ v, blocked v → v ∉ c.released ∧ c.left v = first.left v
  left : ∀ v, ¬blocked v → c.left v = first.left v - seen v
  released : ∀ v, ¬blocked v → (v ∈ c.released ↔ max 1 (first.left v) ≤ seen v)

/-- One more visit. -/
lemma Countdown.Counts.step {seen : ι → ℕ} (h : Countdown.Counts blocked sends first c seen)
    (hstep : Countdown.Step blocked sends c c') :
    ∃ seen', Countdown.Counts blocked sends first c' seen' := by
  obtain ⟨v, rest, hvisits, rfl⟩ := hstep
  have hcount : ∀ x, c.visits.count x = rest.count x + if x = v then 1 else 0 := by
    intro x
    rw [hvisits, Multiset.count_cons]
  have hseen : ∀ x, update seen v (seen v + 1) x = seen x + if x = v then 1 else 0 := by
    intro x
    by_cases hx : x = v
    · rw [hx, update_self, if_pos rfl]
    · rw [update_of_ne hx, if_neg hx, Nat.add_zero]
  have htotal : ∀ x, rest.count x + update seen v (seen v + 1) x =
      Countdown.total sends first.visits c.released x := by
    intro x
    have := h.total x
    rw [hcount] at this
    rw [hseen]
    omega
  refine ⟨update seen v (seen v + 1), ?_⟩
  unfold Countdown.visit
  split
  · next hskip =>
    refine ⟨htotal, h.ignored, fun x hx => ?_, fun x hx => ?_⟩
    · rw [hseen, h.left x hx]
      split
      · next heq =>
        subst heq
        have := (h.released x hx).mp (hskip.resolve_right hx)
        omega
      · rfl
    · rw [h.released x hx, hseen]
      split
      · next heq =>
        subst heq
        have := (h.released x hx).mp (hskip.resolve_right hx)
        omega
      · rfl
  · next hskip =>
    rw [not_or] at hskip
    obtain ⟨hnew, hopen⟩ := hskip
    have hleft := h.left v hopen
    have hcounter : ∀ x, ¬blocked x → update c.left v (c.left v - 1) x =
        first.left x - update seen v (seen v + 1) x := by
      intro x hx
      by_cases heq : x = v
      · rw [heq, update_self, update_self]
        omega
      · rw [update_of_ne heq, update_of_ne heq, h.left x hx]
    have hblocked : ∀ x, blocked x → x ∉ c.released ∧
        update c.left v (c.left v - 1) x = first.left x := by
      intro x hx
      obtain ⟨hnot, heq⟩ := h.ignored x hx
      refine ⟨hnot, ?_⟩
      rwa [update_of_ne]
      rintro rfl
      exact hopen hx
    split
    · next hzero =>
      refine ⟨fun x => ?_, fun x hx => ?_, hcounter, fun x hx => ?_⟩
      · rw [Countdown.total_insert _ hnew, ← htotal, Multiset.count_add]
        omega
      · refine ⟨fun hmem => ?_, (hblocked x hx).2⟩
        rcases mem_insert.mp hmem with rfl | hmem
        · exact hopen hx
        · exact (hblocked x hx).1 hmem
      · rw [mem_insert, hseen]
        by_cases heq : x = v
        · subst heq
          simp only [true_or, if_true, true_iff]
          omega
        · simp only [heq, false_or, if_false]
          exact h.released x hx
    · next hpos =>
      refine ⟨htotal, hblocked, hcounter, fun x hx => ?_⟩
      rw [h.released x hx, hseen]
      split
      · next heq =>
        subst heq
        omega
      · rfl

omit [DecidablePred blocked] in
/-- The state before any visit. -/
lemma Countdown.Counts.start (hfirst : first.released = ∅) :
    Countdown.Counts blocked sends first first fun _ => 0 := by
  refine ⟨fun v => ?_, fun v _ => ?_, fun v _ => rfl, fun v _ => ?_⟩
  · simp [Countdown.total, hfirst]
  · simp [hfirst]
  · simp [hfirst]

lemma Countdown.Visits.counts (h : Countdown.Visits blocked sends first c)
    (hfirst : first.released = ∅) :
    ∃ seen, Countdown.Counts blocked sends first c seen := by
  induction h with
  | refl => exact ⟨_, .start hfirst⟩
  | tail _ hstep ih =>
    obtain ⟨seen, hcounts⟩ := ih
    exact hcounts.step hstep

/-- What is released on the way is in every set that the released nodes have to be in. -/
lemma Countdown.Visits.released_subset (h : Countdown.Visits blocked sends first c)
    (hfirst : first.released = ∅) {all : Finset ι}
    (hall : ∀ v, ¬blocked v → max 1 (first.left v) ≤ Countdown.total sends first.visits all v →
      v ∈ all) : c.released ⊆ all := by
  induction h with
  | refl =>
    rw [hfirst]
    exact empty_subset all
  | @tail c c' hrun hstep ih =>
    obtain ⟨seen, hcounts⟩ := Countdown.Visits.counts hrun hfirst
    obtain ⟨seen', hcounts'⟩ := hcounts.step hstep
    obtain ⟨v, rest, hvisits, rfl⟩ := hstep
    unfold Countdown.visit
    split
    · exact ih
    · next hskip =>
      rw [not_or] at hskip
      split
      · next hzero =>
        refine insert_subset (hall v hskip.2 ?_) ih
        -- The visits to `v` so far, with this one, come from what is in `all`.
        have htotal := hcounts.total v
        have hmono := @Countdown.total_mono _ _ sends first.visits _ _ ih v
        have hleft := hcounts.left v hskip.2
        rw [hvisits, Multiset.count_cons_self] at htotal
        omega
      · exact ih

/-- The end does not depend on the order of the visits. -/
theorem Countdown.unique (h : Countdown.Visits blocked sends first c)
    (h' : Countdown.Visits blocked sends first c') (hfirst : first.released = ∅)
    (hend : c.visits = 0) (hend' : c'.visits = 0) :
    c.released = c'.released ∧ c.left = c'.left := by
  have hclosed : ∀ {c : Countdown ι}, Countdown.Visits blocked sends first c → c.visits = 0 →
      (∀ v, ¬blocked v → max 1 (first.left v) ≤ Countdown.total sends first.visits c.released v →
        v ∈ c.released) ∧
      (∀ v, blocked v → c.left v = first.left v) ∧
      ∀ v, ¬blocked v →
        c.left v = first.left v - Countdown.total sends first.visits c.released v := by
    intro c h hend
    obtain ⟨seen, hcounts⟩ := h.counts hfirst
    have hseen : ∀ v, Countdown.total sends first.visits c.released v = seen v := by
      intro v
      rw [← hcounts.total, hend, Multiset.count_zero, Nat.zero_add]
    refine ⟨fun v hv hle => ?_, fun v hv => (hcounts.ignored v hv).2, fun v hv => ?_⟩
    · rw [hseen] at hle
      exact (hcounts.released v hv).mpr hle
    · rw [hseen]
      exact hcounts.left v hv
  obtain ⟨hall, hblocked, hleft⟩ := hclosed h hend
  obtain ⟨hall', hblocked', hleft'⟩ := hclosed h' hend'
  have hreleased : c.released = c'.released :=
    Subset.antisymm (h.released_subset hfirst hall') (h'.released_subset hfirst hall)
  refine ⟨hreleased, ?_⟩
  ext v
  by_cases hv : blocked v
  · rw [hblocked v hv, hblocked' v hv]
  · rw [hleft v hv, hleft' v hv, hreleased]

end Oseo.Library
