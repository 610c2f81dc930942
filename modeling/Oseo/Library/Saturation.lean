import Mathlib.Data.Nat.Init
import Mathlib.Logic.Function.Iterate
import Mathlib.Order.Basic

/-!
# Passes until nothing changes

A loop that repeats a pass while the pass reports a change.

* `saturate_ends`: if each change lowers a measure, the loop ends, in a state that has been
  through one pass with no change;
* `saturate_ends_iff`: if only the passes without a fault lower the measure, the loop ends
  exactly when the faults come to an end.
-/

namespace Oseo.Library

variable {σ : Type*} {pass : σ → σ} {changed : σ → Bool}

/-- Repeats `pass` while it reports a change, at most `fuel` times. -/
def saturate (pass : σ → σ) (changed : σ → Bool) : ℕ → σ → Option σ
  | 0, _ => none
  | fuel + 1, s =>
    if changed (pass s) then saturate pass changed fuel (pass s) else some (pass s)

/-- The loop ends, and its last pass changed nothing. -/
theorem saturate_ends {I : σ → Prop} (keep : ∀ s, I s → I (pass s)) (left : σ → ℕ)
    (less : ∀ s, I s → changed (pass s) = true → left (pass s) < left s) (s : σ) (hs : I s) :
    ∃ last, I last ∧ changed (pass last) = false ∧
      ∀ fuel, left s < fuel → saturate pass changed fuel s = some (pass last) := by
  induction hleft : left s using Nat.strong_induction_on generalizing s with
  | _ k ih =>
    by_cases hc : changed (pass s) = true
    · have hlt := less s hs hc
      obtain ⟨last, hlast, hno, hend⟩ := ih (left (pass s)) (by omega) (pass s) (keep s hs) rfl
      refine ⟨last, hlast, hno, fun fuel hfuel => ?_⟩
      cases fuel with
      | zero => omega
      | succ fuel =>
        rw [saturate, if_pos hc]
        exact hend fuel (by omega)
    · refine ⟨s, hs, by simpa using hc, fun fuel hfuel => ?_⟩
      cases fuel with
      | zero => omega
      | succ fuel => rw [saturate, if_neg hc]

/-- A loop that ends after some passes ends. -/
lemma saturate_of_iterate {s t : σ} {fuel : ℕ} (N : ℕ)
    (h : saturate pass changed fuel (pass^[N] s) = some t) :
    ∃ fuel t, saturate pass changed fuel s = some t := by
  induction N generalizing s with
  | zero => exact ⟨fuel, t, h⟩
  | succ N ih =>
    obtain ⟨fuel', t', h'⟩ := @ih (pass s) h
    by_cases hc : changed (pass s) = true
    · exact ⟨fuel' + 1, t', by rw [saturate, if_pos hc, h']⟩
    · exact ⟨1, pass s, by rw [saturate, if_neg hc]⟩

/-- The last pass of a loop that ends changed nothing. -/
lemma saturate_last {s t : σ} {fuel : ℕ} (h : saturate pass changed fuel s = some t) :
    ∃ k, changed (pass (pass^[k] s)) = false := by
  induction fuel generalizing s with
  | zero => cases h
  | succ fuel ih =>
    rw [saturate] at h
    by_cases hc : changed (pass s) = true
    · rw [if_pos hc] at h
      obtain ⟨k, hk⟩ := ih h
      exact ⟨k + 1, hk⟩
    · exact ⟨0, by simpa using hc⟩

/-- A pass that reports a change and changes nothing is repeated without end. -/
lemma saturate_of_fixed {s : σ} (hpass : pass s = s) (hchanged : changed s = true) (fuel : ℕ) :
    saturate pass changed fuel s = none := by
  induction fuel with
  | zero => rfl
  | succ fuel ih => rw [saturate, hpass, if_pos hchanged, ih]

/-- If a pass without a fault that changes something lowers a measure, and a pass that changes
nothing has no fault and is followed by another such pass, then the loop ends exactly when
only finitely many passes have a fault. -/
theorem saturate_ends_iff {I : σ → Prop} {fault : σ → Bool} (keep : ∀ s, I s → I (pass s))
    (left : σ → ℕ)
    (less : ∀ s, I s → fault s = false → changed (pass s) = true → left (pass s) < left s)
    (sound : ∀ s, I s → changed (pass s) = false → fault s = false)
    (still : ∀ s, I s → changed (pass s) = false → changed (pass (pass s)) = false)
    (s : σ) (hs : I s) :
    (∃ fuel t, saturate pass changed fuel s = some t) ↔
      ∃ N, ∀ k, N ≤ k → fault (pass^[k] s) = false := by
  have hI : ∀ k, I (pass^[k] s) := by
    intro k
    induction k with
    | zero => exact hs
    | succ k ih =>
      rw [Function.iterate_succ_apply']
      exact keep _ ih
  constructor
  · rintro ⟨fuel, t, h⟩
    obtain ⟨N, hN⟩ := saturate_last h
    refine ⟨N, fun k hk => sound _ (hI k) ?_⟩
    induction k, hk using Nat.le_induction with
    | base => exact hN
    | succ k hk ih =>
      rw [Function.iterate_succ_apply']
      exact still _ (hI k) ih
  · rintro ⟨N, hN⟩
    have hkeep : ∀ t, (I t ∧ ∀ k, fault (pass^[k] t) = false) →
        I (pass t) ∧ ∀ k, fault (pass^[k] (pass t)) = false :=
      fun t ht => ⟨keep t ht.1, fun k => ht.2 (k + 1)⟩
    have hfree : ∀ k, fault (pass^[k] (pass^[N] s)) = false := by
      intro k
      rw [← Function.iterate_add_apply]
      exact hN _ (by omega)
    obtain ⟨last, -, -, hend⟩ := saturate_ends hkeep left
      (fun t ht hc => less t ht.1 (ht.2 0) hc) (pass^[N] s) ⟨hI N, hfree⟩
    exact saturate_of_iterate N (hend _ (Nat.lt_succ_self _))

end Oseo.Library
