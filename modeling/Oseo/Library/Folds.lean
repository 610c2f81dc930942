import Mathlib.Data.List.Nodup

/-!
# Folds and filters of lists

* `foldl_each`: what one step of a left fold keeps, the fold keeps, and every step can be
  seen between the two ends;
* `foldl_faults`: the same for a fold whose steps may have a fault;
* `find_filterMap`: a search by a key that no two elements share may come before a partial
  map or after it.
-/

namespace Oseo.Library

open List

/-- An invariant and a relation along a left fold. -/
theorem foldl_each {σ α : Type*} {f : σ → α → σ} {I : σ → Prop} {R : σ → σ → Prop}
    (refl : ∀ s, I s → R s s) (trans : ∀ s s' s'', R s s' → R s' s'' → R s s'') {l : List α}
    (step : ∀ a ∈ l, ∀ s, I s → I (f s a) ∧ R s (f s a)) {s : σ} (hs : I s) :
    I (l.foldl f s) ∧ R s (l.foldl f s) ∧
      ∀ a ∈ l, ∃ s', I s' ∧ R s s' ∧ R (f s' a) (l.foldl f s) := by
  induction l generalizing s with
  | nil => exact ⟨hs, refl s hs, fun a ha => absurd ha not_mem_nil⟩
  | cons a l ih =>
    obtain ⟨h₁, h₂⟩ := step a mem_cons_self s hs
    obtain ⟨hI, hR, hall⟩ := ih (fun b hb => step b (mem_cons_of_mem _ hb)) h₁
    rw [foldl_cons]
    refine ⟨hI, trans _ _ _ h₂ hR, fun b hb => ?_⟩
    rcases mem_cons.mp hb with rfl | hb
    · exact ⟨s, hs, refl s hs, hR⟩
    · obtain ⟨s', hI', hR', hlast⟩ := hall b hb
      exact ⟨s', hI', trans _ _ _ h₂ hR', hlast⟩

/-- Some step of a left fold has a fault when its turn comes. -/
def foldFaults {σ α : Type*} (f : σ → α → σ) (fault : σ → α → Bool) : List α → σ → Bool
  | [], _ => false
  | a :: l, s => fault s a || foldFaults f fault l (f s a)

/-- An invariant along a left fold, a relation that the steps without a fault keep, and a final
state that shows that there was no fault. -/
theorem foldl_faults {σ α : Type*} {f : σ → α → σ} {fault : σ → α → Bool} {I quiet : σ → Prop}
    {R : σ → σ → Prop} (refl : ∀ s, I s → R s s)
    (trans : ∀ s s' s'', R s s' → R s' s'' → R s s'') {l : List α}
    (step : ∀ a ∈ l, ∀ s, I s → I (f s a) ∧ (fault s a = false → R s (f s a)) ∧
      (quiet (f s a) → quiet s ∧ fault s a = false)) {s : σ} (hs : I s) :
    I (l.foldl f s) ∧ (foldFaults f fault l s = false → R s (l.foldl f s)) ∧
      (quiet (l.foldl f s) → quiet s ∧ foldFaults f fault l s = false) := by
  induction l generalizing s with
  | nil => exact ⟨hs, fun _ => refl s hs, fun hquiet => ⟨hquiet, rfl⟩⟩
  | cons a l ih =>
    obtain ⟨h₁, h₂, h₃⟩ := step a mem_cons_self s hs
    obtain ⟨hI, hR, hquiet⟩ := ih (fun b hb => step b (mem_cons_of_mem _ hb)) h₁
    rw [foldl_cons, foldFaults]
    refine ⟨hI, fun hfaults => ?_, fun hq => ?_⟩
    · rw [Bool.or_eq_false_iff] at hfaults
      exact trans _ _ _ (h₂ hfaults.1) (hR hfaults.2)
    · obtain ⟨hq', hrest⟩ := hquiet hq
      obtain ⟨hq'', hfirst⟩ := h₃ hq'
      exact ⟨hq'', by rw [hfirst, hrest, Bool.false_or]⟩

/-- Elements that share a key are one element. -/
lemma eq_of_key {α κ : Type*} {key : α → Option κ} {l : List α} (h : (l.filterMap key).Nodup)
    {a b : α} (ha : a ∈ l) (hb : b ∈ l) {k : κ} (hak : key a = some k) (hbk : key b = some k) :
    a = b := by
  induction l with
  | nil => exact absurd ha not_mem_nil
  | cons c l ih =>
    have hmem : ∀ x ∈ l, key x = some k → k ∈ l.filterMap key := fun x hx hk =>
      mem_filterMap.mpr ⟨x, hx, hk⟩
    cases hc : key c with
    | none =>
      rw [filterMap_cons_none hc] at h
      have ha' := (mem_cons.mp ha).resolve_left fun h => by simp [h, hc] at hak
      have hb' := (mem_cons.mp hb).resolve_left fun h => by simp [h, hc] at hbk
      exact ih h ha' hb'
    | some k' =>
      rw [filterMap_cons_some hc, nodup_cons] at h
      rcases mem_cons.mp ha with rfl | ha' <;> rcases mem_cons.mp hb with rfl | hb'
      · rfl
      · rw [hc] at hak
        cases hak
        exact absurd (hmem b hb' hbk) h.1
      · rw [hc] at hbk
        cases hbk
        exact absurd (hmem a ha' hak) h.1
      · exact ih h.2 ha' hb'

/-- The element with a key, searched before a partial map or after it. -/
theorem find_filterMap {α β κ : Type*} [DecidableEq κ] {key : α → Option κ} {f : α → Option β}
    {key' : β → κ} (hkey : ∀ a b, f a = some b → key a = some (key' b)) {l : List α}
    (h : (l.filterMap key).Nodup) (k : κ) :
    (l.filterMap f).find? (fun b => key' b = k) =
      (l.find? fun a => key a = some k).bind f := by
  induction l with
  | nil => rfl
  | cons a l ih =>
    have htail : (l.filterMap key).Nodup := by
      cases ha : key a with
      | none => rwa [filterMap_cons_none ha] at h
      | some k' =>
        rw [filterMap_cons_some ha] at h
        exact h.of_cons
    rw [find?_cons]
    by_cases ha : key a = some k
    · simp only [ha, decide_true, Option.bind_some]
      cases hf : f a with
      | some b =>
        have hb := hkey a b hf
        rw [ha, Option.some.injEq] at hb
        rw [filterMap_cons_some hf, find?_cons]
        simp [hb]
      | none =>
        rw [filterMap_cons_none hf, ih htail]
        -- No later element has the key.
        rw [filterMap_cons_some ha, nodup_cons] at h
        have : l.find? (fun a => key a = some k) = none := by
          rw [find?_eq_none]
          intro x hx hk
          exact h.1 (mem_filterMap.mpr ⟨x, hx, by simpa using hk⟩)
        rw [this]
        rfl
    · simp only [ha, decide_false]
      cases hf : f a with
      | none => rw [filterMap_cons_none hf, ih htail]
      | some b =>
        have hb := hkey a b hf
        have hne : key' b ≠ k := fun h => ha (h ▸ hb)
        rw [filterMap_cons_some hf, find?_cons]
        simp [hne, ih htail]

end Oseo.Library
