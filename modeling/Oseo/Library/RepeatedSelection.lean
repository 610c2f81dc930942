import Mathlib.Data.List.Basic

/-!
# Ascending lists by repeated selection

A loop that lists the entries of a list that have a rank, by selecting the entry of least rank above
the latest one again and again.

* `leastAbove` is one pass over the list;
* `ascending` is the loop, given fuel;
* the ranks it lists are the ranks of the list in order (`ascending_ranks`).
-/

namespace Oseo.Library

open List

section
variable {α : Type*} (rank : α → Option ℕ)

/-- A rank above the latest one. -/
def above (previous : Option ℕ) (n : ℕ) : Bool := !previous.any (n ≤ ·)

/-- What a pass has selected so far, with one more entry. -/
def selectLess (previous : Option ℕ) (selected : Option (ℕ × α)) (a : α) : Option (ℕ × α) :=
  match rank a with
  | none => selected
  | some n =>
    if !above previous n then selected
    else match selected with
      | none => some (n, a)
      | some (least, entry) => if n < least then some (n, a) else some (least, entry)

/-- The entry of least rank above the latest one. -/
def leastAbove (previous : Option ℕ) (l : List α) : Option (ℕ × α) :=
  l.foldl (selectLess rank previous) none

/-- The loop, until nothing is selected. -/
def ascending (l : List α) : (fuel : ℕ) → (previous : Option ℕ) → List (ℕ × α)
  | 0, _ => []
  | fuel + 1, previous =>
    match leastAbove rank previous l with
    | none => []
    | some (n, a) => (n, a) :: ascending l fuel (some n)

end

variable {α : Type*} {rank : α → Option ℕ} {previous : Option ℕ} {l : List α} {n fuel : ℕ} {a : α}

/-! ## One pass -/

/-- What a pass has selected of the entries it has seen. -/
structure Selects (rank : α → Option ℕ) (previous : Option ℕ) (seen : List α)
    (selected : Option (ℕ × α)) : Prop where
  entry : ∀ n a, selected = some (n, a) → a ∈ seen ∧ rank a = some n ∧ above previous n = true
  least : ∀ b ∈ seen, ∀ m, rank b = some m → above previous m = true →
    ∃ n a, selected = some (n, a) ∧ n ≤ m

lemma Selects.snoc {seen : List α} {selected : Option (ℕ × α)}
    (h : Selects rank previous seen selected) (a : α) :
    Selects rank previous (seen ++ [a]) (selectLess rank previous selected a) := by
  have hkept : ∀ (selected' : Option (ℕ × α)), selected' = selected →
      (∀ m, rank a = some m → above previous m = true → ∃ n b, selected = some (n, b) ∧ n ≤ m) →
      Selects rank previous (seen ++ [a]) selected' := by
    intro selected' heq hless
    rw [heq]
    refine ⟨fun n b hselected => ?_, fun b hmem m hrank habove => ?_⟩
    · obtain ⟨hmem, hrest⟩ := h.entry n b hselected
      exact ⟨mem_append_left _ hmem, hrest⟩
    · rcases mem_append.mp hmem with hmem | hmem
      · exact h.least b hmem m hrank habove
      · rw [mem_singleton.mp hmem] at hrank
        exact hless m hrank habove
  unfold selectLess
  split
  · next hrank =>
    apply hkept _ rfl
    intro m hrank'
    rw [hrank] at hrank'
    cases hrank'
  · next n hrank =>
    split
    · next hbelow =>
      apply hkept _ rfl
      intro m hrank' habove
      rw [hrank] at hrank'
      cases hrank'
      rw [habove] at hbelow
      cases hbelow
    · next habove =>
      rw [Bool.not_eq_true, Bool.not_eq_false'] at habove
      have hnew : (∀ b ∈ seen, ∀ m, rank b = some m → above previous m = true → n ≤ m) →
          Selects rank previous (seen ++ [a]) (some (n, a)) := by
        intro hless
        refine ⟨fun m b heq => ?_, fun b hmem m hrank' habove' => ⟨n, a, rfl, ?_⟩⟩
        · cases heq
          exact ⟨mem_append_right _ (mem_singleton_self a), hrank, habove⟩
        · rcases mem_append.mp hmem with hmem | hmem
          · exact hless b hmem m hrank' habove'
          · rw [mem_singleton.mp hmem, hrank] at hrank'
            cases hrank'
            exact Nat.le_refl _
      split
      · -- Nothing was selected before.
        apply hnew
        intro b hmem m hrank' habove'
        obtain ⟨n', a', heq, -⟩ := h.least b hmem m hrank' habove'
        cases heq
      · next least entry =>
        split
        · next hlt =>
          apply hnew
          intro b hmem m hrank' habove'
          obtain ⟨n', a', heq, hle⟩ := h.least b hmem m hrank' habove'
          cases heq
          omega
        · apply hkept _ rfl
          intro m hrank' habove'
          rw [hrank] at hrank'
          cases hrank'
          exact ⟨least, entry, rfl, by omega⟩

lemma leastAbove_selects (rank : α → Option ℕ) (previous : Option ℕ) (l : List α) :
    Selects rank previous l (leastAbove rank previous l) := by
  have hfold : ∀ (rest seen : List α) (selected : Option (ℕ × α)),
      Selects rank previous seen selected →
        Selects rank previous (seen ++ rest) (rest.foldl (selectLess rank previous) selected) := by
    intro rest
    induction rest with
    | nil =>
      intro seen selected h
      rwa [append_nil]
    | cons a rest ih =>
      intro seen selected h
      rw [append_cons]
      exact ih _ _ (h.snoc a)
  refine hfold l [] none ⟨fun n a h => ?_, fun b hmem => ?_⟩
  · cases h
  · cases hmem

/-! ## The loop -/

/-- The entries whose rank is above the latest one. -/
def countAbove (rank : α → Option ℕ) (previous : Option ℕ) (l : List α) : ℕ :=
  l.countP fun a => (rank a).any (above previous)

lemma countAbove_lt (hmem : a ∈ l) (hrank : rank a = some n) (habove : above previous n = true) :
    countAbove rank (some n) l < countAbove rank previous l := by
  have hmono : ∀ b, (rank b).any (above (some n)) = true →
      (rank b).any (above previous) = true := by
    intro b hb
    cases hrank' : rank b with
    | none =>
      rw [hrank'] at hb
      cases hb
    | some m =>
      rw [hrank'] at hb
      have hlt : n < m := by simpa [above] using hb
      cases previous with
      | none => rfl
      | some latest =>
        have hlatest : latest < n := by simpa [above] using habove
        simpa [above] using Nat.lt_trans hlatest hlt
  unfold countAbove
  induction l with
  | nil => cases hmem
  | cons b l ih =>
    have hle : l.countP (fun a => (rank a).any (above (some n))) ≤
        l.countP (fun a => (rank a).any (above previous)) :=
      countP_mono_left fun c _ => hmono c
    rw [countP_cons, countP_cons]
    rcases mem_cons.mp hmem with rfl | hmem
    · rw [hrank]
      simp only [Option.any_some, habove, if_true]
      rw [if_neg (by simp [above])]
      omega
    · have hlt := ih hmem
      by_cases hb : (rank b).any (above (some n)) = true
      · rw [if_pos hb, if_pos (hmono b hb)]
        omega
      · rw [if_neg hb]
        omega

lemma ascending_entry (hentry : (n, a) ∈ ascending rank l fuel previous) :
    a ∈ l ∧ rank a = some n ∧ above previous n = true := by
  induction fuel generalizing previous with
  | zero => cases hentry
  | succ fuel ih =>
    rw [ascending] at hentry
    have hselects := leastAbove_selects rank previous l
    split at hentry
    · cases hentry
    · next least entry heq =>
      obtain ⟨hmem, hrank, habove⟩ := hselects.entry least entry heq
      rcases mem_cons.mp hentry with hfirst | hlater
      · cases hfirst
        exact ⟨hmem, hrank, habove⟩
      · obtain ⟨hmem', hrank', habove'⟩ := ih hlater
        refine ⟨hmem', hrank', ?_⟩
        cases previous with
        | none => rfl
        | some latest =>
          have hlatest : latest < least := by simpa [above] using habove
          have hlt : least < n := by simpa [above] using habove'
          simpa [above] using Nat.lt_trans hlatest hlt

/-- Each rank is less than the later ones. -/
lemma ascending_sorted (rank : α → Option ℕ) (l : List α) (fuel : ℕ) (previous : Option ℕ) :
    ((ascending rank l fuel previous).map Prod.fst).Pairwise (· < ·) := by
  induction fuel generalizing previous with
  | zero => exact .nil
  | succ fuel ih =>
    rw [ascending]
    split
    · exact .nil
    · next least entry heq =>
      rw [map_cons]
      refine .cons (fun n hmem => ?_) (ih _)
      obtain ⟨⟨m, a⟩, hentry, rfl⟩ := mem_map.mp hmem
      obtain ⟨-, -, habove⟩ := ascending_entry hentry
      simpa [above] using habove

/-- No rank is left out. -/
lemma mem_ascending (hfuel : countAbove rank previous l < fuel) (hmem : a ∈ l)
    (hrank : rank a = some n) (habove : above previous n = true) :
    n ∈ (ascending rank l fuel previous).map Prod.fst := by
  induction fuel generalizing previous with
  | zero => omega
  | succ fuel ih =>
    rw [ascending]
    have hselects := leastAbove_selects rank previous l
    obtain ⟨least, entry, heq, hle⟩ := hselects.least a hmem n hrank habove
    obtain ⟨hmem', hrank', habove'⟩ := hselects.entry least entry heq
    rw [heq]
    rw [map_cons, mem_cons]
    rcases Nat.lt_or_ge least n with hlt | hge
    · refine .inr (ih ?_ (by simpa [above] using hlt))
      have hless := countAbove_lt hmem' hrank' habove'
      omega
    · exact .inl (by omega)

/-- Where no two entries share a rank, the ranks come in order. -/
theorem ascending_ranks (hdistinct : (l.filterMap rank).Nodup) (hfuel : l.length < fuel) :
    (ascending rank l fuel none).map Prod.fst = (l.filterMap rank).mergeSort (· ≤ ·) := by
  have hcount : countAbove rank none l ≤ l.length := countP_le_length
  have hsorted := ascending_sorted rank l fuel none
  have hperm : ((ascending rank l fuel none).map Prod.fst).Perm (l.filterMap rank) := by
    rw [perm_ext_iff_of_nodup (hsorted.imp Nat.ne_of_lt) hdistinct]
    intro n
    rw [mem_filterMap]
    constructor
    · intro hmem
      obtain ⟨⟨m, a⟩, hentry, rfl⟩ := mem_map.mp hmem
      obtain ⟨hmem', hrank, -⟩ := ascending_entry hentry
      exact ⟨a, hmem', hrank⟩
    · rintro ⟨a, hmem, hrank⟩
      exact mem_ascending (by omega) hmem hrank rfl
  have hmerge : ((l.filterMap rank).mergeSort (· ≤ ·)).Pairwise (· ≤ ·) := by
    have hpairwise := @pairwise_mergeSort ℕ (fun x y => decide (x ≤ y))
      (fun a b c => by simpa using Nat.le_trans) (fun a b => by simpa using Nat.le_total a b)
      (l.filterMap rank)
    simpa using hpairwise
  exact (hperm.trans (mergeSort_perm _ _).symm).eq_of_pairwise
    (fun x y _ _ hxy hyx => Nat.le_antisymm hxy hyx) (hsorted.imp Nat.le_of_lt) hmerge

end Oseo.Library
