import Mathlib.Data.List.Basic

/-!
# Dense runs in a vector

Some entries of a vector carry a number, `index`, and the others carry none. The vector has a
*dense run* of `count` entries from slot `base` when the entries with a number are exactly the
ones in these slots, and they carry `0, …, count - 1` in order. The lemmas say which insertions
and removals keep such a run, and where it is afterwards.
-/

namespace Oseo.Library

variable {α : Type*} {index : α → Option ℕ} {l : List α} {base count slot : ℕ} {a : α}

/-- The entries with a number are those of the run, in order. -/
def DenseRun (index : α → Option ℕ) (l : List α) (base count : ℕ) : Prop :=
  ∀ slot i, l[slot]?.bind index = some i ↔ i < count ∧ slot = base + i

lemma DenseRun.nil : DenseRun index [] base 0 := by
  intro slot i
  simp

/-- An empty run is nowhere. -/
lemma DenseRun.move (h : DenseRun index l base 0) (base' : ℕ) : DenseRun index l base' 0 := by
  intro slot i
  rw [h slot i]
  omega

/-- A number of the run is the number of the entry in its slot. -/
lemma DenseRun.get (h : DenseRun index l base count) {i : ℕ} (hi : i < count) :
    ∃ a, l[base + i]? = some a ∧ index a = some i :=
  Option.bind_eq_some_iff.mp ((h (base + i) i).mpr ⟨hi, rfl⟩)

lemma DenseRun.index_of_get (h : DenseRun index l base count) (hslot : l[slot]? = some a)
    {i : ℕ} : index a = some i ↔ i < count ∧ slot = base + i := by
  rw [← h slot i, hslot]
  rfl

/-! ## Insertion -/

/-- What an insertion does to the numbers of the slots. -/
lemma bind_insertIdx (hslot : slot ≤ l.length) (j : ℕ) :
    (l.insertIdx slot a)[j]?.bind index =
      if j < slot then l[j]?.bind index
      else if j = slot then index a
      else l[j - 1]?.bind index := by
  rw [List.getElem?_insertIdx]
  split
  · rfl
  · split
    · rw [if_pos (by omega)]
      rfl
    · rfl

/-- An entry without a number in front of the run moves it up. -/
lemma DenseRun.insert_before (h : DenseRun index l base count) (ha : index a = none)
    (hslot : slot ≤ l.length) (hle : slot ≤ base) :
    DenseRun index (l.insertIdx slot a) (base + 1) count := by
  intro j i
  rw [bind_insertIdx hslot]
  split
  · rw [h]
    omega
  · split
    · simp only [ha, reduceCtorEq, false_iff]
      omega
    · rw [h]
      omega

/-- An entry without a number behind the run leaves it alone. -/
lemma DenseRun.insert_after (h : DenseRun index l base count) (ha : index a = none)
    (hslot : slot ≤ l.length) (hle : base + count ≤ slot) :
    DenseRun index (l.insertIdx slot a) base count := by
  intro j i
  rw [bind_insertIdx hslot]
  split
  · exact h j i
  · split
    · simp only [ha, reduceCtorEq, false_iff]
      omega
    · rw [h]
      omega

/-- The next number right behind the run extends it. -/
lemma DenseRun.insert_next (h : DenseRun index l base count) (ha : index a = some count)
    (hslot : base + count ≤ l.length) :
    DenseRun index (l.insertIdx (base + count) a) base (count + 1) := by
  intro j i
  rw [bind_insertIdx hslot]
  split
  · rw [h]
    omega
  · split
    · rw [ha, Option.some.injEq]
      omega
    · rw [h]
      omega

/-! ## Removal -/

lemma bind_eraseIdx (j : ℕ) :
    (l.eraseIdx slot)[j]?.bind index =
      if j < slot then l[j]?.bind index else l[j + 1]?.bind index := by
  rw [List.getElem?_eraseIdx]
  split <;> rfl

/-- A removal in front of the run moves it down. -/
lemma DenseRun.erase_before (h : DenseRun index l base count) (hlt : slot < base) :
    DenseRun index (l.eraseIdx slot) (base - 1) count := by
  intro j i
  rw [bind_eraseIdx]
  split
  · rw [h]
    omega
  · rw [h]
    omega

/-- The removal of the last entry of the run shortens it. -/
lemma DenseRun.erase_last (h : DenseRun index l base count) (hcount : 0 < count)
    (hslot : slot + 1 = base + count) : DenseRun index (l.eraseIdx slot) base (count - 1) := by
  intro j i
  rw [bind_eraseIdx]
  split
  · rw [h]
    omega
  · rw [h]
    omega

/-- A removal behind the run leaves it alone. -/
lemma DenseRun.erase_after (h : DenseRun index l base count) (hle : base + count ≤ slot) :
    DenseRun index (l.eraseIdx slot) base count := by
  intro j i
  rw [bind_eraseIdx]
  split
  · exact h j i
  · rw [h]
    omega

end Oseo.Library
