import Mathlib.Data.List.Nodup

/-!
# Insertion-ordered maps

A map as JavaScript's `Map` has it: entries in the order their keys were added, each key
once. Setting a key that is present keeps its place; deleting a key and setting it again
moves it to the end.
-/

namespace Oseo.Library

open List

/-- A map with its entries in insertion order. -/
structure InsertionMap (K V : Type*) where
  entries : List (K × V)
  nodup : (entries.map Prod.fst).Nodup

namespace InsertionMap

variable {K V : Type*} [DecidableEq K]

/-- The map with no entries. -/
def empty : InsertionMap K V := ⟨[], List.nodup_nil⟩

/-- The value of a key. -/
def get (m : InsertionMap K V) (k : K) : Option V :=
  (m.entries.find? fun e => e.1 = k).map Prod.snd

/-- `entries` with the value of `k` replaced, or `k` added at the end. -/
def setEntries (k : K) (v : V) : List (K × V) → List (K × V)
  | [] => [(k, v)]
  | e :: rest => if e.1 = k then (k, v) :: rest else e :: setEntries k v rest

lemma keys_setEntries (k : K) (v : V) (l : List (K × V)) (x : K) :
    x ∈ (setEntries k v l).map Prod.fst ↔ x = k ∨ x ∈ l.map Prod.fst := by
  induction l with
  | nil => simp [setEntries]
  | cons e rest ih =>
    rw [setEntries]
    split
    · next h => simp [h]
    · rw [map_cons, mem_cons, ih, map_cons, mem_cons]
      tauto

lemma nodup_setEntries (k : K) (v : V) {l : List (K × V)} (h : (l.map Prod.fst).Nodup) :
    ((setEntries k v l).map Prod.fst).Nodup := by
  induction l with
  | nil => simp [setEntries]
  | cons e rest ih =>
    rw [map_cons, nodup_cons] at h
    rw [setEntries]
    split
    · next he => simpa [he] using h
    · next he =>
      rw [map_cons, nodup_cons, keys_setEntries]
      exact ⟨fun hx => hx.elim he h.1, ih h.2⟩

/-- Sets the value of a key. -/
def set (m : InsertionMap K V) (k : K) (v : V) : InsertionMap K V :=
  ⟨setEntries k v m.entries, nodup_setEntries k v m.nodup⟩

/-- Removes a key. -/
def delete (m : InsertionMap K V) (k : K) : InsertionMap K V :=
  ⟨m.entries.filter fun e => e.1 ≠ k, (m.nodup.sublist (List.filter_sublist.map _))⟩

@[simp] lemma get_empty (k : K) : (empty : InsertionMap K V).get k = none := rfl

lemma find_setEntries (k x : K) (v : V) (l : List (K × V)) :
    ((setEntries k v l).find? fun e => e.1 = x).map Prod.snd =
      if x = k then some v else (l.find? fun e => e.1 = x).map Prod.snd := by
  induction l with
  | nil =>
    by_cases h : x = k
    · simp [setEntries, h]
    · simp [setEntries, h, Ne.symm h]
  | cons e rest ih =>
    rw [setEntries]
    by_cases he : e.1 = k
    · by_cases h : x = k
      · simp [he, h]
      · simp [he, h, Ne.symm h]
    · rw [if_neg he, find?_cons, find?_cons]
      by_cases hx : e.1 = x
      · have h : x ≠ k := fun h => he (hx.trans h)
        simp [hx, h]
      · simpa [hx] using ih

lemma get_set (m : InsertionMap K V) (k x : K) (v : V) :
    (m.set k v).get x = if x = k then some v else m.get x :=
  find_setEntries k x v m.entries

lemma get_delete (m : InsertionMap K V) (k x : K) :
    (m.delete k).get x = if x = k then none else m.get x := by
  unfold get delete
  rw [find?_filter]
  by_cases h : x = k
  · rw [if_pos h, Option.map_eq_none_iff, find?_eq_none]
    intro e _ he
    simp only [ne_eq, decide_not, Bool.not_eq_eq_eq_not, Bool.not_true,
      decide_eq_false_iff_not, decide_eq_true_eq] at he
    exact he.1 (he.2.trans h)
  · rw [if_neg h]
    congr 2
    funext e
    by_cases he : e.1 = x
    · have : e.1 ≠ k := fun h' => h (he.symm.trans h')
      simp [he, h]
    · simp [he]

/-- Removing a key that is not there. -/
lemma delete_of_get_none {m : InsertionMap K V} {k : K} (h : m.get k = none) :
    m.delete k = m := by
  obtain ⟨l, hnodup⟩ := m
  unfold get at h
  rw [Option.map_eq_none_iff, find?_eq_none] at h
  unfold delete
  simp only [mk.injEq]
  rw [filter_eq_self]
  intro e he
  simpa using h e he

lemma mem_entries (m : InsertionMap K V) (k : K) (v : V) :
    (k, v) ∈ m.entries ↔ m.get k = some v := by
  unfold get
  obtain ⟨l, hnodup⟩ := m
  induction l with
  | nil => simp
  | cons e rest ih =>
    rw [map_cons, nodup_cons] at hnodup
    rw [mem_cons, find?_cons]
    by_cases he : e.1 = k
    · have hk : (k, v) ∉ rest := fun h => hnodup.1 (he ▸ mem_map_of_mem h)
      simp only [he, decide_true, hk, or_false, Option.map_some, Option.some.injEq]
      constructor
      · intro h
        rw [← h]
      · intro h
        rw [← h, ← he]
    · have hne : (k, v) ≠ e := fun h => he (h ▸ rfl)
      simpa [he, hne] using ih hnodup.2

/-- A map filled with the places of the elements of a list. -/
lemma get_positions {l : List K} (hnodup : l.Nodup) (m : InsertionMap K ℕ) (start : ℕ) (x : K) :
    ((l.zipIdx start).foldl (fun m e => m.set e.1 e.2) m).get x =
      if x ∈ l then some (start + l.idxOf x) else m.get x := by
  induction l generalizing m start with
  | nil => rfl
  | cons k l ih =>
    rw [nodup_cons] at hnodup
    rw [zipIdx_cons, foldl_cons, ih hnodup.2, get_set]
    by_cases heq : x = k
    · subst heq
      simp [hnodup.1]
    · rw [idxOf_cons_ne _ (Ne.symm heq), if_neg heq]
      by_cases hmem : x ∈ l
      · rw [if_pos hmem, if_pos (mem_cons_of_mem _ hmem)]
        congr 1
        omega
      · rw [if_neg hmem, if_neg (by simp [hmem, heq])]

end InsertionMap

end Oseo.Library
