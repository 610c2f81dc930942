import Mathlib.Data.List.Basic
import Mathlib.Logic.Function.Iterate

/-!
# Open addressing with tombstones

A table of slots that is searched along a probe sequence: from a key's start slot, one slot
after the other, up to an empty slot. Removing an entry leaves a tombstone, so that the
entries behind it are still found.

* `probe` is the loop, with the slot to stop at as a parameter;
* `OpenAddressed` is the invariant: no empty slot lies between a key's start and its entry;
* an insertion and a removal keep it, and a table with a free slot ends every probe.
-/

namespace Oseo.Library

open List

/-- One slot of a table. -/
inductive Slot (E : Type*)
  | empty
  | tombstone
  | entry (e : E)
deriving DecidableEq

variable {E K : Type*}

/-- A slot that holds an entry. -/
def Slot.isEntry : Slot E → Bool
  | .entry _ => true
  | _ => false

/-- A slot that was never used. -/
def Slot.isEmpty : Slot E → Bool
  | .empty => true
  | _ => false

/-- The slot at an index. -/
def slotAt (slots : List (Slot E)) (i : ℕ) : Slot E := slots.getD i .empty

/-! ## The probe loop -/

/-- Walks from slot `i` along `next` to the first slot to stop at, at most `n` slots. -/
def probe (slots : List (Slot E)) (next : ℕ → ℕ) (stop : Slot E → Bool) : ℕ → ℕ → Option ℕ
  | 0, _ => none
  | n + 1, i => if stop (slotAt slots i) then some i else probe slots next stop n (next i)

section
variable {slots : List (Slot E)} {next : ℕ → ℕ} {stop : Slot E → Bool}

lemma probe_some {n i j : ℕ} (h : probe slots next stop n i = some j) :
    ∃ d < n, next^[d] i = j ∧ stop (slotAt slots j) = true ∧
      ∀ d' < d, stop (slotAt slots (next^[d'] i)) = false := by
  induction n generalizing i with
  | zero => cases h
  | succ n ih =>
    rw [probe] at h
    by_cases hstop : stop (slotAt slots i) = true
    · rw [if_pos hstop, Option.some.injEq] at h
      exact ⟨0, by omega, h, h ▸ hstop, fun d' hd' => by omega⟩
    · rw [if_neg hstop] at h
      obtain ⟨d, hd, hj, hstop', hbefore⟩ := ih h
      refine ⟨d + 1, by omega, hj, hstop', fun d' hd' => ?_⟩
      cases d' with
      | zero => simpa using hstop
      | succ d' => exact hbefore d' (by omega)

lemma probe_isSome {n i d : ℕ} (hd : d < n) (hstop : stop (slotAt slots (next^[d] i)) = true) :
    ∃ j, probe slots next stop n i = some j := by
  induction n generalizing i d with
  | zero => omega
  | succ n ih =>
    rw [probe]
    by_cases hi : stop (slotAt slots i) = true
    · exact ⟨i, if_pos hi⟩
    · rw [if_neg hi]
      cases d with
      | zero => exact absurd hstop hi
      | succ d => exact ih (by omega) hstop

end

/-! ## The probe sequence -/

/-- The slot after `i` in a table of `n` slots. -/
def nextSlot (n i : ℕ) : ℕ := (i + 1) % n

lemma iterate_nextSlot {n i : ℕ} (hi : i < n) (d : ℕ) : (nextSlot n)^[d] i = (i + d) % n := by
  induction d with
  | zero => simp [Nat.mod_eq_of_lt hi]
  | succ d ih =>
    rw [Function.iterate_succ_apply', ih, nextSlot]
    rw [Nat.mod_add_mod, Nat.add_assoc]

lemma iterate_nextSlot_lt {n i : ℕ} (hi : i < n) (d : ℕ) : (nextSlot n)^[d] i < n := by
  rw [iterate_nextSlot hi]
  exact Nat.mod_lt _ (by omega)

/-- The probe sequence visits every slot. -/
lemma exists_iterate_nextSlot {n i j : ℕ} (hi : i < n) (hj : j < n) :
    ∃ d < n, (nextSlot n)^[d] i = j := by
  by_cases h : i ≤ j
  · refine ⟨j - i, by omega, ?_⟩
    rw [iterate_nextSlot hi, show i + (j - i) = j by omega, Nat.mod_eq_of_lt hj]
  · refine ⟨n - i + j, by omega, ?_⟩
    rw [iterate_nextSlot hi, show i + (n - i + j) = j + n by omega, Nat.add_mod_right,
      Nat.mod_eq_of_lt hj]

/-! ## The invariant -/

/-- No empty slot lies between a key's start and its entry, and no key has two entries. -/
structure OpenAddressed (start : K → ℕ) (keyOf : E → Option K) (slots : List (Slot E)) :
    Prop where
  start_lt : slots ≠ [] → ∀ k, start k < slots.length
  keyed : ∀ i e, slotAt slots i = .entry e → ∃ k, keyOf e = some k
  path : ∀ i e k, slotAt slots i = .entry e → keyOf e = some k →
    ∃ d < slots.length, (nextSlot slots.length)^[d] (start k) = i ∧
      ∀ d' < d, slotAt slots ((nextSlot slots.length)^[d'] (start k)) ≠ .empty
  unique : ∀ i j e e', slotAt slots i = .entry e → slotAt slots j = .entry e' →
    keyOf e = keyOf e' → i = j

/-- The slot to stop a search at: an empty one, or one with the key. -/
def searchStop [DecidableEq K] (keyOf : E → Option K) (k : K) : Slot E → Bool
  | .empty => true
  | .tombstone => false
  | .entry e => decide (keyOf e = some k)

/-- The slot that holds a key's entry. -/
def findSlot [DecidableEq K] (start : K → ℕ) (keyOf : E → Option K) (next : ℕ → ℕ)
    (slots : List (Slot E)) (k : K) : Option ℕ :=
  match probe slots next (searchStop keyOf k) slots.length (start k) with
  | none => none
  | some i => if (slotAt slots i).isEntry then some i else none

/-- The first slot on a key's path that holds no entry. -/
def freeSlot (start : K → ℕ) (next : ℕ → ℕ) (slots : List (Slot E)) (k : K) : Option ℕ :=
  probe slots next (fun slot => !slot.isEntry) slots.length (start k)

lemma slotAt_set (slots : List (Slot E)) {i : ℕ} (hi : i < slots.length) (slot : Slot E) (j : ℕ) :
    slotAt (slots.set i slot) j = if j = i then slot else slotAt slots j := by
  unfold slotAt
  rw [getD_eq_getElem?_getD, getElem?_set, getD_eq_getElem?_getD]
  by_cases h : j = i
  · rw [if_pos h.symm, if_pos h, if_pos hi]
    rfl
  · rw [if_neg (Ne.symm h), if_neg h]

@[simp] lemma slotAt_replicate (n i : ℕ) :
    slotAt (replicate n (.empty : Slot E)) i = .empty := by
  unfold slotAt
  rw [getD_eq_getElem?_getD, getElem?_replicate]
  split <;> rfl

lemma slotAt_lt {slots : List (Slot E)} {i : ℕ} {e : E} (h : slotAt slots i = .entry e) :
    i < slots.length := by
  by_contra hi
  rw [slotAt, getD_eq_getElem?_getD, getElem?_eq_none (by omega)] at h
  cases h

section
variable [DecidableEq K] {start : K → ℕ} {keyOf : E → Option K} {slots : List (Slot E)}

/-- A search finds what it is for: the slot it returns holds the key. -/
lemma findSlot_some {next : ℕ → ℕ} {k : K} {i : ℕ} (h : findSlot start keyOf next slots k = some i) :
    ∃ e, slotAt slots i = .entry e ∧ keyOf e = some k := by
  unfold findSlot at h
  cases hp : probe slots next (searchStop keyOf k) slots.length (start k) with
  | none => simp [hp] at h
  | some j =>
    simp only [hp] at h
    split at h
    · next hentry =>
      rw [Option.some.injEq] at h
      subst h
      obtain ⟨d, -, -, hstop, -⟩ := probe_some hp
      cases hslot : slotAt slots j with
      | entry e =>
        rw [hslot] at hstop
        exact ⟨e, rfl, of_decide_eq_true hstop⟩
      | _ => simp [hslot, Slot.isEntry] at hentry
    · cases h

/-- A search finds every entry. -/
lemma OpenAddressed.findSlot (h : OpenAddressed start keyOf slots) {i : ℕ} {e : E} {k : K}
    (hslot : slotAt slots i = .entry e) (hk : keyOf e = some k) :
    findSlot start keyOf (nextSlot slots.length) slots k = some i := by
  obtain ⟨d, hd, hi, hbefore⟩ := h.path i e k hslot hk
  have hstop : searchStop keyOf k (slotAt slots ((nextSlot slots.length)^[d] (start k))) = true := by
    rw [hi, hslot]
    exact decide_eq_true hk
  obtain ⟨j, hj⟩ := probe_isSome hd hstop
  obtain ⟨d', -, hd', hstop', hbefore'⟩ := probe_some hj
  -- The first slot to stop at comes no later, so it is not empty and has the key.
  have hle : d' ≤ d := by
    by_contra hlt
    have := hbefore' d (by omega)
    rw [hstop] at this
    cases this
  have hne : slotAt slots j ≠ .empty := by
    by_cases heq : d' = d
    · rw [← hd', heq, hi, hslot]
      simp
    · rw [← hd']
      exact hbefore d' (by omega)
  cases hjs : slotAt slots j with
  | empty => exact absurd hjs hne
  | tombstone =>
    rw [hjs] at hstop'
    cases hstop'
  | entry e' =>
    rw [hjs] at hstop'
    have hk' : keyOf e' = some k := of_decide_eq_true hstop'
    have hji : j = i := h.unique j i e' e hjs hslot (hk'.trans hk.symm)
    unfold Library.findSlot
    rw [hj]
    simp only [hjs, Slot.isEntry, if_true]
    rw [hji]

/-- A search for a key without an entry finds nothing. -/
lemma findSlot_none {next : ℕ → ℕ} {k : K}
    (h : ∀ i e, slotAt slots i = .entry e → keyOf e ≠ some k) :
    findSlot start keyOf next slots k = none := by
  cases hf : findSlot start keyOf next slots k with
  | none => rfl
  | some i =>
    obtain ⟨e, he, hk⟩ := findSlot_some hf
    exact absurd hk (h i e he)

omit [DecidableEq K] in
section
variable (h : OpenAddressed start keyOf slots)
include h

/-- A table with a slot that holds no entry has room on every path. -/
lemma OpenAddressed.freeSlot {i : ℕ}
    (hi : i < slots.length) (hfree : (slotAt slots i).isEntry = false) (k : K) :
    ∃ j < slots.length, freeSlot start (nextSlot slots.length) slots k = some j := by
  have hne : slots ≠ [] := by
    intro hnil
    rw [hnil] at hi
    exact absurd hi (Nat.not_lt_zero i)
  have hstart := h.start_lt hne k
  obtain ⟨d, hd, hdi⟩ := exists_iterate_nextSlot hstart hi
  have hstop : (!(slotAt slots ((nextSlot slots.length)^[d] (start k))).isEntry) = true := by
    rw [hdi, hfree]
    rfl
  obtain ⟨j, hj⟩ := @probe_isSome _ slots _ (fun slot => !slot.isEntry) _ _ _ hd hstop
  obtain ⟨d', -, hd', -, -⟩ := probe_some hj
  refine ⟨j, ?_, hj⟩
  rw [← hd']
  exact iterate_nextSlot_lt hstart d'

omit [DecidableEq K] in
/-- Storing an entry of a new key in the free slot of its path. -/
lemma OpenAddressed.insert {k : K} {e : E} {j : ℕ}
    (hk : keyOf e = some k) (hnew : ∀ i e', slotAt slots i = .entry e' → keyOf e' ≠ some k)
    (hfree : Library.freeSlot start (nextSlot slots.length) slots k = some j)
    (hj : j < slots.length) : OpenAddressed start keyOf (slots.set j (.entry e)) := by
  have hset := slotAt_set slots hj (.entry e)
  obtain ⟨d, hd, hdj, hstop, hbefore⟩ := probe_some hfree
  constructor
  case start_lt =>
    intro hne k'
    rw [length_set]
    exact h.start_lt (fun hnil => hne (by rw [hnil]; rfl)) k'
  case keyed =>
    intro i e' he'
    rw [hset] at he'
    split at he'
    · cases he'
      exact ⟨k, hk⟩
    · exact h.keyed i e' he'
  case path =>
    intro i e' k' he' hk'
    rw [length_set]
    rw [hset] at he'
    split at he'
    · next hij =>
      cases he'
      rw [hk, Option.some.injEq] at hk'
      subst hk'
      refine ⟨d, hd, hdj.trans hij.symm, fun d' hd' => ?_⟩
      have hentry := hbefore d' hd'
      rw [hset]
      split
      · simp
      · intro hempty
        rw [hempty] at hentry
        cases hentry
    · obtain ⟨d₁, hd₁, hi, hpath⟩ := h.path i e' k' he' hk'
      refine ⟨d₁, hd₁, hi, fun d' hd' => ?_⟩
      rw [hset]
      split
      · simp
      · exact hpath d' hd'
  case unique =>
    intro i i' e₁ e₂ h₁ h₂ heq
    rw [hset] at h₁ h₂
    split at h₁ <;> split at h₂
    · next hij hij' => exact hij.trans hij'.symm
    · cases h₁
      exact absurd (heq.symm.trans hk) (hnew i' e₂ h₂)
    · cases h₂
      exact absurd (heq.trans hk) (hnew i e₁ h₁)
    · exact h.unique i i' e₁ e₂ h₁ h₂ heq

omit [DecidableEq K] in
/-- Replacing an entry by a tombstone. -/
lemma OpenAddressed.remove {j : ℕ}
    (hj : j < slots.length) : OpenAddressed start keyOf (slots.set j .tombstone) := by
  have hset := slotAt_set slots hj .tombstone
  have hentry : ∀ i e, slotAt (slots.set j .tombstone) i = .entry e → slotAt slots i = .entry e := by
    intro i e he
    rw [hset] at he
    split at he
    · cases he
    · exact he
  constructor
  case start_lt =>
    intro hne k'
    rw [length_set]
    exact h.start_lt (fun hnil => hne (by rw [hnil]; rfl)) k'
  case keyed => exact fun i e he => h.keyed i e (hentry i e he)
  case path =>
    intro i e k he hk
    rw [length_set]
    obtain ⟨d, hd, hi, hpath⟩ := h.path i e k (hentry i e he) hk
    refine ⟨d, hd, hi, fun d' hd' => ?_⟩
    rw [hset]
    split
    · simp
    · exact hpath d' hd'
  case unique =>
    exact fun i i' e₁ e₂ h₁ h₂ heq => h.unique i i' e₁ e₂ (hentry i e₁ h₁) (hentry i' e₂ h₂) heq

omit [DecidableEq K] in
/-- The keys of entries outside the table do not matter. -/
lemma OpenAddressed.congr {keyOf' : E → Option K}
    (hkey : ∀ i e, slotAt slots i = .entry e → keyOf' e = keyOf e) :
    OpenAddressed start keyOf' slots where
  start_lt := h.start_lt
  keyed := fun i e he => by
    rw [hkey i e he]
    exact h.keyed i e he
  path := fun i e k he hk => h.path i e k he ((hkey i e he).symm.trans hk)
  unique := fun i j e e' he he' heq =>
    h.unique i j e e' he he' (by rw [← hkey i e he, ← hkey j e' he', heq])

end

omit [DecidableEq K] in
/-- A table without slots. -/
lemma OpenAddressed.nil : OpenAddressed start keyOf ([] : List (Slot E)) where
  start_lt := fun h => absurd rfl h
  keyed := fun _ _ h => by cases h
  path := fun _ _ _ h => by cases h
  unique := fun _ _ _ _ h => by cases h

omit [DecidableEq K] in
/-- A table of empty slots. -/
lemma OpenAddressed.replicate {n : ℕ} (hstart : ∀ k, start k < n) :
    OpenAddressed start keyOf (replicate n (.empty : Slot E)) := by
  constructor
  case start_lt => exact fun _ k => by simpa using hstart k
  case keyed => exact fun i e he => by simp at he
  case path => exact fun i e k he => by simp at he
  case unique => exact fun i j e e' he => by simp at he

end

/-! ## Counting slots -/

/-- The number of slots that are not empty. -/
def usedSlots (slots : List (Slot E)) : ℕ := slots.countP fun slot => !slot.isEmpty

lemma usedSlots_set {slots : List (Slot E)} {i : ℕ} (hi : i < slots.length) {slot : Slot E}
    (hslot : slot.isEmpty = false) :
    usedSlots (slots.set i slot) =
      usedSlots slots + if (slotAt slots i).isEmpty then 1 else 0 := by
  induction slots generalizing i with
  | nil => exact absurd hi (Nat.not_lt_zero i)
  | cons a slots ih =>
    cases i with
    | zero =>
      unfold usedSlots slotAt
      rw [set_cons_zero, countP_cons, countP_cons]
      cases a <;> simp_all [Slot.isEmpty]
    | succ i =>
      have := ih (i := i) (by simpa using hi)
      unfold usedSlots at this ⊢
      rw [set_cons_succ, countP_cons, countP_cons, this]
      have hat : slotAt (a :: slots) (i + 1) = slotAt slots i := rfl
      rw [hat]
      omega

/-- A table whose slots are not all used has an empty one. -/
lemma exists_empty {slots : List (Slot E)} (h : usedSlots slots < slots.length) :
    ∃ i < slots.length, slotAt slots i = .empty := by
  unfold usedSlots at h
  have hex : ∃ a ∈ slots, ¬(!a.isEmpty) = true := by
    by_contra hall
    push Not at hall
    rw [countP_eq_length.mpr fun a ha => by simpa using hall a ha] at h
    exact absurd h (Nat.lt_irrefl _)
  obtain ⟨a, ha, hempty⟩ := hex
  obtain ⟨i, hi, hget⟩ := mem_iff_getElem.mp ha
  refine ⟨i, hi, ?_⟩
  rw [slotAt, getD_eq_getElem?_getD, getElem?_eq_getElem hi, hget]
  cases a with
  | empty => rfl
  | _ => simp [Slot.isEmpty] at hempty

lemma usedSlots_replicate (n : ℕ) : usedSlots (replicate n (.empty : Slot E)) = 0 := by
  unfold usedSlots
  rw [countP_replicate]
  simp [Slot.isEmpty]

end Oseo.Library
