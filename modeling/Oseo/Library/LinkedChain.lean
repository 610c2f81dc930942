import Mathlib.Data.List.Basic

/-!
# Linked chains

Records that point at each other through an optional link. `Chain` says which records a
pointer leads through, in order; `BackChain` says that each of them points back at the one
before it. Memory is a function, so a write is a change of one link.
-/

namespace Oseo.Library

open List

variable {R : Type*} {next next' prev prev' : R → Option R}

/-- From `head`, `next` leads through the records of the list and then to `after`. -/
def Chain (next : R → Option R) : Option R → List R → Option R → Prop
  | head, [], after => head = after
  | head, x :: l, after => head = some x ∧ Chain next (next x) l after

/-- Each record of the list points back at the one before it, the first at `before`. -/
def BackChain (prev : R → Option R) : Option R → List R → Prop
  | _, [] => True
  | before, x :: l => prev x = before ∧ BackChain prev (some x) l

/-- The last record of a list, or the one before the list. -/
def lastOr (before : Option R) (l : List R) : Option R := l.getLast?.or before

@[simp] lemma lastOr_nil (before : Option R) : lastOr before [] = before := rfl

@[simp] lemma lastOr_concat (before : Option R) (l : List R) (x : R) :
    lastOr before (l ++ [x]) = some x := by
  simp [lastOr]

lemma lastOr_cons (before : Option R) (x : R) (l : List R) :
    lastOr before (x :: l) = lastOr (some x) l := by
  unfold lastOr
  cases l with
  | nil => rfl
  | cons y l =>
    rw [getLast?_cons_cons]
    cases h : (y :: l).getLast? with
    | none => simp at h
    | some z => rfl

lemma Chain.congr {head after : Option R} {l : List R} (h : Chain next head l after)
    (hnext : ∀ x ∈ l, next' x = next x) : Chain next' head l after := by
  induction l generalizing head with
  | nil => exact h
  | cons x l ih =>
    refine ⟨h.1, ?_⟩
    rw [hnext x mem_cons_self]
    exact ih h.2 fun y hy => hnext y (mem_cons_of_mem _ hy)

lemma chain_append {head after : Option R} {a b : List R} :
    Chain next head (a ++ b) after ↔ ∃ mid, Chain next head a mid ∧ Chain next mid b after := by
  induction a generalizing head with
  | nil =>
    constructor
    · exact fun h => ⟨head, rfl, h⟩
    · intro ⟨mid, hmid, h⟩
      rw [show head = mid from hmid]
      exact h
  | cons x a ih =>
    rw [cons_append]
    constructor
    · intro ⟨hx, h⟩
      obtain ⟨mid, ha, hb⟩ := ih.mp h
      exact ⟨mid, ⟨hx, ha⟩, hb⟩
    · intro ⟨mid, ⟨hx, ha⟩, hb⟩
      exact ⟨hx, ih.mpr ⟨mid, ha, hb⟩⟩

/-- Where a chain with a record `x` in it goes through `x`. -/
lemma chain_middle {head after : Option R} {a b : List R} {x : R} :
    Chain next head (a ++ x :: b) after ↔
      Chain next head a (some x) ∧ Chain next (next x) b after := by
  rw [chain_append]
  constructor
  · intro ⟨mid, ha, hx, hb⟩
    exact ⟨hx ▸ ha, hb⟩
  · intro ⟨ha, hb⟩
    exact ⟨some x, ha, rfl, hb⟩

/-- The records behind a pointer are determined by it. -/
lemma Chain.unique {head : Option R} {l l' : List R} (h : Chain next head l none)
    (h' : Chain next head l' none) : l = l' := by
  induction l generalizing head l' with
  | nil =>
    cases l' with
    | nil => rfl
    | cons y l' =>
      have := h'.1
      rw [show head = none from h] at this
      cases this
  | cons x l ih =>
    cases l' with
    | nil =>
      have := h.1
      rw [show head = none from h'] at this
      cases this
    | cons y l' =>
      have hxy : x = y := by
        have := h.1.symm.trans h'.1
        rwa [Option.some.injEq] at this
      subst hxy
      rw [ih h.2 h'.2]

/-- Redirecting the last link of a chain. -/
lemma Chain.redirect {head after : Option R} {a : List R} {x : R}
    (h : Chain next head (a ++ [x]) after) {after' : Option R}
    (hx : next' x = after') (hother : ∀ y ∈ a, next' y = next y) :
    Chain next' head (a ++ [x]) after' := by
  rw [chain_middle] at h ⊢
  exact ⟨h.1.congr hother, hx⟩

/-- The records on both sides of one of them. -/
lemma nodup_middle {a b : List R} {x : R} (h : (a ++ x :: b).Nodup) :
    (a ++ b).Nodup ∧ x ∉ a ∧ x ∉ b ∧ ∀ y ∈ a, y ∉ b := by
  rw [nodup_append, nodup_cons] at h
  refine ⟨?_, ?_, h.2.1.1, ?_⟩
  · rw [nodup_append]
    exact ⟨h.1, h.2.1.2, fun y hy z hz => h.2.2 y hy z (mem_cons_of_mem _ hz)⟩
  · exact fun hx => h.2.2 x hx x mem_cons_self rfl
  · exact fun y hy hyb => h.2.2 y hy y (mem_cons_of_mem _ hyb) rfl

lemma lastOr_mem {a : List R} {x : R} (h : lastOr none a = some x) : x ∈ a := by
  unfold lastOr at h
  rw [Option.or_none] at h
  exact mem_of_getLast? h

/-- Leading the link before a record to the record behind it. -/
lemma Chain.unlink [DecidableEq R] {head head' : Option R} {a b : List R} {x : R}
    (h : Chain next head (a ++ x :: b) none) (hnodup : (a ++ x :: b).Nodup)
    (hhead : head' = if lastOr none a = none then next x else head)
    (hnext : ∀ y, y ≠ x → next' y = if lastOr none a = some y then next x else next y) :
    Chain next' head' (a ++ b) none := by
  obtain ⟨-, hxa, hxb, hab⟩ := nodup_middle hnodup
  have hmid := chain_middle.mp h
  have hb : Chain next' (next x) b none := by
    refine hmid.2.congr fun y hy => ?_
    rw [hnext y fun hyx => hxb (hyx ▸ hy), if_neg]
    exact fun hlast => hab y (lastOr_mem hlast) hy
  rw [chain_append]
  refine ⟨next x, ?_, hb⟩
  rcases eq_nil_or_concat a with rfl | ⟨a, z, rfl⟩
  · rw [hhead, if_pos (lastOr_nil none)]
    rfl
  · rw [concat_eq_append] at *
    rw [lastOr_concat] at hhead hnext
    rw [hhead, if_neg (by simp)]
    have ha : (a ++ [z]).Nodup := (nodup_append.mp hnodup).1
    refine hmid.1.redirect ?_ fun y hy => ?_
    · rw [hnext z fun hzx => hxa (hzx ▸ by simp), if_pos rfl]
    · rw [hnext y fun hyx => hxa (hyx ▸ mem_append_left _ hy), if_neg]
      intro heq
      rw [Option.some.injEq] at heq
      exact (nodup_middle ha).2.1 (heq ▸ hy)

/-- Linking a new record behind the records of `a`. -/
lemma Chain.insert [DecidableEq R] {head head' : Option R} {a b : List R} {x : R}
    (h : Chain next head (a ++ b) none) (hx : x ∉ a ++ b)
    (hhead : head' = if lastOr none a = none then some x else head) (hlast : next' x = b.head?)
    (hnext : ∀ y, y ≠ x → next' y = if lastOr none a = some y then some x else next y)
    (hnodup : (a ++ b).Nodup) :
    Chain next' head' (a ++ x :: b) none := by
  obtain ⟨mid, ha, hb⟩ := chain_append.mp h
  have hab : ∀ y ∈ a, y ∉ b := fun y hya hyb =>
    (nodup_append.mp hnodup).2.2 y hya y hyb rfl
  have hb' : Chain next' mid b none := by
    refine hb.congr fun y hy => ?_
    rw [hnext y fun hyx => hx (hyx ▸ mem_append_right _ hy), if_neg]
    exact fun hlasty => hab y (lastOr_mem hlasty) hy
  rw [chain_middle]
  refine ⟨?_, ?_⟩
  · rcases eq_nil_or_concat a with rfl | ⟨a, z, rfl⟩
    · rw [hhead, if_pos (lastOr_nil none)]
      rfl
    · rw [concat_eq_append] at *
      rw [lastOr_concat] at hhead hnext
      rw [hhead, if_neg (by simp)]
      refine ha.redirect ?_ fun y hy => ?_
      · rw [hnext z fun hzx => hx (hzx ▸ by simp), if_pos rfl]
      · rw [hnext y fun hyx => hx (hyx ▸ by simp [hy]), if_neg]
        intro heq
        rw [Option.some.injEq] at heq
        have hanodup := (nodup_append.mp hnodup).1
        exact (nodup_middle hanodup).2.1 (heq ▸ hy)
  · have hmid : mid = b.head? := by
      cases b with
      | nil => exact hb
      | cons y b => exact hb.1
    rw [hlast, ← hmid]
    exact hb'

/-- Linking a new record behind the last one. -/
lemma Chain.concat [DecidableEq R] {head head' : Option R} {l : List R} {x : R}
    (h : Chain next head l none) (hx : x ∉ l)
    (hhead : head' = if lastOr none l = none then some x else head) (hlast : next' x = none)
    (hnext : ∀ y, y ≠ x → next' y = if lastOr none l = some y then some x else next y)
    (hnodup : l.Nodup) :
    Chain next' head' (l ++ [x]) none := by
  rw [← append_nil l] at h hx hnodup
  exact h.insert hx hhead hlast hnext hnodup

/-! ## Back links -/

lemma BackChain.congr {before : Option R} {l : List R} (h : BackChain prev before l)
    (hprev : ∀ x ∈ l, prev' x = prev x) : BackChain prev' before l := by
  induction l generalizing before with
  | nil => exact h
  | cons x l ih =>
    refine ⟨?_, ih h.2 fun y hy => hprev y (mem_cons_of_mem _ hy)⟩
    rw [hprev x mem_cons_self]
    exact h.1

lemma backChain_append {before : Option R} {a b : List R} :
    BackChain prev before (a ++ b) ↔
      BackChain prev before a ∧ BackChain prev (lastOr before a) b := by
  induction a generalizing before with
  | nil => exact ⟨fun h => ⟨trivial, h⟩, fun h => h.2⟩
  | cons x a ih =>
    rw [cons_append, lastOr_cons]
    show prev x = before ∧ BackChain prev (some x) (a ++ b) ↔
      (prev x = before ∧ BackChain prev (some x) a) ∧ BackChain prev (lastOr (some x) a) b
    rw [ih, and_assoc]

/-- Leading the back link of the record behind a record to the one before it. -/
lemma BackChain.unlink [DecidableEq R] {a b : List R} {x : R} (h : BackChain prev none (a ++ x :: b))
    (hnodup : (a ++ x :: b).Nodup)
    (hprev : ∀ y, y ≠ x → prev' y = if b.head? = some y then lastOr none a else prev y) :
    BackChain prev' none (a ++ b) := by
  obtain ⟨hnd, hxa, hxb, hab⟩ := nodup_middle hnodup
  have hmid := backChain_append.mp h
  rw [backChain_append]
  refine ⟨hmid.1.congr fun y hy => ?_, ?_⟩
  · rw [hprev y fun hyx => hxa (hyx ▸ hy), if_neg]
    exact fun hhead => hab y hy (mem_of_head? hhead)
  · cases b with
    | nil => trivial
    | cons z b =>
      refine ⟨?_, hmid.2.2.2.congr fun y hy => ?_⟩
      · rw [hprev z fun hzx => hxb (hzx ▸ mem_cons_self), if_pos head?_cons]
      · rw [hprev y fun hyx => hxb (hyx ▸ mem_cons_of_mem _ hy), if_neg]
        intro heq
        rw [head?_cons, Option.some.injEq] at heq
        exact (nodup_middle hnd).2.2.1 (heq ▸ hy)

/-- Linking a new record behind the last one. -/
lemma BackChain.concat {l : List R} {x : R} (h : BackChain prev none l)
    (hlast : prev' x = lastOr none l) (hprev : ∀ y ∈ l, prev' y = prev y) :
    BackChain prev' none (l ++ [x]) := by
  rw [backChain_append]
  exact ⟨h.congr hprev, hlast, trivial⟩

/-- A chain leads to its first record. -/
lemma Chain.head_eq {head : Option R} {l : List R} (h : Chain next head l none) :
    head = l.head? := by
  cases l with
  | nil => exact h
  | cons x l => exact h.1

end Oseo.Library
