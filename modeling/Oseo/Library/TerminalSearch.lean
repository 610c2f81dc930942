import Mathlib.Data.Finset.Card

/-!
# The terminals a node leads to

A graph whose nodes are terminals, which carry a value, or follow other nodes. Two ways to
find the one value a node leads to, if there is one:

* `search` walks the graph depth first and never visits a node twice;
* an assignment of values to nodes that is `Sound` and `Stable` has them all at once.

`search_spec` and `Stable.assigned_iff` relate both to `Reaches`, and so to each other.
-/

namespace Oseo.Library

open List

/-- What a node is: a terminal, or a node that follows others. -/
inductive View (N C : Type*)
  | terminal (value : C)
  | follow (next : List N)

variable {N C : Type*} {view : N → View N C}

/-- A node leads to a terminal with this value. -/
inductive Reaches (view : N → View N C) : N → C → Prop
  | terminal {v : N} {c : C} (h : view v = .terminal c) : Reaches view v c
  | follow {v w : N} {c : C} {next : List N} (h : view v = .follow next) (hw : w ∈ next)
      (hc : Reaches view w c) : Reaches view v c

/-- A node leads to this value and to no other. -/
def Uniquely (view : N → View N C) (v : N) (c : C) : Prop :=
  Reaches view v c ∧ ∀ c', Reaches view v c' → c' = c

/-- A node leads to two different values. -/
def Conflict (view : N → View N C) (v : N) : Prop :=
  ∃ c c', c ≠ c' ∧ Reaches view v c ∧ Reaches view v c'

lemma Uniquely.not_conflict {v : N} {c : C} (h : Uniquely view v c) : ¬Conflict view v := by
  intro ⟨a, b, hne, ha, hb⟩
  exact hne ((h.2 a ha).trans (h.2 b hb).symm)

lemma Conflict.follow {v w : N} {next : List N} (h : view v = .follow next) (hw : w ∈ next)
    (hc : Conflict view w) : Conflict view v := by
  obtain ⟨a, b, hne, ha, hb⟩ := hc
  exact ⟨a, b, hne, .follow h hw ha, .follow h hw hb⟩

lemma uniquely_of_terminal {v : N} {c : C} (h : view v = .terminal c) : Uniquely view v c := by
  refine ⟨.terminal h, fun c' hc' => ?_⟩
  cases hc' with
  | terminal h' =>
    rw [h] at h'
    cases h'
    rfl
  | follow h' =>
    rw [h] at h'
    cases h'

/-- A node that follows one other node leads where that node does. -/
lemma uniquely_follow {v w : N} {c : C} (h : view v = .follow [w]) :
    Uniquely view v c ↔ Uniquely view w c := by
  have hreach : ∀ c', Reaches view v c' ↔ Reaches view w c' := by
    intro c'
    constructor
    · intro hv
      cases hv with
      | terminal h' =>
        rw [h] at h'
        cases h'
      | follow h' hu hc' =>
        rw [h] at h'
        cases h'
        rwa [← mem_singleton.mp hu]
    · exact fun hw => .follow h (mem_singleton_self w) hw
  unfold Uniquely
  simp only [hreach]

/-! ## The search -/

/-- What a search has found. -/
inductive Outcome (C : Type*)
  | null
  | ambiguous
  | found (value : C)
deriving DecidableEq

/-- What two searches have found together. -/
def Outcome.join [DecidableEq C] : Outcome C → Outcome C → Outcome C
  | .ambiguous, _ => .ambiguous
  | _, .ambiguous => .ambiguous
  | .null, out => out
  | out, .null => out
  | .found c, .found c' => if c = c' then .found c else .ambiguous

/-- Searches from the nodes of a list in turn, up to the first conflict. -/
def searchAll [DecidableEq C] (search : List N → N → Option (Outcome C × List N)) :
    List N → Outcome C → List N → Option (Outcome C × List N)
  | [], so_far, visited => some (so_far, visited)
  | w :: rest, so_far, visited =>
    match search visited w with
    | none => none
    | some (out, visited) =>
      match so_far.join out with
      | .ambiguous => some (.ambiguous, visited)
      | so_far => searchAll search rest so_far visited

/-- Searches from a node, with the nodes visited before. -/
def search [DecidableEq N] [DecidableEq C] (view : N → View N C) :
    ℕ → List N → N → Option (Outcome C × List N)
  | 0, _, _ => none
  | fuel + 1, visited, v =>
    if v ∈ visited then
      some (.null, visited)
    else
      match view v with
      | .terminal c => some (.found c, visited ++ [v])
      | .follow next => searchAll (search view fuel) next .null (visited ++ [v])

/-- A search that stopped at no conflict visited all that lies behind the nodes it added, and
every terminal among them carries its value. -/
structure Covers (view : N → View N C) (visited : List N) (out : Outcome C)
    (visited' : List N) : Prop where
  mono : ∀ w ∈ visited, w ∈ visited'
  closed : out ≠ .ambiguous → ∀ w ∈ visited', w ∉ visited → ∀ next, view w = .follow next →
    ∀ u ∈ next, u ∈ visited'
  terminal : out ≠ .ambiguous → ∀ w ∈ visited', w ∉ visited → ∀ c, view w = .terminal c →
    out = .found c

/-- What a search found is there. -/
structure Finds (view : N → View N C) (v : N) (out : Outcome C) : Prop where
  found : ∀ c, out = .found c → Reaches view v c
  ambiguous : out = .ambiguous → Conflict view v

lemma Covers.refl (visited : List N) (out : Outcome C) : Covers view visited out visited :=
  ⟨fun _ hw => hw, fun _ _ hw hn => absurd hw hn, fun _ _ hw hn => absurd hw hn⟩

lemma Finds.null (v : N) : Finds view v .null :=
  ⟨fun _ h => (nomatch h), fun h => (nomatch h)⟩

/-- From the start, a search that stopped at no conflict met every terminal. -/
lemma Covers.meets {visited : List N} {out : Outcome C} (h : Covers view [] out visited)
    (hout : out ≠ .ambiguous) {v : N} (hv : v ∈ visited) {c : C} (hc : Reaches view v c) :
    out = .found c := by
  induction hc with
  | terminal hview => exact h.terminal hout _ hv not_mem_nil _ hview
  | follow hview hw _ ih => exact ih (h.closed hout _ hv not_mem_nil _ hview _ hw)

section
variable [DecidableEq C]

lemma Outcome.join_found {a b : Outcome C} {c : C} (h : a.join b = .found c) :
    a = .found c ∨ b = .found c := by
  cases a <;> cases b <;> simp_all [Outcome.join]
  split at h <;> simp_all

lemma Outcome.join_left {a b : Outcome C} {c : C} (h : a.join b ≠ .ambiguous)
    (ha : a = .found c) : a.join b = .found c := by
  cases b <;> simp_all [Outcome.join]

lemma Outcome.join_right {a b : Outcome C} {c : C} (h : a.join b ≠ .ambiguous)
    (hb : b = .found c) : a.join b = .found c := by
  cases a <;> simp_all [Outcome.join]

lemma Outcome.join_ambiguous {a b : Outcome C} (h : a.join b = .ambiguous) :
    a = .ambiguous ∨ b = .ambiguous ∨ ∃ c c', c ≠ c' ∧ a = .found c ∧ b = .found c' := by
  cases a <;> cases b <;> simp_all [Outcome.join]

/-- The loop over the nodes that `v` follows. -/
lemma searchAll_searched {go : List N → N → Option (Outcome C × List N)} {v : N} {next : List N}
    (hgo : ∀ visited w out visited', go visited w = some (out, visited') →
      Covers view visited out visited' ∧ Finds view w out ∧ w ∈ visited')
    (hview : view v = .follow next) {rest : List N} (hrest : ∀ w ∈ rest, w ∈ next)
    {far out : Outcome C} (hnot : far ≠ .ambiguous) (hfar : Finds view v far)
    {visited visited' : List N} (hrun : searchAll go rest far visited = some (out, visited')) :
    Covers view visited out visited' ∧ Finds view v out ∧
      (out ≠ .ambiguous → (∀ w ∈ rest, w ∈ visited') ∧ ∀ c, far = .found c → out = .found c) := by
  induction rest generalizing far visited with
  | nil =>
    rw [searchAll, Option.some.injEq, Prod.mk.injEq] at hrun
    obtain ⟨rfl, rfl⟩ := hrun
    exact ⟨.refl _ _, hfar, fun _ => ⟨fun _ hw => absurd hw not_mem_nil, fun _ h => h⟩⟩
  | cons w rest ih =>
    rw [searchAll] at hrun
    cases hw : go visited w with
    | none => simp [hw] at hrun
    | some result =>
      obtain ⟨found, visited₁⟩ := result
      obtain ⟨hcov, hfind, hmem⟩ := hgo _ _ _ _ hw
      simp only [hw] at hrun
      have hwn := hrest w mem_cons_self
      by_cases hjoin : far.join found = .ambiguous
      · simp only [hjoin, Option.some.injEq, Prod.mk.injEq] at hrun
        obtain ⟨rfl, rfl⟩ := hrun
        refine ⟨⟨hcov.mono, fun h => absurd rfl h, fun h => absurd rfl h⟩,
          ⟨fun c h => (nomatch h), fun _ => ?_⟩, fun h => absurd rfl h⟩
        rcases Outcome.join_ambiguous hjoin with h | h | ⟨c, c', hne, h, h'⟩
        · exact absurd h hnot
        · exact (hfind.ambiguous h).follow hview hwn
        · exact ⟨c, c', hne, hfar.found c h, .follow hview hwn (hfind.found c' h')⟩
      · have hrun' : searchAll go rest (far.join found) visited₁ = some (out, visited') := by
          cases hj : far.join found <;> simp_all
        have hfar' : Finds view v (far.join found) :=
          ⟨fun c hc => (Outcome.join_found hc).elim (hfar.found c)
            fun h => .follow hview hwn (hfind.found c h), fun h => absurd h hjoin⟩
        obtain ⟨hcov', hfind', hdone⟩ :=
          ih (fun u hu => hrest u (mem_cons_of_mem _ hu)) hjoin hfar' hrun'
        have hfound : found ≠ .ambiguous := by
          intro h
          rw [h] at hjoin
          cases far <;> exact hjoin rfl
        refine ⟨⟨fun u hu => hcov'.mono u (hcov.mono u hu), ?_, ?_⟩, hfind', ?_⟩
        · intro hout u hu hn n hn' x hx
          by_cases hu₁ : u ∈ visited₁
          · exact hcov'.mono x (hcov.closed hfound u hu₁ hn n hn' x hx)
          · exact hcov'.closed hout u hu hu₁ n hn' x hx
        · intro hout u hu hn c hc
          by_cases hu₁ : u ∈ visited₁
          · have := hcov.terminal hfound u hu₁ hn c hc
            exact (hdone hout).2 c (Outcome.join_right hjoin this)
          · exact hcov'.terminal hout u hu hu₁ c hc
        · intro hout
          refine ⟨fun u hu => ?_, fun c hc => (hdone hout).2 c (Outcome.join_left hjoin hc)⟩
          rcases mem_cons.mp hu with rfl | hu
          · exact hcov'.mono u hmem
          · exact (hdone hout).1 u hu

variable [DecidableEq N]

/-- A search that ends has visited all it had to. -/
lemma search_searched {fuel : ℕ} {visited visited' : List N} {v : N} {out : Outcome C}
    (hrun : search view fuel visited v = some (out, visited')) :
    Covers view visited out visited' ∧ Finds view v out ∧ v ∈ visited' := by
  induction fuel generalizing visited visited' v out with
  | zero => simp [search] at hrun
  | succ fuel ih =>
    rw [search] at hrun
    split at hrun
    · next hv =>
      rw [Option.some.injEq, Prod.mk.injEq] at hrun
      obtain ⟨rfl, rfl⟩ := hrun
      exact ⟨.refl _ _, .null v, hv⟩
    · have hlast : ∀ w ∈ visited ++ [v], w ∉ visited → w = v := by
        intro w hw hn
        rcases mem_append.mp hw with h | h
        · exact absurd h hn
        · exact mem_singleton.mp h
      cases hview : view v with
      | terminal c =>
        simp only [hview, Option.some.injEq, Prod.mk.injEq] at hrun
        obtain ⟨rfl, rfl⟩ := hrun
        refine ⟨⟨fun w hw => mem_append_left _ hw, ?_, ?_⟩, ⟨?_, fun h => (nomatch h)⟩, ?_⟩
        · intro _ w hw hn next hnext
          rw [hlast w hw hn, hview] at hnext
          cases hnext
        · intro _ w hw hn c' hc'
          rw [hlast w hw hn, hview] at hc'
          cases hc'
          rfl
        · intro c' h
          cases h
          exact .terminal hview
        · exact mem_append_right _ (mem_singleton_self v)
      | follow next =>
        simp only [hview] at hrun
        obtain ⟨hcov, hfind, hdone⟩ := searchAll_searched (fun _ _ _ _ => ih) hview
          (fun _ hw => hw) (by simp) (.null v) hrun
        refine ⟨⟨fun w hw => hcov.mono w (mem_append_left _ hw), ?_, ?_⟩, hfind,
          hcov.mono v (by simp)⟩
        · intro hout w hw hn n hn' u hu
          by_cases hwv : w = v
          · rw [hwv, hview] at hn'
            cases hn'
            exact (hdone hout).1 u hu
          · exact hcov.closed hout w hw (by simp [hn, hwv]) n hn' u hu
        · intro hout w hw hn c hc
          by_cases hwv : w = v
          · rw [hwv, hview] at hc
            cases hc
          · exact hcov.terminal hout w hw (by simp [hn, hwv]) c hc

/-- What a search from the start finds. -/
theorem search_spec {fuel : ℕ} {visited : List N} {v : N} {out : Outcome C}
    (hrun : search view fuel [] v = some (out, visited)) :
    (∀ c, out = .found c ↔ Uniquely view v c) ∧ (out = .ambiguous ↔ Conflict view v) ∧
      (out = .null ↔ ∀ c, ¬Reaches view v c) := by
  obtain ⟨hcov, hfind, hv⟩ := search_searched hrun
  cases out with
  | null =>
    have hnone : ∀ c, ¬Reaches view v c := fun c hc => nomatch hcov.meets (by simp) hv hc
    refine ⟨fun c => ⟨fun h => (nomatch h), fun h => absurd h.1 (hnone c)⟩,
      ⟨fun h => (nomatch h), ?_⟩, fun _ => hnone, fun _ => rfl⟩
    exact fun ⟨a, _, _, ha, _⟩ => absurd ha (hnone a)
  | ambiguous =>
    have hconf := hfind.ambiguous rfl
    refine ⟨fun c => ⟨fun h => (nomatch h), fun h => absurd hconf h.not_conflict⟩,
      ⟨fun _ => hconf, fun _ => rfl⟩, fun h => (nomatch h), fun h => ?_⟩
    obtain ⟨a, _, _, ha, _⟩ := hconf
    exact absurd ha (h a)
  | found c =>
    have huniq : Uniquely view v c := by
      refine ⟨hfind.found c rfl, fun c' hc' => ?_⟩
      have := hcov.meets (by simp) hv hc'
      cases this
      rfl
    refine ⟨fun c' => ⟨fun h => ?_, fun h => ?_⟩, ⟨fun h => (nomatch h), fun h => ?_⟩,
      fun h => (nomatch h), fun h => absurd huniq.1 (h c)⟩
    · cases h
      exact huniq
    · rw [h.2 c huniq.1]
    · exact absurd h huniq.not_conflict

/-! ## The search ends -/

lemma searchAll_isSome {go : List N → N → Option (Outcome C × List N)} {s : Finset N} {k : ℕ}
    (hgo : ∀ visited, (s.filter (· ∉ visited)).card ≤ k → ∀ w ∈ s,
      ∃ out visited', go visited w = some (out, visited') ∧ ∀ u ∈ visited, u ∈ visited')
    {next : List N} (hnext : ∀ w ∈ next, w ∈ s) {far : Outcome C} {visited : List N}
    (hk : (s.filter (· ∉ visited)).card ≤ k) :
    ∃ out visited', searchAll go next far visited = some (out, visited') := by
  induction next generalizing far visited with
  | nil => exact ⟨_, _, rfl⟩
  | cons w rest ih =>
    obtain ⟨out, visited', hw, hmono⟩ := hgo visited hk w (hnext w mem_cons_self)
    rw [searchAll, hw]
    dsimp only
    split
    · exact ⟨_, _, rfl⟩
    · refine ih (fun u hu => hnext u (mem_cons_of_mem _ hu)) (le_trans ?_ hk)
      apply Finset.card_le_card
      intro u hu
      rw [Finset.mem_filter] at hu ⊢
      exact ⟨hu.1, fun hv => hu.2 (hmono u hv)⟩

/-- In a finite part of the graph that is closed under following, a search with more fuel
than there are nodes left ends. -/
lemma search_isSome {s : Finset N} (hs : ∀ w ∈ s, ∀ next, view w = .follow next → ∀ u ∈ next, u ∈ s)
    {fuel : ℕ} {visited : List N} {v : N} (hv : v ∈ s)
    (hfuel : (s.filter (· ∉ visited)).card < fuel) :
    ∃ out visited', search view fuel visited v = some (out, visited') := by
  induction fuel generalizing visited v with
  | zero => omega
  | succ fuel ih =>
    rw [search]
    split
    · exact ⟨_, _, rfl⟩
    · next hn =>
      split
      · exact ⟨_, _, rfl⟩
      · next next hview =>
        have hless : (s.filter (· ∉ visited ++ [v])).card < (s.filter (· ∉ visited)).card := by
          apply Finset.card_lt_card
          refine ⟨fun u hu => ?_, fun h => ?_⟩
          · rw [Finset.mem_filter] at hu ⊢
            exact ⟨hu.1, fun hv => hu.2 (mem_append_left _ hv)⟩
          · have := h (Finset.mem_filter.mpr ⟨hv, hn⟩)
            rw [Finset.mem_filter] at this
            exact this.2 (mem_append_right _ (mem_singleton_self v))
        refine searchAll_isSome (k := fuel - 1) (fun w hw u hu => ?_) (hs v hv next hview) ?_
        · by_cases h0 : 0 < fuel
          · obtain ⟨out, w', hrun⟩ := @ih w u hu (by omega)
            exact ⟨out, w', hrun, (search_searched hrun).1.mono⟩
          · omega
        · omega

end

/-! ## Assignments -/

/-- An assignment of values to nodes, with the nodes it marks instead, tells the truth. -/
structure Sound (view : N → View N C) (val : N → Option C) (marked : N → Prop) : Prop where
  reaches : ∀ v c, val v = some c → Reaches view v c
  conflict : ∀ v, marked v → Conflict view v
  disjoint : ∀ v, marked v → val v = none

/-- Nothing is left to assign. Only the nodes in `joins` take over marks. -/
structure Stable (view : N → View N C) (val : N → Option C) (marked joins : N → Prop) :
    Prop where
  terminal : ∀ v c, view v = .terminal c → val v = some c
  value : ∀ v next, view v = .follow next → ∀ w ∈ next, ∀ c, val w = some c →
    val v = some c ∨ marked v
  mark : ∀ v, joins v → ∀ next, view v = .follow next → ∀ w ∈ next, marked w → marked v

/-- Every node that a node outside `joins` follows has a value. -/
def Supplied (view : N → View N C) (val : N → Option C) (joins : N → Prop) : Prop :=
  ∀ v, ¬joins v → ∀ next, view v = .follow next → ∀ w ∈ next, val w ≠ none

section
variable {val : N → Option C} {marked joins : N → Prop} {v : N} {c : C}

section
variable (ht : Stable view val marked joins)
include ht

/-- A node with one value has it assigned. -/
lemma Stable.assigned (hs : Sound view val marked)
    (h : Uniquely view v c) : val v = some c := by
  obtain ⟨hr, huniq⟩ := h
  induction hr with
  | terminal hview => exact ht.terminal _ _ hview
  | follow hview hw hc ih =>
    have hval := ih fun c' hc' => huniq c' (.follow hview hw hc')
    rcases ht.value _ _ hview _ hw _ hval with h | h
    · exact h
    · have huniq' : Uniquely view _ _ := ⟨.follow hview hw hc, huniq⟩
      exact absurd (hs.conflict _ h) huniq'.not_conflict

/-- A node with neither a value nor a mark leads nowhere. -/
lemma Stable.not_reaches (hsup : Supplied view val joins)
    (hval : val v = none) (hmark : ¬marked v) : ¬Reaches view v c := by
  intro hr
  induction hr with
  | terminal hview =>
    rw [ht.terminal _ _ hview] at hval
    cases hval
  | @follow v w c next hview hw _ ih =>
    have hw' : val w = none := by
      cases hd : val w with
      | none => rfl
      | some d =>
        rcases ht.value _ _ hview _ hw _ hd with h | h
        · rw [hval] at h
          cases h
        · exact absurd h hmark
    by_cases hj : joins v
    · exact ih hw' fun h => hmark (ht.mark _ hj _ hview _ hw h)
    · exact hsup _ hj _ hview _ hw hw'

/-- An assigned value is the only one. -/
lemma Stable.uniquely (hs : Sound view val marked)
    (hsup : Supplied view val joins) (hval : val v = some c) : Uniquely view v c := by
  refine ⟨hs.reaches v c hval, fun c' hr => ?_⟩
  induction hr with
  | terminal hview =>
    rw [ht.terminal _ _ hview, Option.some.injEq] at hval
    exact hval
  | @follow v w c' next hview hw hc ih =>
    have hmark : ¬marked v := by
      intro h
      rw [hs.disjoint v h] at hval
      cases hval
    cases hd : val w with
    | some d =>
      have hd' := (ht.value _ _ hview _ hw _ hd).resolve_right hmark
      rw [hd', Option.some.injEq] at hval
      exact ih (hval ▸ hd)
    | none =>
      by_cases hj : joins v
      · exact absurd hc (ht.not_reaches hsup hd fun h => hmark (ht.mark _ hj _ hview _ hw h))
      · exact absurd hd (hsup _ hj _ hview _ hw)

/-- The marked nodes are those that lead to two values. -/
lemma Stable.marked_iff (hs : Sound view val marked)
    (hsup : Supplied view val joins) : marked v ↔ Conflict view v := by
  refine ⟨hs.conflict v, fun hconf => ?_⟩
  by_contra hmark
  cases hval : val v with
  | some c => exact (ht.uniquely hs hsup hval).not_conflict hconf
  | none =>
    obtain ⟨c, -, -, hr, -⟩ := hconf
    exact ht.not_reaches hsup hval hmark hr

end

end

end Oseo.Library
