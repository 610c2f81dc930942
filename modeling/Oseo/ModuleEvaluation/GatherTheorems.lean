import Oseo.ModuleEvaluation.RejectTheorems

/-!
# Gathered ancestors

GatherAvailableAncestors lists the modules whose counters reach zero, and the turns of the
listed modules, taken by ascending order, keep the invariant.
-/

namespace Oseo.ModuleEvaluation

open Option
open List

variable {n : ℕ} {V : Type} {g : ModuleGraph n} {script : ℕ → Result V}
  {events : List (ModuleEvent n V)} {s s' : ModuleState n V}

/-! ## Counting without some modules -/

/-- The modules of a list without top-level await. -/
abbrev ModuleGraph.sync (g : ModuleGraph n) (list : List (Fin n)) : List (Fin n) :=
  list.filter fun m => !g.hasTopLevelAwait m

lemma ModuleGraph.mem_sync {list : List (Fin n)} {m : Fin n} :
    m ∈ g.sync list ↔ m ∈ list ∧ g.hasTopLevelAwait m = false := by
  simp [ModuleGraph.sync]

lemma ModuleGraph.sync_cons_await {list : List (Fin n)} {m : Fin n}
    (hm : g.hasTopLevelAwait m = true) : g.sync (m :: list) = g.sync list := by
  simp [ModuleGraph.sync, hm]

lemma ModuleGraph.sync_cons_sync {list : List (Fin n)} {m : Fin n}
    (hm : g.hasTopLevelAwait m = false) : g.sync (m :: list) = m :: g.sync list := by
  simp [ModuleGraph.sync, hm]

lemma waits_except_congr {except except' : List (Fin n)} (h : ∀ y, y ∈ except ↔ y ∈ except')
    (m : Fin n) : s.waits except m = s.waits except' m := by
  simp only [ModuleState.waits, h]

/-- Leaving out one more unfinished module takes off its entries. -/
lemma waits_cons {except : List (Fin n)} {p : Fin n} (hun : s.Unfinished p) (hp : p ∉ except)
    (m : Fin n) : s.waits except m = s.waits (p :: except) m + (s.parents p).count m := by
  have hterm : ∀ x, (if s.Unfinished x ∧ x ∉ except then (s.parents x).count m else 0)
      = (if s.Unfinished x ∧ x ∉ p :: except then (s.parents x).count m else 0)
        + if x = p then (s.parents p).count m else 0 := by
    intro x
    by_cases hx : x = p
    · subst hx
      simp [hun, hp]
    · simp [hx]
  rw [ModuleState.waits, Finset.sum_congr rfl fun x _ => hterm x, Finset.sum_add_distrib]
  simp [ModuleState.waits]

/-- A finished module need not be left out. -/
lemma waits_cons_of_not {except : List (Fin n)} {p : Fin n} (hun : ¬s.Unfinished p) (m : Fin n) :
    s.waits (p :: except) m = s.waits except m := by
  refine Finset.sum_congr rfl fun x _ => ?_
  by_cases hx : x = p
  · subst hx
    simp [hun]
  · simp [hx]

/-- A module that finishes leaves the counts it was in. -/
lemma Finishes.waits {m : Fin n} (b : Finishes s s' m) (except : List (Fin n)) (y : Fin n) :
    s'.waits except y = s.waits (m :: except) y := by
  refine Finset.sum_congr rfl fun x _ => ?_
  simp only [b.unfinished, b.parents, mem_cons, not_or, and_assoc]

/-! ## The end of a module -/

lemma moduleFinish_field {α : Type} (F : ModuleRecord n V → α)
    (hF : ∀ r, F { r with asyncEvaluationOrder := asyncDone, status := .evaluated } = F r)
    (hC : ∀ r c, F { r with topLevelCapability := c } = F r) (s : ModuleState n V) (i y : Fin n) :
    F ((moduleFinish s i).records y) = F (s.records y) := by
  rw [moduleFinish, settleCapability_field F hC]
  exact update_field F s i
    (f := fun r => { r with asyncEvaluationOrder := asyncDone, status := .evaluated }) (hF _) y

lemma moduleFinish_ne {α : Type} (F : ModuleRecord n V → α)
    (hC : ∀ r c, F { r with topLevelCapability := c } = F r) (s : ModuleState n V) {i y : Fin n}
    (hy : y ≠ i) : F ((moduleFinish s i).records y) = F (s.records y) := by
  rw [moduleFinish, settleCapability_field F hC, s.update_records_of_ne _ hy]

lemma moduleFinish_self {α : Type} (F : ModuleRecord n V → α)
    (hC : ∀ r c, F { r with topLevelCapability := c } = F r) (s : ModuleState n V) (i : Fin n) :
    F ((moduleFinish s i).records i)
      = F { s.records i with asyncEvaluationOrder := asyncDone, status := .evaluated } := by
  rw [moduleFinish, settleCapability_field F hC, ModuleState.update_records_self]

lemma moduleFinish_finishes (s : ModuleState n V) (m : Fin n) :
    Finishes s (moduleFinish s m) m where
  status_self := moduleFinish_self (·.status) (fun _ _ => rfl) s m
  status_ne := fun _ hy => moduleFinish_ne (·.status) (fun _ _ => rfl) s hy
  errored := moduleFinish_field (·.errored) (fun _ => rfl) (fun _ _ => rfl) s m
  evaluationError := moduleFinish_field (·.evaluationError) (fun _ => rfl) (fun _ _ => rfl) s m
  cycleRoot := moduleFinish_field (·.cycleRoot) (fun _ => rfl) (fun _ _ => rfl) s m
  order_self := moduleFinish_self (·.asyncEvaluationOrder) (fun _ _ => rfl) s m
  order_ne := fun _ hy => moduleFinish_ne (·.asyncEvaluationOrder) (fun _ _ => rfl) s hy
  parents := moduleFinish_field (·.asyncParents) (fun _ => rfl) (fun _ _ => rfl) s m
  pending := moduleFinish_field (·.pendingAsyncDependencies) (fun _ => rfl) (fun _ _ => rfl) s m
  stack := rfl
  calls := rfl
  count := rfl
  underflow := rfl

lemma moduleFinish_quiet (s : ModuleState n V) (m : Fin n) : Quiet s (moduleFinish s m) := by
  rw [moduleFinish]
  refine .trans ?_ (.settleCapability _ m true)
  exact ⟨update_field (·.gathered) s m rfl,
    update_field (fun r => r.topLevelCapability.isPromise) s m rfl, rfl, rfl⟩

/-- A called module that finishes leaves those still to take their turn. -/
theorem Settling.finishes {except : List (Fin n)} {m : Fin n}
    (h : Settling g events s (m :: except)) (b : Finishes s s' m) (q : Quiet s s')
    (hm : s.status m = .evaluatingAsync) (hcalled : m ∈ s.called) :
    Settling g events s' except := by
  have hstatus : ∀ y, s'.status y ≠ .evaluated → s'.status y = s.status y := by
    intro y hy
    exact b.status_ne y (by rintro rfl; exact hy b.status_self)
  refine ⟨h.consistent.finishes b hm hcalled, ?_, q.evaluating.trans h.evaluating, ?_,
    fun y => (q.gathered y).trans (h.gathered y), ?_, ?_⟩
  · intro y hy
    have hy' : s'.status y ≠ .evaluated := by
      rcases hy with hy | hy
      · simp [hy.1]
      · simp [hy]
    rw [hstatus y hy', moduleCycleRoot_congr (b.cycleRoot y), b.errored] at hy
    rw [b.pending, b.waits]
    exact h.counted y hy
  · intro y hy
    exact h.no_stack y ((hstatus y (by simp [hy])).symm.trans hy)
  · intro y hy
    rw [q.reactions] at hy
    rw [called_congr b.calls]
    exact h.reactions y hy
  · intro y hy
    exact (q.isPromise y).trans (h.capability y ((hstatus y (by simp [hy])).symm.trans hy))

/-! ## The worklist -/

/-- A module that waits, in a cycle whose root has no error. -/
def ModuleState.Waiting (s : ModuleState n V) (m : Fin n) : Prop :=
  s.status m = .evaluatingAsync ∧ s.errored (s.moduleCycleRoot m) = false

/-- A module whose turn, if it comes, is still ahead. -/
def ModuleState.Unstarted (s : ModuleState n V) (p : Fin n) : Prop :=
  (s.errored p = true ∨ s.status p = .evaluatingAsync) ∧ p ∉ s.called

/-- The worklist loop over the table `s`, with `rest` still to visit of the parents of one
module. A waiting module's counter stands for its entries in unfinished modules not yet
listed, in the worklist, and in `rest`. -/
structure Gathers (g : ModuleGraph n) (s : ModuleState n V) (q : Gathering n V)
    (rest : List (Fin n)) : Prop where
  neutral : Neutral s q.state
  isPromise : ∀ y, (q.state.records y).topLevelCapability.isPromise
    = (s.records y).topLevelCapability.isPromise
  evaluating : q.state.evaluating = s.evaluating
  reactions : q.state.reactions = s.reactions
  mark : ∀ y, (q.state.records y).gathered = true ↔ y ∈ q.list
  nodup : q.list.Nodup
  listed : ∀ y ∈ q.list, s.Waiting y ∧ q.state.pending y = 0
  small : ∀ m, s.Waiting m → q.state.pending m < sizeLimit
  counted : ∀ m, s.Waiting m → q.state.pending m
    = s.waits (g.sync q.list) m + (q.work.map fun w => (s.parents w).count m).sum + rest.count m
  uncalled : ∀ y ∈ q.list, y ∉ s.called
  work_parents : ∀ w ∈ q.work, ∀ p ∈ s.parents w, s.Unstarted p
  rest_parents : ∀ p ∈ rest, s.Unstarted p

lemma moduleDecrementPending_field {α : Type} (F : ModuleRecord n V → α)
    (hF : ∀ r k, F { r with pendingAsyncDependencies := k } = F r) (t : ModuleState n V)
    (p y : Fin n) : F ((moduleDecrementPending t p).records y) = F (t.records y) :=
  update_field F t p (f := fun r => { r with
    pendingAsyncDependencies := (t.pending p + (sizeLimit - 1)) % sizeLimit }) (hF _ _) y

/-- A counter that is not zero does not wrap. -/
lemma moduleDecrementPending_neutral {t : ModuleState n V} {p : Fin n} (hpos : 0 < t.pending p) :
    Neutral t (moduleDecrementPending t p) where
  status := moduleDecrementPending_field (·.status) (fun _ _ => rfl) t p
  errored := moduleDecrementPending_field (·.errored) (fun _ _ => rfl) t p
  evaluationError := moduleDecrementPending_field (·.evaluationError) (fun _ _ => rfl) t p
  cycleRoot := moduleDecrementPending_field (·.cycleRoot) (fun _ _ => rfl) t p
  order := moduleDecrementPending_field (·.asyncEvaluationOrder) (fun _ _ => rfl) t p
  parents := moduleDecrementPending_field (·.asyncParents) (fun _ _ => rfl) t p
  stack := rfl
  calls := rfl
  count := rfl
  underflow := by
    have hne : (t.pending p == 0) = false := by
      rw [beq_eq_false_iff_ne]
      exact hpos.ne'
    show (t.underflow || t.pending p == 0) = t.underflow
    rw [hne, Bool.or_false]

lemma moduleDecrementPending_self {t : ModuleState n V} {p : Fin n} (hpos : 0 < t.pending p)
    (hlt : t.pending p < sizeLimit) :
    (moduleDecrementPending t p).pending p = t.pending p - 1 := by
  have hwrap : (t.pending p + (sizeLimit - 1)) % sizeLimit = t.pending p - 1 := by
    rw [show t.pending p + (sizeLimit - 1) = (t.pending p - 1) + sizeLimit by omega,
      Nat.add_mod_right, Nat.mod_eq_of_lt (by omega)]
  rw [← hwrap]
  simp [ModuleState.pending, moduleDecrementPending]

lemma moduleDecrementPending_ne {t : ModuleState n V} {p y : Fin n} (hy : y ≠ p) :
    (moduleDecrementPending t p).pending y = t.pending y :=
  congrArg ModuleRecord.pendingAsyncDependencies
    (t.update_records_of_ne (fun r => { r with
      pendingAsyncDependencies := (t.pending p + (sizeLimit - 1)) % sizeLimit }) hy)

/-- A parent whose counter is not zero once it is visited stays off the list. -/
lemma Gathers.decrement {q : Gathering n V} {p : Fin n} {rest : List (Fin n)}
    (h : Gathers g s q (p :: rest)) (hp : s.Waiting p) :
    Gathers g s { q with state := moduleDecrementPending q.state p } rest := by
  have hpc := h.counted p hp
  rw [count_cons_self] at hpc
  have hpos : 0 < q.state.pending p := by omega
  have hself := moduleDecrementPending_self hpos (h.small p hp)
  have hle : ∀ m, (moduleDecrementPending q.state p).pending m ≤ q.state.pending m := by
    intro m
    by_cases hm : m = p
    · rw [hm, hself]
      omega
    · rw [moduleDecrementPending_ne hm]
  constructor
  case neutral => exact h.neutral.trans (moduleDecrementPending_neutral hpos)
  case isPromise =>
    intro y
    exact (moduleDecrementPending_field (fun r => r.topLevelCapability.isPromise)
      (fun _ _ => rfl) q.state p y).trans (h.isPromise y)
  case evaluating => exact h.evaluating
  case reactions => exact h.reactions
  case mark =>
    intro y
    rw [moduleDecrementPending_field (·.gathered) (fun _ _ => rfl) q.state p y]
    exact h.mark y
  case nodup => exact h.nodup
  case listed =>
    intro y hy
    obtain ⟨hw, hzero⟩ := h.listed y hy
    exact ⟨hw, Nat.le_zero.mp ((hle y).trans hzero.le)⟩
  case small => exact fun m hm => lt_of_le_of_lt (hle m) (h.small m hm)
  case counted =>
    intro m hm
    dsimp only
    by_cases hmp : m = p
    · rw [hmp, hself]
      omega
    · rw [moduleDecrementPending_ne hmp, h.counted m hm, count_cons_of_ne (Ne.symm hmp)]
  case uncalled => exact h.uncalled
  case work_parents => exact h.work_parents
  case rest_parents => exact fun y hy => h.rest_parents y (mem_cons_of_mem _ hy)

section
variable (hc : Consistent g events s) (hno : ∀ m, s.status m ≠ .evaluating)
include hc hno

/-- A parent whose counter is zero joins the list, and the worklist unless it awaits. -/
lemma Gathers.join
    {q : Gathering n V} {p : Fin n} {rest : List (Fin n)} (h : Gathers g s q rest) (hp : s.Waiting p) (hpl : p ∉ q.list)
    (hzero : q.state.pending p = 0) (hcalled : p ∉ s.called) :
    Gathers g s
      { state := q.state.update p fun r => { r with gathered := true }
        list := p :: q.list
        work := if g.hasTopLevelAwait p then q.work else p :: q.work } rest := by
  have hfield : ∀ {α : Type} (F : ModuleRecord n V → α),
      (∀ r, F { r with gathered := true } = F r) → ∀ y,
      F ((q.state.update p fun r => { r with gathered := true }).records y)
        = F (q.state.records y) := fun F hF y =>
    update_field F q.state p (f := fun r => { r with gathered := true }) (hF _) y
  have hpun : s.Unfinished p := ⟨(hc.of_async p hp.1).1, by simp [hp.1]⟩
  constructor
  case neutral =>
    exact h.neutral.trans ⟨hfield (·.status) fun _ => rfl, hfield (·.errored) fun _ => rfl,
      hfield (·.evaluationError) fun _ => rfl, hfield (·.cycleRoot) fun _ => rfl,
      hfield (·.asyncEvaluationOrder) fun _ => rfl, hfield (·.asyncParents) fun _ => rfl,
      rfl, rfl, rfl, rfl⟩
  case isPromise =>
    intro y
    exact (hfield (fun r => r.topLevelCapability.isPromise) (fun _ => rfl) y).trans (h.isPromise y)
  case evaluating => exact h.evaluating
  case reactions => exact h.reactions
  case mark =>
    intro y
    rw [mem_cons]
    by_cases hy : y = p
    · subst hy
      simp
    · rw [ModuleState.update_records_of_ne _ _ hy]
      simp only [hy, false_or]
      exact h.mark y
  case nodup => exact nodup_cons.mpr ⟨hpl, h.nodup⟩
  case listed =>
    intro y hy
    rw [ModuleState.pending, hfield (·.pendingAsyncDependencies) (fun _ => rfl)]
    rcases mem_cons.mp hy with rfl | hy
    · exact ⟨hp, hzero⟩
    · exact h.listed y hy
  case small =>
    intro m hm
    rw [ModuleState.pending, hfield (·.pendingAsyncDependencies) (fun _ => rfl)]
    exact h.small m hm
  case counted =>
    intro m hm
    rw [ModuleState.pending, hfield (·.pendingAsyncDependencies) (fun _ => rfl)]
    have hcount := h.counted m hm
    rw [ModuleState.pending] at hcount
    rw [hcount]
    cases htla : g.hasTopLevelAwait p with
    | true =>
      rw [ModuleGraph.sync_cons_await htla]
      simp
    | false =>
      rw [ModuleGraph.sync_cons_sync htla,
        waits_cons hpun (fun hps => hpl (ModuleGraph.mem_sync.mp hps).1) m]
      simp only [Bool.false_eq_true, if_false, map_cons, sum_cons]
      omega
  case work_parents =>
    intro w hw y hy
    have hw' : w = p ∨ w ∈ q.work := by
      split at hw
      · exact .inr hw
      · exact mem_cons.mp hw
    rcases hw' with rfl | hw'
    · refine ⟨?_, fun hyc => hc.called_waits y hyc w hpun hy⟩
      rcases hc.parent_status w y hpun hy with he | ⟨hs | hs, -⟩
      · exact .inl he
      · exact .inr hs
      · exact absurd hs (hno y)
    · exact h.work_parents w hw' y hy
  case uncalled =>
    intro y hy
    rcases mem_cons.mp hy with rfl | hy
    · exact hcalled
    · exact h.uncalled y hy
  case rest_parents => exact h.rest_parents

/-- The visit of one parent. -/
lemma Gathers.parent
    {q : Gathering n V} {p : Fin n} {rest : List (Fin n)} (h : Gathers g s q (p :: rest)) :
    Gathers g s (moduleGatherParent g q p) rest := by
  have hroot : q.state.moduleCycleRoot p = s.moduleCycleRoot p :=
    moduleCycleRoot_congr (h.neutral.cycleRoot p)
  have herr := h.neutral.errored (q.state.moduleCycleRoot p)
  rw [hroot] at herr
  unfold moduleGatherParent
  dsimp only
  rw [hroot]
  by_cases hskip : (q.state.records p).gathered = true ∨
      (q.state.records (s.moduleCycleRoot p)).errored = true
  · rw [if_pos hskip]
    refine { h with
      counted := fun m hm => ?_
      rest_parents := fun y hy => h.rest_parents y (mem_cons_of_mem _ hy) }
    rcases hskip with hskip | hskip
    · -- A listed module has no entry left anywhere.
      obtain ⟨hw, hzero⟩ := h.listed p ((h.mark p).mp hskip)
      have := h.counted p hw
      rw [count_cons_self, hzero] at this
      omega
    · have hmp : p ≠ m := by
        rintro rfl
        rw [ModuleState.errored, hskip, hm.2] at herr
        cases herr
      rw [h.counted m hm, count_cons_of_ne hmp]
  · rw [if_neg hskip]
    rw [not_or] at hskip
    have hpw : s.Waiting p := by
      have herr' : s.errored (s.moduleCycleRoot p) = false := by
        rw [← herr]
        simpa using hskip.2
      refine ⟨(h.rest_parents p mem_cons_self).1.resolve_left fun he => ?_, herr'⟩
      have := hc.root_errored p he
      rw [herr'] at this
      cases this
    have hd := h.decrement hpw
    split
    · next hzero =>
      exact hd.join hc hno hpw (fun hp => hskip.1 ((h.mark p).mpr hp)) hzero
        (h.rest_parents p mem_cons_self).2
    · exact hd

/-- The visit of every parent of one module. -/
lemma Gathers.parents {rest : List (Fin n)} {q : Gathering n V} (h : Gathers g s q rest) :
    Gathers g s (rest.foldl (moduleGatherParent g) q) [] := by
  induction rest generalizing q with
  | nil => exact h
  | cons p rest ih => exact ih (h.parent hc hno)

/-- The worklist loop ends with an empty worklist. -/
lemma Gathers.loop {fuel : ℕ} {q q' : Gathering n V} (h : Gathers g s q [])
    (hrun : moduleGatherLoop g fuel q = some q') : Gathers g s q' [] ∧ q'.work = [] := by
  induction fuel generalizing q with
  | zero => cases hrun
  | succ fuel ih =>
    rw [moduleGatherLoop] at hrun
    cases hw : q.work with
    | nil =>
      simp only [hw, some.injEq] at hrun
      subst hrun
      exact ⟨h, hw⟩
    | cons module work =>
      simp only [hw] at hrun
      refine ih (.parents hc hno ?_) hrun
      have hpar : (q.state.records module).asyncParents = s.parents module :=
        h.neutral.parents module
      rw [hpar]
      refine { h with
        counted := fun m hm => ?_
        work_parents := fun w hw' => h.work_parents w (hw ▸ mem_cons_of_mem _ hw')
        rest_parents := h.work_parents module (hw ▸ mem_cons_self) }
      have hcount := h.counted m hm
      simp only [hw, map_cons, sum_cons, count_nil, Nat.add_zero] at hcount
      show q.state.pending m = s.waits (g.sync q.list) m
        + (work.map fun w => (s.parents w).count m).sum + (s.parents module).count m
      omega

end

/-- Clearing marks changes nothing else. -/
lemma moduleClearGathered_field {α : Type} (F : ModuleRecord n V → α)
    (hF : ∀ r, F { r with gathered := false } = F r) (list : List (Fin n)) (t : ModuleState n V)
    (y : Fin n) : F ((moduleClearGathered list t).records y) = F (t.records y) := by
  induction list generalizing t with
  | nil => rfl
  | cons item list ih =>
    rw [moduleClearGathered, ih]
    exact update_field F t item (f := fun r => { r with gathered := false }) (hF _) y

lemma moduleClearGathered_rest (list : List (Fin n)) (t : ModuleState n V) :
    (moduleClearGathered list t).stack = t.stack ∧
      (moduleClearGathered list t).calls = t.calls ∧
      (moduleClearGathered list t).asyncEvaluationCount = t.asyncEvaluationCount ∧
      (moduleClearGathered list t).underflow = t.underflow ∧
      (moduleClearGathered list t).evaluating = t.evaluating ∧
      (moduleClearGathered list t).reactions = t.reactions := by
  induction list generalizing t with
  | nil => exact ⟨rfl, rfl, rfl, rfl, rfl, rfl⟩
  | cons item list ih => exact ih _

lemma moduleClearGathered_gathered (list : List (Fin n)) (t : ModuleState n V) (y : Fin n) :
    ((moduleClearGathered list t).records y).gathered = true →
      y ∉ list ∧ (t.records y).gathered = true := by
  induction list generalizing t with
  | nil => exact fun h => ⟨not_mem_nil, h⟩
  | cons item list ih =>
    intro h
    obtain ⟨h₁, h₂⟩ := ih _ h
    by_cases hy : y = item
    · subst hy
      simp at h₂
    · rw [ModuleState.update_records_of_ne _ _ hy] at h₂
      exact ⟨by simp [hy, h₁], h₂⟩

/-- What GatherAvailableAncestors leaves for the turns of the modules it lists. -/
structure Gathered (g : ModuleGraph n) (events : List (ModuleEvent n V)) (s : ModuleState n V)
    (list : List (Fin n)) (s' : ModuleState n V) : Prop where
  settling : Settling g events s' (g.sync list)
  neutral : Neutral s s'
  nodup : list.Nodup
  waiting : ∀ y ∈ list, s.Waiting y
  uncalled : ∀ y ∈ list, y ∉ s'.called
  awaited : ∀ y ∈ list, ∀ x, s'.Unfinished x → y ∈ s'.parents x → x ∈ g.sync list

lemma moduleClearGathered_neutral (list : List (Fin n)) (t : ModuleState n V) :
    Neutral t (moduleClearGathered list t) := by
  obtain ⟨h₁, h₂, h₃, h₄, -, -⟩ := moduleClearGathered_rest list t
  exact ⟨moduleClearGathered_field (·.status) (fun _ => rfl) list t,
    moduleClearGathered_field (·.errored) (fun _ => rfl) list t,
    moduleClearGathered_field (·.evaluationError) (fun _ => rfl) list t,
    moduleClearGathered_field (·.cycleRoot) (fun _ => rfl) list t,
    moduleClearGathered_field (·.asyncEvaluationOrder) (fun _ => rfl) list t,
    moduleClearGathered_field (·.asyncParents) (fun _ => rfl) list t, h₁, h₂, h₃, h₄⟩

/-- The worklist begins with the module `x` that has just finished. -/
lemma Gathers.start {x : Fin n} {t : ModuleState n V} (h : Idle g events t)
    (b : Finishes t s x) (q : Quiet t s) (hx : t.status x = .evaluatingAsync)
    (hcalled : x ∈ t.called) : Gathers g s ⟨s, [], [x]⟩ [] := by
  have hxun : t.Unfinished x := ⟨(h.consistent.of_async x hx).1, by simp [hx]⟩
  have hwaiting : ∀ m, s.Waiting m → t.Waiting m := by
    intro m hm
    have hmx : m ≠ x := by
      rintro rfl
      have := b.status_self.symm.trans hm.1
      cases this
    refine ⟨(b.status_ne m hmx).symm.trans hm.1, ?_⟩
    rw [← b.errored, ← moduleCycleRoot_congr (b.cycleRoot m)]
    exact hm.2
  have hpending : ∀ m, s.Waiting m → s.pending m = t.waits [] m := fun m hm =>
    (b.pending m).trans (h.counted m (.inl (hwaiting m hm)))
  constructor
  case neutral =>
    exact ⟨fun _ => rfl, fun _ => rfl, fun _ => rfl, fun _ => rfl, fun _ => rfl, fun _ => rfl,
      rfl, rfl, rfl, rfl⟩
  case isPromise => exact fun _ => rfl
  case evaluating => rfl
  case reactions => rfl
  case mark =>
    intro y
    have := (q.gathered y).trans (h.gathered y)
    simp [this]
  case nodup => exact nodup_nil
  case listed => exact fun y hy => absurd hy not_mem_nil
  case small =>
    intro m hm
    have hle := waits_le_entries (s := t) [] m
    have := h.consistent.entries_le m
    have := g.requested_lt m
    have := hpending m hm
    dsimp only
    omega
  case counted =>
    intro m hm
    have hsync : g.sync ([] : List (Fin n)) = [] := rfl
    rw [hpending m hm, hsync, b.waits, waits_cons hxun not_mem_nil m]
    simp only [map_cons, map_nil, sum_cons, sum_nil, count_nil,
      Nat.add_zero, b.parents]
  case work_parents =>
    intro w hw p hp
    rw [mem_singleton] at hw
    subst hw
    rw [b.parents] at hp
    have hpc : p ∉ t.called := fun hpc => h.consistent.called_waits p hpc w hxun hp
    refine ⟨?_, by rwa [called_congr b.calls]⟩
    rcases h.consistent.parent_status w p hxun hp with he | ⟨hs | hs, -⟩
    · exact .inl ((b.errored p).trans he)
    · have hpw : p ≠ w := by
        rintro rfl
        exact hpc hcalled
      exact .inr ((b.status_ne p hpw).trans hs)
    · exact absurd hs (h.no_stack p)
  case uncalled => exact fun y hy => absurd hy not_mem_nil
  case rest_parents => exact fun p hp => absurd hp not_mem_nil

/-- GatherAvailableAncestors, once `x` has finished. -/
lemma Gathered.intro {x : Fin n} {fuel : ℕ} {list : List (Fin n)} {t : ModuleState n V}
    (h : Idle g events t) (b : Finishes t s x) (q : Quiet t s)
    (hx : t.status x = .evaluatingAsync) (hcalled : x ∈ t.called)
    (hrun : moduleGatherAvailableAncestors g fuel s x = some (list, s')) :
    Gathered g events s list s' := by
  have hc := h.consistent.finishes b hx hcalled
  have hstatus : ∀ y, s.status y ≠ .evaluated → s.status y = t.status y := fun y hy =>
    b.status_ne y (by rintro rfl; exact hy b.status_self)
  have hno : ∀ y, s.status y ≠ .evaluating := fun y hy =>
    h.no_stack y ((hstatus y (by simp [hy])).symm.trans hy)
  rw [moduleGatherAvailableAncestors, map_eq_some_iff] at hrun
  obtain ⟨q', hloop, hout⟩ := hrun
  rw [Prod.mk.injEq] at hout
  obtain ⟨rfl, rfl⟩ := hout
  obtain ⟨hg, hwork⟩ := (Gathers.start h b q hx hcalled).loop hc hno hloop
  have hn := hg.neutral.trans (moduleClearGathered_neutral q'.list.reverse q'.state)
  obtain ⟨-, -, -, -, hev, hreact⟩ := moduleClearGathered_rest q'.list.reverse q'.state
  have hpending : ∀ y, (moduleClearGathered q'.list.reverse q'.state).pending y
      = q'.state.pending y :=
    moduleClearGathered_field (·.pendingAsyncDependencies) (fun _ => rfl) _ _
  have hwaits : ∀ y, s.Waiting y → q'.state.pending y
      = (moduleClearGathered q'.list.reverse q'.state).waits (g.sync q'.list.reverse) y := by
    intro y hy
    have hcount := hg.counted y hy
    rw [hwork] at hcount
    rw [waits_congr (s := s) (fun z _ => by
      rw [ModuleState.Unfinished, ModuleState.Unfinished, hn.order, hn.status]) hn.parents]
    have hsame : ∀ z, z ∈ g.sync q'.list.reverse ↔ z ∈ g.sync q'.list := fun z => by
      rw [ModuleGraph.mem_sync, ModuleGraph.mem_sync, mem_reverse]
    rw [waits_except_congr hsame]
    simpa using hcount
  have hwaiting : ∀ y, (moduleClearGathered q'.list.reverse q'.state).Waiting y ↔ s.Waiting y := by
    intro y
    rw [ModuleState.Waiting, ModuleState.Waiting, hn.status, moduleCycleRoot_congr (hn.cycleRoot y),
      hn.errored]
  constructor
  case settling =>
    refine ⟨hc.neutral hn, ?_, ?_, ?_, ?_, ?_, ?_⟩
    · intro y hy
      rw [hpending]
      refine hwaits y ?_
      rcases hy with hy | hy
      · exact (hwaiting y).mp hy
      · exact absurd ((hn.status y).symm.trans hy) (hno y)
    · exact ((hev.trans hg.evaluating).trans q.evaluating).trans h.evaluating
    · exact fun y hy => hno y ((hn.status y).symm.trans hy)
    · intro y
      by_contra hy
      obtain ⟨h₁, h₂⟩ := moduleClearGathered_gathered _ _ y (by simpa using hy)
      exact h₁ (mem_reverse.mpr ((hg.mark y).mp h₂))
    · intro y hy
      rw [hreact, hg.reactions, q.reactions] at hy
      rw [called_congr hn.calls, called_congr b.calls]
      exact h.reactions y hy
    · intro y hy
      rw [hn.status] at hy
      have hp : ((moduleClearGathered q'.list.reverse q'.state).records y).topLevelCapability
          = (q'.state.records y).topLevelCapability :=
        moduleClearGathered_field (·.topLevelCapability) (fun _ => rfl) _ _ y
      rw [hp, hg.isPromise, q.isPromise]
      exact h.capability y ((hstatus y (by simp [hy])).symm.trans hy)
  case neutral => exact hn
  case nodup => exact nodup_reverse.mpr hg.nodup
  case waiting => exact fun y hy => (hg.listed y (mem_reverse.mp hy)).1
  case uncalled =>
    intro y hy
    rw [called_congr hn.calls]
    exact hg.uncalled y (mem_reverse.mp hy)
  case awaited =>
    intro y hy z hz hyz
    by_contra hnot
    obtain ⟨hyw, hzero⟩ := hg.listed y (mem_reverse.mp hy)
    have hpos := waits_pos hz hnot hyz
    rw [← hwaits y hyw, hzero] at hpos
    exact lt_irrefl _ hpos

/-! ## Turns -/

/-- The gathered modules that still have their turn, by ascending order. What one of them
waits for has its own turn before. -/
structure Turns (g : ModuleGraph n) (s : ModuleState n V) (rest : List (Fin n))
    (order : Fin n → ℕ) : Prop where
  nodup : rest.Nodup
  sorted : rest.Pairwise fun a b => order a ≤ order b
  of_order : ∀ y, s.status y ≠ .evaluated → s.order y = order y
  uncalled : ∀ y ∈ rest, y ∉ s.called
  status : ∀ y ∈ rest, s.status y = .evaluatingAsync ∨ s.status y = .evaluated
  awaited : ∀ y ∈ rest, ∀ x, s.Unfinished x → y ∈ s.parents x → x ∈ g.sync rest

/-- What one turn, or several, leave behind. -/
structure TurnPost (g : ModuleGraph n) (events : List (ModuleEvent n V)) (s : ModuleState n V)
    (turns : List (Fin n)) (result : Result V) (s' : ModuleState n V) : Prop where
  consistent : Consistent g events s'
  kept : ErrorsKept s.records s'.records
  linked : ∀ y, s'.status y = .linked → s.status y = .linked
  called : ∀ y ∈ s'.called, y ∈ s.called ∨ y ∈ turns
  calls : CallsKept s s'

/-- A turn keeps what the later turns need, as long as it calls at most its own module and
only ends modules. -/
lemma Turns.tail {m : Fin n} {rest : List (Fin n)} {order : Fin n → ℕ}
    (h : Turns g s (m :: rest) order) (hcalled : ∀ y ∈ s'.called, y ∈ s.called ∨ y = m)
    (hstatus : ∀ y, s'.status y = s.status y ∨ s'.status y = .evaluated)
    (horder : ∀ y, s'.status y ≠ .evaluated → s'.order y = s.order y)
    (hun : ∀ y, s'.Unfinished y → s.Unfinished y ∧ (y = m → g.hasTopLevelAwait m = true))
    (hparents : ∀ y, s'.parents y = s.parents y) : Turns g s' rest order := by
  obtain ⟨hm, hnodup⟩ := nodup_cons.mp h.nodup
  constructor
  case nodup => exact hnodup
  case sorted => exact (pairwise_cons.mp h.sorted).2
  case of_order =>
    intro y hy
    rw [horder y hy]
    refine h.of_order y fun hs => ?_
    rcases hstatus y with hs' | hs'
    · exact hy (hs'.trans hs)
    · exact hy hs'
  case uncalled =>
    intro y hy hc
    rcases hcalled y hc with hc | rfl
    · exact h.uncalled y (mem_cons_of_mem _ hy) hc
    · exact hm hy
  case status =>
    intro y hy
    rcases hstatus y with hs | hs
    · rw [hs]
      exact h.status y (mem_cons_of_mem _ hy)
    · exact .inr hs
  case awaited =>
    intro y hy x hx hyx
    obtain ⟨hx, hxm⟩ := hun x hx
    rw [hparents] at hyx
    have hmem := ModuleGraph.mem_sync.mp (h.awaited y (mem_cons_of_mem _ hy) x hx hyx)
    rcases mem_cons.mp hmem.1 with rfl | hmem'
    · rw [hxm rfl] at hmem
      cases hmem.2
    · exact ModuleGraph.mem_sync.mpr ⟨hmem', hmem.2⟩

/-- At its turn, a module waits for nothing. -/
lemma Turns.no_wait {m : Fin n} {rest : List (Fin n)} {order : Fin n → ℕ}
    (h : Turns g s (m :: rest) order) (hc : Consistent g events s)
    (hm : s.status m = .evaluatingAsync) : ∀ x, s.Unfinished x → m ∉ s.parents x := by
  intro x hx hmx
  have hlt : s.order x < s.order m := by
    rcases hc.parent_status x m hx hmx with he | ⟨-, ho⟩
    · simp [(hc.of_async m hm).2] at he
    · exact ho (hc.of_async m hm).1
  rw [h.of_order x hx.2, h.of_order m (by simp [hm])] at hlt
  have hmem := ModuleGraph.mem_sync.mp (h.awaited m mem_cons_self x hx hmx)
  rcases mem_cons.mp hmem.1 with rfl | hmem'
  · exact lt_irrefl _ hlt
  · exact absurd ((pairwise_cons.mp h.sorted).1 x hmem') (not_le.mpr hlt)

/-- A suspended module that waits for nothing is ready. -/
lemma Consistent.ready_async (h : Consistent g events s) {m : Fin n}
    (hm : s.status m = .evaluatingAsync) (hwaits : ∀ x, s.Unfinished x → m ∉ s.parents x) :
    ∀ r ∈ g.requested m, ¬g.SameCycle m r → ∀ e, g.Imports r e → s.Finished e := by
  intro r hr hcycle e hre
  have hmroot := h.root_off m (.inl hm)
  rcases h.edge m (.inl hm) (h.of_async m hm).2 r hr with he | he | ⟨-, he, hp⟩
  · refine absurd ?_ hcycle
    have hroff : s.Off r := by
      by_contra hroff
      rw [h.not_off_of_none hroff] at he
      exact hroff (he ▸ hmroot.1)
    have hrroot := (h.root_off r hroff).2.2
    rw [he] at hrroot
    exact hmroot.2.2.trans hrroot.symm
  · exact h.finished_of_imports he hre
  · exact absurd hp (hwaits _ ⟨(h.of_async _ he).1, by simp [he]⟩)

/-- A call at a module's turn. -/
lemma Settling.call {except : List (Fin n)} {m : Fin n} {rest : List (Fin n)}
    {order : Fin n → ℕ} {result : Result V} (h : Settling g events s except)
    (ht : Turns g s (m :: rest) order) (hm : s.status m = .evaluatingAsync)
    (b : Calls s s' m result) (hev : s'.evaluating = s.evaluating) (hreact : ReactionsCalled s') :
    Settling g events s' except := by
  have hwaits := ht.no_wait h.consistent hm
  have hc := h.consistent.calls b (by simp [hm]) (ht.uncalled m mem_cons_self) hwaits
    (h.consistent.ready_async hm hwaits)
  refine ⟨hc, h.counted.records b.records, hev.trans h.evaluating, ?_, ?_, hreact, ?_⟩
  · intro y
    rw [ModuleState.status, b.records]
    exact h.no_stack y
  · intro y
    rw [b.records]
    exact h.gathered y
  · intro y
    rw [ModuleState.status, b.records]
    exact h.capability y

lemma Settling.congr_except {except except' : List (Fin n)} (h : Settling g events s except)
    (he : ∀ y, s.waits except y = s.waits except' y) : Settling g events s except' :=
  { h with counted := fun y hy => (h.counted y hy).trans (he y) }

/-- A module that has ended need not take its turn. -/
lemma Settling.skip {m : Fin n} {rest : List (Fin n)} (h : Settling g events s (g.sync (m :: rest)))
    (hm : s.status m = .evaluated) : Settling g events s (g.sync rest) := by
  cases htla : g.hasTopLevelAwait m with
  | true => rwa [ModuleGraph.sync_cons_await htla] at h
  | false =>
    rw [ModuleGraph.sync_cons_sync htla] at h
    exact h.congr_except fun y => waits_cons_of_not (fun hun => hun.2 hm) y

lemma Calls.status {m : Fin n} {result : Result V} (b : Calls s s' m result) (y : Fin n) :
    s'.status y = s.status y := by
  rw [ModuleState.status, b.records]

lemma Calls.turnPost {m : Fin n} {result result' : Result V} (b : Calls s s' m result)
    (hc : Consistent g events s') : TurnPost g events s [m] result' s' := by
  refine ⟨hc, fun y hy => ?_, fun y hy => (b.status y).symm.trans hy, fun y hy => ?_,
    b.callsKept (.refl s) fun _ hy => ⟨hy, rfl⟩⟩
  · rw [b.records]
    exact ⟨hy, rfl⟩
  · rwa [b.called, mem_append] at hy

lemma Turns.calls {m : Fin n} {rest : List (Fin n)} {order : Fin n → ℕ} {result : Result V}
    (h : Turns g s (m :: rest) order) (b : Calls s s' m result)
    (hm : g.hasTopLevelAwait m = true) : Turns g s' rest order := by
  refine h.tail (fun y hy => ?_) (fun y => .inl (b.status y)) (fun y _ => ?_) (fun y hy => ?_)
    fun y => ?_
  · rwa [b.called, mem_append, mem_singleton] at hy
  · rw [ModuleState.order, b.records]
  · rw [ModuleState.Unfinished, ModuleState.order, ModuleState.status, b.records] at hy
    exact ⟨hy, fun _ => hm⟩
  · rw [ModuleState.parents, b.records]

/-- The turn of one gathered module. -/
theorem Settling.turn {m : Fin n} {rest : List (Fin n)} {order : Fin n → ℕ} {fuel : ℕ}
    {result : Result V} (h : Settling g events s (g.sync (m :: rest)))
    (ht : Turns g s (m :: rest) order)
    (hrun : moduleRunGathered g script fuel s m = some (result, s')) :
    TurnPost g events s [m] result s' ∧
      (result = .normal → Settling g events s' (g.sync rest) ∧ Turns g s' rest order) := by
  rw [moduleRunGathered] at hrun
  split at hrun
  · -- An earlier turn failed it.
    next hst =>
    rw [some.injEq, Prod.mk.injEq] at hrun
    obtain ⟨rfl, rfl⟩ := hrun
    refine ⟨⟨h.consistent, fun _ hy => ⟨hy, rfl⟩, fun _ hy => hy, fun _ hy => .inl hy, .refl s⟩,
      fun _ =>
      ⟨h.skip hst, ht.tail (fun _ hy => .inl hy) (fun _ => .inl rfl) (fun _ _ => rfl) ?_
        fun _ => rfl⟩⟩
    rintro y hy
    exact ⟨hy, by rintro rfl; exact absurd hst hy.2⟩
  next hst =>
  have hasync := (ht.status m mem_cons_self).resolve_right hst
  split at hrun
  · next htla =>
    rw [some.injEq] at hrun
    obtain ⟨⟨_, b⟩, -⟩ := @moduleExecuteAsync_calls _ _ script s m
    have hreact := @ReactionsCalled.executeAsync _ _ script s h.reactions m
    rw [hrun] at b hreact
    have hev : s'.evaluating = s.evaluating := by
      have : (moduleExecuteAsync script s m).2.evaluating = s.evaluating := by
        unfold moduleExecuteAsync moduleCallEvaluator
        cases script s.calls.length <;> rfl
      rwa [hrun] at this
    have hs := h.call ht hasync b hev hreact
    rw [ModuleGraph.sync_cons_await htla] at hs
    exact ⟨b.turnPost hs.consistent, fun _ => ⟨hs, ht.calls b htla⟩⟩
  · next htla =>
    have htla' : g.hasTopLevelAwait m = false := by simpa using htla
    have b := @moduleCallEvaluator_calls _ _ script s m
    have hreact := @ReactionsCalled.callEvaluator _ _ script s h.reactions m
    have hev : (moduleCallEvaluator script s m).2.evaluating = s.evaluating := rfl
    generalize moduleCallEvaluator script s m = out at hrun b hreact hev
    obtain ⟨result₁, s₁⟩ := out
    have hs := h.call ht hasync b hev hreact
    have hasync₁ : s₁.status m = .evaluatingAsync := (b.status m).trans hasync
    have hcalled₁ : ∀ y ∈ s₁.called, y ∈ s.called ∨ y = m := fun y hy => by
      rwa [b.called, mem_append, mem_singleton] at hy
    have hun₁ : ∀ y, s₁.Unfinished y ↔ s.Unfinished y := fun y => by
      rw [ModuleState.Unfinished, ModuleState.order, ModuleState.status, b.records]
      exact .rfl
    have hpost₁ : TurnPost g events s [m] result s₁ := b.turnPost hs.consistent
    cases result₁ with
    | normal =>
      rw [some.injEq, Prod.mk.injEq] at hrun
      obtain ⟨rfl, rfl⟩ := hrun
      have bf := moduleFinish_finishes s₁ m
      rw [ModuleGraph.sync_cons_sync htla'] at hs
      have hm : m ∈ s₁.called := by
        rw [b.called]
        exact mem_append_right _ (mem_singleton_self m)
      have hs' := hs.finishes bf (moduleFinish_quiet s₁ m) hasync₁ hm
      refine ⟨⟨hs'.consistent, ?_, ?_, ?_, hpost₁.calls.congr bf.calls⟩, fun _ => ⟨hs', ht.tail ?_ ?_ ?_ ?_ ?_⟩⟩
      · intro y hy
        exact ⟨(bf.errored y).trans (hpost₁.kept y hy).1,
          (bf.evaluationError y).trans (hpost₁.kept y hy).2⟩
      · intro y hy
        by_cases hym : y = m
        · rw [hym, bf.status_self] at hy
          cases hy
        · exact hpost₁.linked y ((bf.status_ne y hym).symm.trans hy)
      · intro y hy
        rw [called_congr bf.calls] at hy
        exact hpost₁.called y hy
      · intro y hy
        rw [called_congr bf.calls] at hy
        exact hcalled₁ y hy
      · intro y
        by_cases hym : y = m
        · rw [hym]
          exact .inr bf.status_self
        · rw [bf.status_ne y hym]
          exact .inl (b.status y)
      · intro y hy
        have hym : y ≠ m := by
          rintro rfl
          exact hy bf.status_self
        rw [bf.order_ne y hym, ModuleState.order, b.records]
      · intro y hy
        obtain ⟨hy, hym⟩ := (bf.unfinished y).mp hy
        exact ⟨(hun₁ y).mp hy, fun heq => absurd heq hym⟩
      · intro y
        rw [bf.parents, ModuleState.parents, b.records]
    | throw error =>
      obtain ⟨s₂, hrej, hout⟩ := map_eq_some_iff.mp hrun
      rw [Prod.mk.injEq] at hout
      obtain ⟨rfl, rfl⟩ := hout
      have hthrew : s₁.Threw events m error :=
        .inl ⟨⟨m, s.records, .throw error⟩, by rw [b.calls]; simp, rfl, rfl⟩
      obtain ⟨U, bf, d, q, hmU⟩ := hs.rejected (.inr hasync₁) hthrew hrej
      have hmU : U m := hmU.resolve_left (by simp [hasync₁])
      have hs' := (hs.fails bf d q).skip (bf.status_mem m hmU)
      have hkept := bf.kept hs.consistent d
      have hstatus : ∀ y, s₂.status y = s.status y ∨ s₂.status y = .evaluated := by
        intro y
        by_cases hU : U y
        · exact .inr (bf.status_mem y hU)
        · exact .inl ((bf.status_ne y hU).trans (b.status y))
      refine ⟨⟨hs'.consistent, ?_, ?_, ?_, hpost₁.calls.congr bf.calls⟩, fun _ => ⟨hs', ht.tail ?_ hstatus ?_ ?_ ?_⟩⟩
      · intro y hy
        have h₁ := hpost₁.kept y hy
        have h₂ := hkept y h₁.1
        exact ⟨h₂.1, h₂.2.trans h₁.2⟩
      · intro y hy
        rcases hstatus y with hs | hs
        · exact hs.symm.trans hy
        · rw [hs] at hy
          cases hy
      · intro y hy
        rw [called_congr bf.calls] at hy
        exact hpost₁.called y hy
      · intro y hy
        rw [called_congr bf.calls] at hy
        exact hcalled₁ y hy
      · intro y hy
        have hU : ¬U y := fun hU => hy (bf.status_mem y hU)
        rw [bf.order_ne y hU, ModuleState.order, b.records]
      · intro y hy
        have hU : ¬U y := fun hU => hy.2 (bf.status_mem y hU)
        refine ⟨(hun₁ y).mp ⟨(bf.order_set y).mp hy.1, ?_⟩, ?_⟩
        · rw [← bf.status_ne y hU]
          exact hy.2
        · rintro rfl
          exact absurd hmU hU
      · intro y
        rw [bf.parents, ModuleState.parents, b.records]
    | failure =>
      rw [some.injEq, Prod.mk.injEq] at hrun
      obtain ⟨rfl, rfl⟩ := hrun
      exact ⟨hpost₁, fun hr => by cases hr⟩

/-- The turns of all gathered modules. -/
theorem Settling.turns {rest : List (Fin n)} {order : Fin n → ℕ} {fuel : ℕ} {result : Result V}
    (h : Settling g events s (g.sync rest)) (ht : Turns g s rest order)
    (hrun : moduleRunAllGathered g script fuel rest s = some (result, s')) :
    TurnPost g events s rest result s' ∧ (result = .normal → Idle g events s') := by
  induction rest generalizing s with
  | nil =>
    rw [moduleRunAllGathered, some.injEq, Prod.mk.injEq] at hrun
    obtain ⟨rfl, rfl⟩ := hrun
    exact ⟨⟨h.consistent, fun _ hy => ⟨hy, rfl⟩, fun _ hy => hy, fun _ hy => .inl hy, .refl s⟩,
      fun _ => h⟩
  | cons m rest ih =>
    rw [moduleRunAllGathered] at hrun
    cases hturn : moduleRunGathered g script fuel s m with
    | none => simp [hturn] at hrun
    | some out =>
      obtain ⟨result₁, s₁⟩ := out
      obtain ⟨hpost, hnext⟩ := h.turn ht hturn
      have hlift : TurnPost g events s (m :: rest) result s₁ :=
        ⟨hpost.consistent, hpost.kept, hpost.linked, fun y hy =>
          (hpost.called y hy).imp id fun hy => by
            rw [mem_singleton] at hy
            rw [hy]
            exact mem_cons_self, hpost.calls⟩
      have hstop : result₁ ≠ .normal → result₁ = result ∧ s₁ = s' := by
        intro hne
        cases result₁ with
        | normal => exact absurd rfl hne
        | throw error => simpa [hturn] using hrun
        | failure => simpa [hturn] using hrun
      by_cases hne : result₁ = .normal
      · subst hne
        simp only [hturn] at hrun
        obtain ⟨hs₁, ht₁⟩ := hnext rfl
        obtain ⟨hrest, hidle⟩ := ih hs₁ ht₁ hrun
        refine ⟨⟨hrest.consistent, fun y hy => ?_, fun y hy => hpost.linked y (hrest.linked y hy),
          fun y hy => ?_, hpost.calls.trans hrest.calls hpost.kept⟩, hidle⟩
        · have h₁ := hpost.kept y hy
          have h₂ := hrest.kept y h₁.1
          exact ⟨h₂.1, h₂.2.trans h₁.2⟩
        · rcases hrest.called y hy with hy | hy
          · exact hlift.called y hy
          · exact .inr (mem_cons_of_mem _ hy)
      · obtain ⟨rfl, rfl⟩ := hstop hne
        exact ⟨hlift, fun hr => absurd hr hne⟩

end Oseo.ModuleEvaluation
