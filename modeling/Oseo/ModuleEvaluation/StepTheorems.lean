import Oseo.ModuleEvaluation.DriverTheorems
import Mathlib.Algebra.Order.BigOperators.Group.Finset

/-!
# The steps of the walk

What each step of the depth-first walk changes, and that the invariant survives it:
entering a module (`Begins`), waiting for an unfinished one (`Waits`), taking an
async-evaluation order (`Orders`), calling an evaluator (`Calls`), ending a cycle
(`EndsCycle`) and failing the stack (`Fails`).
-/

namespace Oseo.ModuleEvaluation

open List

variable {n : ℕ} {V : Type} {g : ModuleGraph n} {script : ℕ → Result V}
  {events : List (ModuleEvent n V)} {s s' : ModuleState n V}

/-! ## Counting parent entries -/

lemma waits_congr {except : List (Fin n)} {m : Fin n}
    (hun : ∀ x, m ∈ s.parents x → (s'.Unfinished x ↔ s.Unfinished x))
    (hp : ∀ x, s'.parents x = s.parents x) : s'.waits except m = s.waits except m := by
  refine Finset.sum_congr rfl fun x _ => ?_
  by_cases hm : m ∈ s.parents x
  · simp only [hun x hm, hp]
  · simp only [hp, count_eq_zero_of_not_mem hm, ite_self]

lemma entries_congr {m : Fin n} (hp : ∀ x, s'.parents x = s.parents x) :
    s'.entries m = s.entries m :=
  Finset.sum_congr rfl fun x _ => by rw [hp]

/-- Some unfinished module lists a module whose count is not zero. -/
lemma exists_of_waits_pos {except : List (Fin n)} {m : Fin n} (h : 0 < s.waits except m) :
    ∃ x, s.Unfinished x ∧ x ∉ except ∧ m ∈ s.parents x := by
  obtain ⟨x, -, hx⟩ := Finset.exists_ne_zero_of_sum_ne_zero h.ne'
  split at hx
  · next hun => exact ⟨x, hun.1, hun.2, count_pos_iff.mp (Nat.pos_of_ne_zero hx)⟩
  · exact absurd rfl hx

lemma waits_pos {except : List (Fin n)} {m x : Fin n} (hun : s.Unfinished x)
    (hx : x ∉ except) (hm : m ∈ s.parents x) : 0 < s.waits except m := by
  have hle := Finset.single_le_sum (f := fun x =>
    if s.Unfinished x ∧ x ∉ except then (s.parents x).count m else 0)
    (fun _ _ => Nat.zero_le _) (Finset.mem_univ x)
  simp only [hun, hx, not_false_eq_true, and_self, if_true] at hle
  exact lt_of_lt_of_le (count_pos_iff.mpr hm) hle

lemma waits_le_entries (except : List (Fin n)) (m : Fin n) : s.waits except m ≤ s.entries m :=
  Finset.sum_le_sum fun x _ => by split <;> omega

/-- An order given during evaluation is neither unset nor done. -/
lemma Consistent.order_lt_done (h : Consistent g events s) {m : Fin n}
    (hm : s.status m ≠ .evaluated) : s.order m < asyncDone := by
  have hcard := Finset.card_le_univ (Finset.univ.filter fun m => s.order m ≠ asyncUnset)
  rw [Fintype.card_fin] at hcard
  have := h.order_le m hm
  have := h.count_le
  have := g.count_lt
  omega

lemma Consistent.asyncPending_iff (h : Consistent g events s) {m : Fin n}
    (hm : s.status m ≠ .evaluated) : (s.records m).asyncPending = true ↔ s.order m ≠ asyncUnset := by
  have := h.order_lt_done hm
  simp only [ModuleRecord.asyncPending, Bool.and_eq_true, bne_iff_ne]
  constructor
  · exact fun h => h.1
  · exact fun h => ⟨h, this.ne⟩

/-- A module without a recorded root is its own. -/
lemma moduleCycleRoot_of_none {m : Fin n} (h : s.cycleRoot m = none) :
    s.moduleCycleRoot m = m :=
  congrArg (Option.getD · m) h

lemma moduleCycleRoot_congr {m : Fin n} (h : s'.cycleRoot m = s.cycleRoot m) :
    s'.moduleCycleRoot m = s.moduleCycleRoot m :=
  congrArg (Option.getD · m) h

/-- A request stays settled while roots stay, finished and waiting modules stay so, and
parent lists grow. -/
lemma ModuleState.Edge.mono {m r : Fin n} (he : s.Edge m r)
    (hroot : ∀ x, s.moduleCycleRoot r = s.moduleCycleRoot x ∨ x = r →
      s'.moduleCycleRoot x = s.moduleCycleRoot x)
    (hfin : ∀ x, s.Finished x → s'.Finished x)
    (hasync : ∀ x, s.status x = .evaluatingAsync → m ∈ s.parents x ∨ x = m →
      s'.status x = .evaluatingAsync)
    (hparents : ∀ x, m ∈ s.parents x → m ∈ s'.parents x) : s'.Edge m r := by
  have hr := hroot r (.inr rfl)
  rcases he with he | he | ⟨hm, hr', hmem⟩
  · exact .inl (by rw [hr, he, hroot m (Or.inl he)])
  · exact .inr (.inl (hr ▸ hfin _ he))
  · refine .inr (.inr ⟨hasync m hm (.inr rfl), ?_⟩)
    rw [hr]
    exact ⟨hasync _ hr' (.inl hmem), hparents _ hmem⟩

/-- A step that calls no evaluator keeps what the calls say. -/
lemma called_congr (h : s'.calls = s.calls) : s'.called = s.called := by
  rw [ModuleState.called, ModuleState.called, h]

/-- A step that calls no evaluator and keeps the errors keeps those of the calls. -/
lemma Consistent.errors_kept_congr (h : Consistent g events s) (hcalls : s'.calls = s.calls)
    (herrored : ∀ y, s'.errored y = s.errored y)
    (herror : ∀ y, s'.evaluationError y = s.evaluationError y) :
    ∀ c ∈ s'.calls, ErrorsKept c.records s'.records := by
  intro c hc y hy
  rw [hcalls] at hc
  have hkept := h.errors_kept c hc y hy
  exact ⟨(herrored y).trans hkept.1, (herror y).trans hkept.2⟩

/-! ## Neutral changes -/

/-- Nothing the invariant of the table speaks of changes. -/
structure Neutral (s s' : ModuleState n V) : Prop where
  status : ∀ y, s'.status y = s.status y
  errored : ∀ y, s'.errored y = s.errored y
  evaluationError : ∀ y, s'.evaluationError y = s.evaluationError y
  cycleRoot : ∀ y, s'.cycleRoot y = s.cycleRoot y
  order : ∀ y, s'.order y = s.order y
  parents : ∀ y, s'.parents y = s.parents y
  stack : s'.stack = s.stack
  calls : s'.calls = s.calls
  count : s'.asyncEvaluationCount = s.asyncEvaluationCount
  underflow : s'.underflow = s.underflow

lemma Neutral.trans {s'' : ModuleState n V} (h : Neutral s s') (h' : Neutral s' s'') :
    Neutral s s'' where
  status := fun y => (h'.status y).trans (h.status y)
  errored := fun y => (h'.errored y).trans (h.errored y)
  evaluationError := fun y => (h'.evaluationError y).trans (h.evaluationError y)
  cycleRoot := fun y => (h'.cycleRoot y).trans (h.cycleRoot y)
  order := fun y => (h'.order y).trans (h.order y)
  parents := fun y => (h'.parents y).trans (h.parents y)
  stack := h'.stack.trans h.stack
  calls := h'.calls.trans h.calls
  count := h'.count.trans h.count
  underflow := h'.underflow.trans h.underflow

lemma Consistent.neutral (h : Consistent g events s) (b : Neutral s s') : Consistent g events s' := by
  have hcalled := called_congr b.calls
  have hroot : ∀ y, s'.moduleCycleRoot y = s.moduleCycleRoot y := fun y =>
    moduleCycleRoot_congr (b.cycleRoot y)
  have hun : ∀ y, s'.Unfinished y ↔ s.Unfinished y := by
    intro y
    rw [ModuleState.Unfinished, ModuleState.Unfinished, b.status, b.order]
  have hoff : ∀ y, s'.Off y ↔ s.Off y := by
    intro y
    rw [ModuleState.Off, ModuleState.Off, b.status]
  have hfin : ∀ y, s'.Finished y ↔ s.Finished y := by
    intro y
    rw [show s'.Finished y ↔ s'.status y = .evaluated ∧ s'.errored y = false from Iff.rfl,
      b.status, b.errored]
    exact .rfl
  constructor
  case stack_nodup => rw [b.stack]; exact h.stack_nodup
  case mem_stack => simpa only [b.stack, b.status] using h.mem_stack
  case of_linked =>
    simpa only [b.status, b.order, b.cycleRoot, b.errored, hcalled] using h.of_linked
  case of_stack => simpa only [b.status, b.cycleRoot, b.errored] using h.of_stack
  case of_async => simpa only [b.status, b.order, b.errored] using h.of_async
  case of_finished => simpa only [hfin, b.order] using h.of_finished
  case root_off => simpa only [hoff, hroot] using h.root_off
  case root_errored => simpa only [b.errored, hroot] using h.root_errored
  case root_waits => simpa only [b.status, hroot, b.errored, b.parents] using h.root_waits
  case edge =>
    simpa only [hoff, b.errored, ModuleState.Edge, hroot, hfin, b.status, b.parents] using h.edge
  case parent_status =>
    simpa only [hun, b.parents, b.errored, b.status, b.order] using h.parent_status
  case parent_visited => simpa only [b.parents, b.status] using h.parent_visited
  case parent_imports => simpa only [b.parents] using h.parent_imports
  case parent_errored => simpa only [b.errored, b.parents, b.status] using h.parent_errored
  case parent_stack => simpa only [b.parents, b.status] using h.parent_stack
  case parent_order => simpa only [b.parents, b.order] using h.parent_order
  case called_nodup => rw [hcalled]; exact h.called_nodup
  case called_waits => simpa only [hcalled, hun, b.parents] using h.called_waits
  case calls_ready => rw [b.calls]; exact h.calls_ready
  case calls_kept => rw [b.calls]; exact h.calls_kept
  case errors_kept => exact h.errors_kept_congr b.calls b.errored b.evaluationError
  case order_le => simpa only [b.status, b.order, b.count] using h.order_le
  case order_inj => simpa only [hun, b.order] using h.order_inj
  case count_le => simpa only [b.order, b.count] using h.count_le
  case threw =>
    simpa only [b.errored, b.evaluationError, ModuleState.Threw, b.calls] using h.threw
  case entries_le => intro y; rw [entries_congr b.parents]; exact h.entries_le y
  case no_underflow => rw [b.underflow]; exact h.no_underflow

/-! ## Entering a module -/

/-- A linked module joins the stack. -/
structure Begins (s s' : ModuleState n V) (m : Fin n) (index : ℕ) : Prop where
  linked : s.status m = .linked
  status_self : s'.status m = .evaluating
  status_ne : ∀ x, x ≠ m → s'.status x = s.status x
  errored : ∀ x, s'.errored x = s.errored x
  evaluationError : ∀ x, s'.evaluationError x = s.evaluationError x
  cycleRoot : ∀ x, s'.cycleRoot x = s.cycleRoot x
  order : ∀ x, s'.order x = s.order x
  parents : ∀ x, s'.parents x = s.parents x
  pending_self : s'.pending m = 0
  pending_ne : ∀ x, x ≠ m → s'.pending x = s.pending x
  index_self : s'.dfsIndex m = index
  index_ne : ∀ x, x ≠ m → s'.dfsIndex x = s.dfsIndex x
  ancestor_self : s'.ancestor m = index
  ancestor_ne : ∀ x, x ≠ m → s'.ancestor x = s.ancestor x
  stack : s'.stack = m :: s.stack
  calls : s'.calls = s.calls
  count : s'.asyncEvaluationCount = s.asyncEvaluationCount
  underflow : s'.underflow = s.underflow

lemma specBegin_begins {m : Fin n} (index : ℕ) (hm : s.status m = .linked) :
    Begins s (specBegin s index m) m index := by
  have hself : (specBegin s index m).records m =
      { s.records m with
        status := .evaluating
        dfsIndex := index
        dfsAncestorIndex := index
        pendingAsyncDependencies := 0 } := by
    simp [specBegin]
  have hne : ∀ x, x ≠ m → (specBegin s index m).records x = s.records x := by
    intro x hx
    simp only [specBegin]
    exact s.update_records_of_ne _ hx
  constructor
  case linked => exact hm
  case stack => rfl
  case calls => rfl
  case count => rfl
  case underflow => rfl
  all_goals grind

lemma Consistent.begins {m : Fin n} {index : ℕ} (h : Consistent g events s)
    (b : Begins s s' m index) : Consistent g events s' := by
  obtain ⟨hm, hself, hne, herrored, herror, hroot, horder, hparents, -, -, -, -, -, -, hstack,
    hcalls, hcount, hunder⟩ := b
  have hcalled := called_congr hcalls
  have hlinked := h.of_linked
  have horder' := h.parent_order
  have hmem := h.mem_stack
  have hroot' : ∀ x, s'.moduleCycleRoot x = s.moduleCycleRoot x := fun x =>
    moduleCycleRoot_congr (hroot x)
  have hoff : ∀ x, s'.Off x ↔ s.Off x := by
    intro x
    by_cases hx : x = m
    · subst hx
      simp [ModuleState.Off, hself, hm]
    · rw [ModuleState.Off, ModuleState.Off, hne x hx]
  constructor
  case stack_nodup => have := h.stack_nodup; grind
  case mem_stack => grind
  case of_linked => grind
  case of_stack => have := h.of_stack; grind
  case of_async => have := h.of_async; grind
  case of_finished => have := h.of_finished; grind [ModuleRecord.Finished]
  case root_off =>
    intro x hx
    have := h.root_off x ((hoff x).mp hx)
    simpa only [hroot', hoff] using this
  case root_errored =>
    intro x hx
    have := h.root_errored x
    rw [hroot', herrored]
    grind
  case root_waits =>
    intro x hx
    have := h.root_waits x
    simp only [hroot', hparents]
    grind
  case edge =>
    intro x hx hxe r hr
    rw [herrored] at hxe
    have hfin : ∀ y, s.Finished y → s'.Finished y := by grind [ModuleRecord.Finished]
    have hasync : ∀ y, s.status y = .evaluatingAsync → s'.status y = .evaluatingAsync := by
      grind
    exact (h.edge x ((hoff x).mp hx) hxe r hr).mono (fun y _ => hroot' y) hfin
      (fun y hy _ => hasync y hy) (fun y hy => by rw [hparents]; exact hy)
  case parent_status =>
    have := h.parent_status
    simp only [ModuleState.Unfinished] at *
    grind
  case parent_visited => have := h.parent_visited; grind
  case parent_imports => have := h.parent_imports; grind
  case parent_errored => have := h.parent_errored; grind
  case parent_stack => have := h.parent_stack; grind
  case parent_order => grind
  case called_nodup => have := h.called_nodup; grind
  case called_waits =>
    have := h.called_waits
    simp only [ModuleState.Unfinished] at *
    grind
  case calls_ready => rw [hcalls]; exact h.calls_ready
  case calls_kept => rw [hcalls]; exact h.calls_kept
  case errors_kept => have := h.errors_kept; grind [ErrorsKept]
  case order_le => have := h.order_le; grind
  case order_inj =>
    have := h.order_inj
    simp only [ModuleState.Unfinished] at *
    grind
  case count_le => simpa only [horder, hcount] using h.count_le
  case threw => have := h.threw; grind [ModuleState.Threw]
  case entries_le => intro x; rw [entries_congr hparents]; exact h.entries_le x
  case no_underflow => rw [hunder]; exact h.no_underflow

/-! ## Waiting for an unfinished module -/

/-- Module `m` joins the parents of the unfinished module `x`; its ancestor index may
drop. -/
structure Waits (s s' : ModuleState n V) (m x : Fin n) : Prop where
  status : ∀ y, s'.status y = s.status y
  errored : ∀ y, s'.errored y = s.errored y
  evaluationError : ∀ y, s'.evaluationError y = s.evaluationError y
  cycleRoot : ∀ y, s'.cycleRoot y = s.cycleRoot y
  order : ∀ y, s'.order y = s.order y
  parents_self : s'.parents x = s.parents x ++ [m]
  parents_ne : ∀ y, y ≠ x → s'.parents y = s.parents y
  pending_self : s'.pending m = (s.pending m + 1) % sizeLimit
  pending_ne : ∀ y, y ≠ m → s'.pending y = s.pending y
  index : ∀ y, s'.dfsIndex y = s.dfsIndex y
  ancestor : ∀ y, s'.ancestor y = s.ancestor y
  stack : s'.stack = s.stack
  calls : s'.calls = s.calls
  count : s'.asyncEvaluationCount = s.asyncEvaluationCount
  underflow : s'.underflow = s.underflow

/-- A field that a record update leaves alone. -/
lemma update_field {α : Type} (F : ModuleRecord n V → α) (s : ModuleState n V) (i : Fin n)
    {f : ModuleRecord n V → ModuleRecord n V} (h : F (f (s.records i)) = F (s.records i))
    (y : Fin n) : F ((s.update i f).records y) = F (s.records y) := by
  by_cases hy : y = i
  · rw [hy, s.update_records_self, h]
  · rw [s.update_records_of_ne f hy]

lemma specWait_waits {m x : Fin n} (hx : (s.records x).asyncPending) :
    Waits s (specWait s m x) m x := by
  have hf : ∀ {α : Type} (F : ModuleRecord n V → α),
      (∀ r p, F { r with pendingAsyncDependencies := p } = F r) →
      (∀ r l, F { r with asyncParents := l } = F r) →
      ∀ y, F ((specWait s m x).records y) = F (s.records y) := by
    intro α F h₁ h₂ y
    simp only [specWait, hx, if_true]
    rw [update_field F _ x (h₂ _ _), update_field F _ m (h₁ _ _)]
  constructor
  case status => exact hf (·.status) (fun _ _ => rfl) (fun _ _ => rfl)
  case errored => exact hf (·.errored) (fun _ _ => rfl) (fun _ _ => rfl)
  case evaluationError => exact hf (·.evaluationError) (fun _ _ => rfl) (fun _ _ => rfl)
  case cycleRoot => exact hf (·.cycleRoot) (fun _ _ => rfl) (fun _ _ => rfl)
  case order => exact hf (·.asyncEvaluationOrder) (fun _ _ => rfl) (fun _ _ => rfl)
  case index => exact hf (·.dfsIndex) (fun _ _ => rfl) (fun _ _ => rfl)
  case ancestor => exact hf (·.dfsAncestorIndex) (fun _ _ => rfl) (fun _ _ => rfl)
  case parents_self =>
    simp only [ModuleState.parents, specWait, hx, if_true, ModuleState.update_records_self]
    rw [update_field (·.asyncParents) s m rfl]
  case parents_ne =>
    intro y hy
    simp only [ModuleState.parents, specWait, hx, if_true]
    rw [ModuleState.update_records_of_ne _ _ hy, update_field (·.asyncParents) s m rfl]
  case pending_self =>
    simp only [ModuleState.pending, specWait, hx, if_true]
    rw [update_field (·.pendingAsyncDependencies) _ x rfl, ModuleState.update_records_self]
  case pending_ne =>
    intro y hy
    simp only [ModuleState.pending, specWait, hx, if_true]
    rw [update_field (·.pendingAsyncDependencies) _ x rfl, s.update_records_of_ne _ hy]
  all_goals simp only [specWait, hx, if_true]; rfl

/-- The new parent adds one entry to any sum over the parent lists that reads the list of `x`. -/
lemma Waits.sum_count {m x : Fin n} (b : Waits s s' m x) (P : Fin n → Prop) [DecidablePred P]
    (hx : P x) (y : Fin n) :
    (∑ z, if P z then (s'.parents z).count y else 0)
      = (∑ z, if P z then (s.parents z).count y else 0) + if y = m then 1 else 0 := by
  have hcount : ∀ z, (if P z then (s'.parents z).count y else 0)
      = (if P z then (s.parents z).count y else 0) + if z = x ∧ y = m then 1 else 0 := by
    intro z
    by_cases hz : z = x
    · subst hz
      simp only [hx, if_true, b.parents_self, count_append, count_singleton, beq_iff_eq,
        true_and, @eq_comm _ m]
    · simp [hz, b.parents_ne z hz]
  simp only [hcount, Finset.sum_add_distrib]
  by_cases hy : y = m <;> simp [hy]

lemma entries_waits {m x : Fin n} (b : Waits s s' m x) (y : Fin n) :
    s'.entries y = s.entries y + if y = m then 1 else 0 := by
  simpa only [if_true, ModuleState.entries] using b.sum_count (fun _ => True) trivial y

lemma waits_waits {m x : Fin n} (b : Waits s s' m x) (hx : s.Unfinished x) (y : Fin n) :
    s'.waits [] y = s.waits [] y + if y = m then 1 else 0 := by
  have hun : ∀ z, s'.Unfinished z ↔ s.Unfinished z := by
    intro z
    rw [ModuleState.Unfinished, ModuleState.Unfinished, b.status, b.order]
  simp only [ModuleState.waits, hun]
  exact b.sum_count (fun z => s.Unfinished z ∧ z ∉ []) ⟨hx, not_mem_nil⟩ y

/-- A fresh activation may wait: its module has not taken an order and has a request left. -/
theorem Consistent.waits {m x : Fin n} (h : Consistent g events s) (b : Waits s s' m x)
    (hm : s.status m = .evaluating) (hfresh : s.order m = asyncUnset) (hcalled : m ∉ s.called)
    (hx : s.Unfinished x) (hxe : s.errored x = false) (himp : g.Imports m x)
    (hentries : s.entries m < (g.requested m).length) : Consistent g events s' := by
  have hentries' := entries_waits b
  obtain ⟨hstatus, herrored, herror, hroot, horder, hself, hne, -, -, -, -, hstack, hcalls,
    hcount, hunder⟩ := b
  have hcalled' := called_congr hcalls
  have hroot' : ∀ y, s'.moduleCycleRoot y = s.moduleCycleRoot y := fun y =>
    moduleCycleRoot_congr (hroot y)
  have hun : ∀ y, s'.Unfinished y ↔ s.Unfinished y := by
    intro y
    rw [ModuleState.Unfinished, ModuleState.Unfinished, hstatus, horder]
  have hoff : ∀ y, s'.Off y ↔ s.Off y := by
    intro y
    rw [ModuleState.Off, ModuleState.Off, hstatus]
  -- An entry of the new lists is an old one, or the new parent.
  have hmem : ∀ y p, p ∈ s'.parents y ↔ p ∈ s.parents y ∨ (y = x ∧ p = m) := by
    intro y p
    by_cases hy : y = x
    · subst hy
      simp [hself]
    · simp [hne y hy, hy]
  clear hself hne
  constructor
  case stack_nodup => rw [hstack]; exact h.stack_nodup
  case mem_stack => simpa only [hstack, hstatus] using h.mem_stack
  case of_linked => simpa only [hstatus, horder, hroot, herrored, hcalled'] using h.of_linked
  case of_stack => simpa only [hstatus, hroot, herrored] using h.of_stack
  case of_async => simpa only [hstatus, horder, herrored] using h.of_async
  case of_finished =>
    intro y hy
    rw [horder]
    exact h.of_finished y ⟨(hstatus y).symm.trans hy.1, (herrored y).symm.trans hy.2⟩
  case root_off => simpa only [hoff, hroot'] using h.root_off
  case root_errored => simpa only [herrored, hroot'] using h.root_errored
  case root_waits =>
    intro y hy hne her
    rw [hstatus] at hy
    rw [hroot'] at hne her
    rw [herrored] at her
    obtain ⟨p, hp, hpr, hps⟩ := h.root_waits y hy hne her
    exact ⟨p, (hmem y p).mpr (.inl hp), by rw [hroot', hroot', hpr], by rw [hstatus, hps]⟩
  case edge =>
    intro y hy hye r hr
    rw [herrored] at hye
    refine (h.edge y ((hoff y).mp hy) hye r hr).mono (fun z _ => hroot' z) ?_ ?_ ?_
    · exact fun z hz => ⟨(hstatus z).trans hz.1, (herrored z).trans hz.2⟩
    · exact fun z hz _ => by rw [hstatus, hz]
    · exact fun z hz => (hmem z y).mpr (.inl hz)
  case parent_status =>
    intro y p hy hp
    rw [hun] at hy
    rw [herrored, hstatus, horder, horder]
    rcases (hmem y p).mp hp with hp | ⟨rfl, rfl⟩
    · exact h.parent_status y p hy hp
    · exact .inr ⟨.inr hm, fun hne => absurd hfresh hne⟩
  case parent_visited =>
    intro y p hp
    rw [hstatus]
    rcases (hmem y p).mp hp with hp | ⟨rfl, rfl⟩
    · exact h.parent_visited y p hp
    · simp [hm]
  case parent_imports =>
    intro y p hp
    rcases (hmem y p).mp hp with hp | ⟨rfl, rfl⟩
    · exact h.parent_imports y p hp
    · exact himp
  case parent_errored =>
    intro y p hy hp
    rw [herrored] at hy
    rw [hstatus]
    rcases (hmem y p).mp hp with hp | ⟨rfl, rfl⟩
    · exact h.parent_errored y p hy hp
    · simp [hxe] at hy
  case parent_stack =>
    intro y p hy hp
    rw [hstatus] at hy ⊢
    rcases (hmem y p).mp hp with hp | ⟨rfl, rfl⟩
    · exact h.parent_stack y p hy hp
    · exact hm
  case parent_order =>
    intro y p hp
    rw [horder]
    rcases (hmem y p).mp hp with hp | ⟨rfl, rfl⟩
    · exact h.parent_order y p hp
    · exact hx.1
  case called_nodup => rw [hcalled']; exact h.called_nodup
  case called_waits =>
    intro p hp y hy hpy
    rw [hcalled'] at hp
    rw [hun] at hy
    rcases (hmem y p).mp hpy with hpy | ⟨rfl, rfl⟩
    · exact h.called_waits p hp y hy hpy
    · exact hcalled hp
  case calls_ready => rw [hcalls]; exact h.calls_ready
  case calls_kept => rw [hcalls]; exact h.calls_kept
  case errors_kept => exact h.errors_kept_congr hcalls herrored herror
  case order_le => simpa only [hstatus, horder, hcount] using h.order_le
  case order_inj => simpa only [hun, horder] using h.order_inj
  case count_le => simpa only [horder, hcount] using h.count_le
  case threw => simpa only [herrored, herror, ModuleState.Threw, hcalls] using h.threw
  case entries_le =>
    intro y
    rw [hentries' y]
    split
    · next hy => rw [hy]; omega
    · exact h.entries_le y
  case no_underflow => rw [hunder]; exact h.no_underflow

/-! ## Taking an async-evaluation order -/

/-- Module `m` takes the next async-evaluation order. -/
structure Orders (s s' : ModuleState n V) (m : Fin n) : Prop where
  status : ∀ y, s'.status y = s.status y
  errored : ∀ y, s'.errored y = s.errored y
  evaluationError : ∀ y, s'.evaluationError y = s.evaluationError y
  cycleRoot : ∀ y, s'.cycleRoot y = s.cycleRoot y
  order_self : s'.order m = (s.asyncEvaluationCount + 1) % sizeLimit
  order_ne : ∀ y, y ≠ m → s'.order y = s.order y
  parents : ∀ y, s'.parents y = s.parents y
  pending : ∀ y, s'.pending y = s.pending y
  index : ∀ y, s'.dfsIndex y = s.dfsIndex y
  ancestor : ∀ y, s'.ancestor y = s.ancestor y
  stack : s'.stack = s.stack
  calls : s'.calls = s.calls
  count : s'.asyncEvaluationCount = (s.asyncEvaluationCount + 1) % sizeLimit
  underflow : s'.underflow = s.underflow

/-- The state in which module `m` has taken the next order. -/
def takeOrder (s : ModuleState n V) (m : Fin n) : ModuleState n V :=
  { s with asyncEvaluationCount := (s.asyncEvaluationCount + 1) % sizeLimit }.update m fun r =>
    { r with asyncEvaluationOrder := (s.asyncEvaluationCount + 1) % sizeLimit }

lemma takeOrder_orders (s : ModuleState n V) (m : Fin n) : Orders s (takeOrder s m) m := by
  constructor
  case order_self => simp only [ModuleState.order, takeOrder, ModuleState.update_records_self]
  case order_ne =>
    intro y hy
    simp only [ModuleState.order, takeOrder, ModuleState.update_records_of_ne _ _ hy]
  case status => exact update_field (·.status) _ m rfl
  case errored => exact update_field (·.errored) _ m rfl
  case evaluationError => exact update_field (·.evaluationError) _ m rfl
  case cycleRoot => exact update_field (·.cycleRoot) _ m rfl
  case parents => exact update_field (·.asyncParents) _ m rfl
  case pending => exact update_field (·.pendingAsyncDependencies) _ m rfl
  case index => exact update_field (·.dfsIndex) _ m rfl
  case ancestor => exact update_field (·.dfsAncestorIndex) _ m rfl
  all_goals rfl

section
variable (h : Consistent g events s) {m : Fin n} (hm : s.order m = asyncUnset)
include h hm

/-- A module without an order leaves the counter below its bound. -/
lemma Consistent.count_lt :
    s.asyncEvaluationCount < n := by
  have hlt : (Finset.univ.filter fun y => s.order y ≠ asyncUnset).card < n := by
    have := Finset.card_lt_univ_of_notMem (s := Finset.univ.filter fun y => s.order y ≠ asyncUnset)
      (x := m) (by simp [hm])
    rwa [Fintype.card_fin] at this
  exact lt_of_le_of_lt h.count_le hlt

lemma Consistent.next_order :
    (s.asyncEvaluationCount + 1) % sizeLimit = s.asyncEvaluationCount + 1 := by
  have := h.count_lt hm
  have := g.count_lt
  have : asyncDone < sizeLimit := by decide
  exact Nat.mod_eq_of_lt (by omega)

/-- A module without an order has no async parents. -/
lemma Consistent.parents_of_unset : s.parents m = [] := by
  rw [eq_nil_iff_forall_not_mem]
  exact fun p hp => h.parent_order m p hp hm

end

/-- Taking an order keeps the sum of every other module's entries. -/
lemma Orders.unfinished {m : Fin n} (b : Orders s s' m) (h : Consistent g events s)
    (hfresh : s.order m = asyncUnset) {y p : Fin n} (hp : p ∈ s.parents y) :
    s'.Unfinished y ↔ s.Unfinished y := by
  have hy : y ≠ m := by
    rintro rfl
    rw [h.parents_of_unset hfresh] at hp
    exact not_mem_nil hp
  rw [ModuleState.Unfinished, ModuleState.Unfinished, b.status, b.order_ne y hy]

lemma Consistent.orders {m : Fin n} (h : Consistent g events s) (b : Orders s s' m)
    (hm : s.status m = .evaluating) (hfresh : s.order m = asyncUnset) :
    Consistent g events s' := by
  have hun := fun y p hp => b.unfinished h hfresh (y := y) (p := p) hp
  have hnext := h.next_order hfresh
  have hparents_m := h.parents_of_unset hfresh
  obtain ⟨hstatus, herrored, herror, hroot, hself, hne, hparents, -, -, -, hstack, hcalls,
    hcount, hunder⟩ := b
  rw [hnext] at hself hcount
  have hcalled := called_congr hcalls
  have hroot' : ∀ y, s'.moduleCycleRoot y = s.moduleCycleRoot y := fun y =>
    moduleCycleRoot_congr (hroot y)
  have hoff : ∀ y, s'.Off y ↔ s.Off y := by
    intro y
    rw [ModuleState.Off, ModuleState.Off, hstatus]
  have hset : ∀ y, s.order y ≠ asyncUnset → s'.order y ≠ asyncUnset := by
    intro y hy
    rw [hne y (by rintro rfl; exact hy hfresh)]
    exact hy
  have hself' : s'.order m ≠ asyncUnset := by
    rw [hself]
    exact Nat.succ_ne_zero _
  constructor
  case stack_nodup => rw [hstack]; exact h.stack_nodup
  case mem_stack => simpa only [hstack, hstatus] using h.mem_stack
  case of_linked =>
    intro y hy
    rw [hstatus] at hy
    have hym : y ≠ m := by
      rintro rfl
      simp [hm] at hy
    rw [hne y hym, hroot, herrored, hcalled]
    exact h.of_linked y hy
  case of_stack => simpa only [hstatus, hroot, herrored] using h.of_stack
  case of_async =>
    intro y hy
    rw [hstatus] at hy
    rw [herrored]
    exact ⟨hset y (h.of_async y hy).1, (h.of_async y hy).2⟩
  case of_finished =>
    intro y hy
    have hys : s.status y = .evaluated := (hstatus y).symm.trans hy.1
    have hym : y ≠ m := by
      rintro rfl
      simp [hm] at hys
    rw [hne y hym]
    exact h.of_finished y ⟨hys, (herrored y).symm.trans hy.2⟩
  case root_off => simpa only [hoff, hroot'] using h.root_off
  case root_errored => simpa only [herrored, hroot'] using h.root_errored
  case root_waits => simpa only [hstatus, hroot', herrored, hparents] using h.root_waits
  case edge =>
    intro y hy hye r hr
    rw [herrored] at hye
    refine (h.edge y ((hoff y).mp hy) hye r hr).mono (fun z _ => hroot' z) ?_ ?_ ?_
    · exact fun z hz => ⟨(hstatus z).trans hz.1, (herrored z).trans hz.2⟩
    · exact fun z hz _ => by rw [hstatus, hz]
    · exact fun z hz => by rw [hparents]; exact hz
  case parent_status =>
    intro y p hy hp
    rw [hparents] at hp
    have hun' := (hun y p hp).mp hy
    have hym : y ≠ m := by
      rintro rfl
      rw [hparents_m] at hp
      exact not_mem_nil hp
    rw [herrored, hstatus, hne y hym]
    rcases h.parent_status y p hun' hp with hpe | ⟨hps, hpo⟩
    · exact .inl hpe
    · refine .inr ⟨hps, fun hset' => ?_⟩
      by_cases hpm : p = m
      · have := h.order_le y hun'.2
        rw [hpm, hself]
        omega
      · rw [hne p hpm] at hset' ⊢
        exact hpo hset'
  case parent_visited => simpa only [hparents, hstatus] using h.parent_visited
  case parent_imports => simpa only [hparents] using h.parent_imports
  case parent_errored => simpa only [herrored, hparents, hstatus] using h.parent_errored
  case parent_stack => simpa only [hparents, hstatus] using h.parent_stack
  case parent_order =>
    intro y p hp
    rw [hparents] at hp
    exact hset y (h.parent_order y p hp)
  case called_nodup => rw [hcalled]; exact h.called_nodup
  case called_waits =>
    intro p hp y hy hpy
    rw [hparents] at hpy
    rw [hcalled] at hp
    exact h.called_waits p hp y ((hun y p hpy).mp hy) hpy
  case calls_ready => rw [hcalls]; exact h.calls_ready
  case calls_kept => rw [hcalls]; exact h.calls_kept
  case errors_kept => exact h.errors_kept_congr hcalls herrored herror
  case order_le =>
    intro y hy
    rw [hstatus] at hy
    rw [hcount]
    by_cases hym : y = m
    · rw [hym, hself]
    · rw [hne y hym]
      exact (h.order_le y hy).trans (Nat.le_succ _)
  case order_inj =>
    -- The new order is above every other.
    have hlt : ∀ y, y ≠ m → s'.Unfinished y → s'.order y < s'.order m := by
      intro y hym hy
      rw [hne y hym, hself]
      exact Nat.lt_succ_of_le (h.order_le y (by rw [← hstatus]; exact hy.2))
    have hold : ∀ y, y ≠ m → s'.Unfinished y → s.Unfinished y := by
      intro y hym hy
      exact ⟨by rw [← hne y hym]; exact hy.1, by rw [← hstatus]; exact hy.2⟩
    intro x y hx hy hxy
    by_cases hxm : x = m <;> by_cases hym : y = m
    · rw [hxm, hym]
    · have := hlt y hym hy
      rw [hxm] at hxy
      omega
    · have := hlt x hxm hx
      rw [hym] at hxy
      omega
    · rw [hne x hxm, hne y hym] at hxy
      exact h.order_inj x y (hold x hxm hx) (hold y hym hy) hxy
  case count_le =>
    have hcard : (Finset.univ.filter fun y => s'.order y ≠ asyncUnset)
        = insert m (Finset.univ.filter fun y => s.order y ≠ asyncUnset) := by
      ext y
      by_cases hym : y = m
      · simp [hym, hself']
      · simp [hym, hne y hym]
    rw [hcard, Finset.card_insert_of_notMem (by simp [hfresh]), hcount]
    have := h.count_le
    omega
  case threw => simpa only [herrored, herror, ModuleState.Threw, hcalls] using h.threw
  case entries_le => intro y; rw [entries_congr hparents]; exact h.entries_le y
  case no_underflow => rw [hunder]; exact h.no_underflow

/-! ## Calling an evaluator -/

/-- The evaluator of module `m` is called, with `result`. -/
structure Calls (s s' : ModuleState n V) (m : Fin n) (result : Result V) : Prop where
  records : s'.records = s.records
  stack : s'.stack = s.stack
  calls : s'.calls = s.calls ++ [⟨m, s.records, result⟩]
  count : s'.asyncEvaluationCount = s.asyncEvaluationCount
  underflow : s'.underflow = s.underflow

lemma Calls.called {m : Fin n} {result : Result V} (b : Calls s s' m result) :
    s'.called = s.called ++ [m] := by
  rw [ModuleState.called, b.calls, map_append]
  rfl

/-- What a call needs: a first call, nothing to wait for, and the requests ready. -/
theorem Consistent.calls {m : Fin n} {result : Result V} (h : Consistent g events s)
    (b : Calls s s' m result) (hm : s.status m ≠ .linked) (hcalled : m ∉ s.called)
    (hwaits : ∀ x, s.Unfinished x → m ∉ s.parents x)
    (hready : ∀ r ∈ g.requested m, ¬g.SameCycle m r → ∀ e, g.Imports r e → s.Finished e) :
    Consistent g events s' := by
  have hcalled' := b.called
  -- Only the calls change, so what is not about them stays as it is.
  obtain ⟨evaluating, reactions, rfl⟩ : ∃ evaluating reactions, s' = { s with
      evaluating := evaluating
      reactions := reactions
      calls := s.calls ++ [⟨m, s.records, result⟩] } := by
    refine ⟨s'.evaluating, s'.reactions, ?_⟩
    rw [← b.calls, ← b.records, ← b.stack, ← b.count, ← b.underflow]
  exact { h with
    of_linked := by
      intro y hy
      obtain ⟨h₁, h₂, h₃, h₄⟩ := h.of_linked y hy
      refine ⟨h₁, h₂, h₃, ?_⟩
      rw [hcalled', mem_append, mem_singleton, not_or]
      exact ⟨h₄, by rintro rfl; exact hm hy⟩
    called_nodup := by
      rw [hcalled']
      exact nodup_append.mpr ⟨h.called_nodup, nodup_singleton _, by
        intro a ha b hb
        rw [mem_singleton] at hb
        rintro rfl
        exact hcalled (hb ▸ ha)⟩
    called_waits := by
      intro p hp y hy
      rw [hcalled', mem_append, mem_singleton] at hp
      rcases hp with hp | rfl
      · exact h.called_waits p hp y hy
      · exact hwaits y hy
    calls_ready := by
      intro c hc
      rcases mem_append.mp hc with hc | hc
      · exact h.calls_ready c hc
      · rw [mem_singleton.mp hc]
        exact hready
    calls_kept := by
      refine pairwise_append.mpr ⟨h.calls_kept, pairwise_singleton _ _, fun c hc c' hc' => ?_⟩
      rw [mem_singleton.mp hc']
      exact h.errors_kept c hc
    errors_kept := by
      intro c hc
      rcases mem_append.mp hc with hc | hc
      · exact h.errors_kept c hc
      · rw [mem_singleton.mp hc]
        exact fun y hy => ⟨hy, rfl⟩
    threw := by
      intro y hy
      obtain ⟨x, hx, hxt⟩ := h.threw y hy
      refine ⟨x, hx, hxt.imp_left ?_⟩
      rintro ⟨c, hc, hct⟩
      exact ⟨c, mem_append_left _ hc, hct⟩ }

end Oseo.ModuleEvaluation
