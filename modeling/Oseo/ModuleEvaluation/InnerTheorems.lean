import Oseo.ModuleEvaluation.PathTheorems

/-!
# What a walk does to the table

The invariant through InnerModuleEvaluation, by the induction rule of the walk, and from
it through Evaluate.
-/

namespace Oseo.ModuleEvaluation

open List

variable {n : ℕ} {V : Type} {g : ModuleGraph n} {script : ℕ → Result V}
  {events : List (ModuleEvent n V)} {s s' : ModuleState n V}
  {path : List (Fin n × List (Fin n))} {index : ℕ}

/-! ## The counters -/

/-- The counters stay right while nothing they depend on changes. -/
lemma Counted.congr {except : List (Fin n)} (h : Counted s except)
    (hstatus : ∀ y, s'.status y = s.status y) (herrored : ∀ y, s'.errored y = s.errored y)
    (hroot : ∀ y, s'.cycleRoot y = s.cycleRoot y) (hpending : ∀ y, s'.pending y = s.pending y)
    (hparents : ∀ y, s'.parents y = s.parents y)
    (hun : ∀ y p, p ∈ s.parents y → (s'.Unfinished y ↔ s.Unfinished y)) :
    Counted s' except := by
  intro y hy
  rw [hstatus, moduleCycleRoot_congr (hroot y), herrored] at hy
  rw [hpending, waits_congr (fun x hx => hun x y hx) hparents]
  exact h y hy

lemma Counted.begins {m : Fin n} {index : ℕ} (h : Counted s []) (hc : Consistent g events s)
    (b : Begins s s' m index) : Counted s' [] := by
  have hun : ∀ y, s'.Unfinished y ↔ s.Unfinished y := by
    intro y
    rw [ModuleState.Unfinished, ModuleState.Unfinished, b.order]
    by_cases hy : y = m
    · have ho := (hc.of_linked m b.linked).1
      rw [hy]
      simp [ho]
    · rw [b.status_ne y hy]
  intro y hy
  rw [waits_congr (fun x _ => hun x) b.parents]
  by_cases hym : y = m
  · -- Nothing waits for a module not yet entered.
    rw [hym, b.pending_self]
    by_contra hne
    obtain ⟨x, -, -, hx⟩ := exists_of_waits_pos (Nat.pos_of_ne_zero (Ne.symm hne))
    exact hc.parent_visited x m hx b.linked
  · rw [b.pending_ne y hym]
    rw [b.status_ne y hym, moduleCycleRoot_congr (b.cycleRoot y), b.errored] at hy
    exact h y hy

lemma Counted.waits {m x : Fin n} (h : Counted s []) (b : Waits s s' m x)
    (hm : s.status m = .evaluating) (hx : s.Unfinished x)
    (hentries : s.entries m < (g.requested m).length) : Counted s' [] := by
  intro y hy
  rw [waits_waits b hx]
  by_cases hym : y = m
  · have hle := waits_le_entries (s := s) [] m
    have hlt := g.requested_lt m
    rw [if_pos hym, hym, b.pending_self, h m (Or.inr hm)]
    exact Nat.mod_eq_of_lt (by omega)
  · rw [if_neg hym, b.pending_ne y hym]
    rw [b.status, moduleCycleRoot_congr (b.cycleRoot y), b.errored] at hy
    exact h y hy

lemma Counted.lowers {m : Fin n} {low : ℕ} {except : List (Fin n)} (h : Counted s except)
    (b : Lowers s s' m low) : Counted s' except :=
  h.congr b.status b.errored b.cycleRoot b.pending b.parents fun y _ _ => by
    rw [ModuleState.Unfinished, ModuleState.Unfinished, b.order, b.status]

lemma Counted.orders {m : Fin n} {except : List (Fin n)} (h : Counted s except)
    (hc : Consistent g events s) (b : Orders s s' m) (hfresh : s.order m = asyncUnset) :
    Counted s' except :=
  h.congr b.status b.errored b.cycleRoot b.pending b.parents fun _ _ hp =>
    b.unfinished hc hfresh hp

lemma Counted.records {except : List (Fin n)} (h : Counted s except)
    (hr : s'.records = s.records) : Counted s' except := by
  intro y hy
  simp only [ModuleState.status, ModuleState.moduleCycleRoot, ModuleState.errored, hr] at hy
  simp only [ModuleState.pending, ModuleState.waits, ModuleState.Unfinished, ModuleState.order,
    ModuleState.status, ModuleState.parents, hr]
  exact h y hy

lemma Counted.endsCycle {root : Fin n} {U : Fin n → Prop} (h : Counted s [])
    (b : EndsCycle s s' root U) (d : CycleDone g s root U) : Counted s' [] := by
  intro y hy
  rw [b.pending, waits_congr (fun x _ => b.unfinished d x) b.parents]
  by_cases hU : U y
  · exact h y (.inr (d.stack y hU))
  · rw [b.status_ne y hU, b.moduleCycleRoot_ne hU, b.errored] at hy
    exact h y hy

lemma Counted.fails {U : Fin n → Prop} {error : V} {except : List (Fin n)}
    (h : Counted s except) (hc : Consistent g events s) (b : Fails s s' U error)
    (d : FailClosed g events s U error) : Counted s' except := by
  have hroot : ∀ m, s'.moduleCycleRoot m = s.moduleCycleRoot m := fun m =>
    moduleCycleRoot_congr (b.cycleRoot m)
  intro y hy
  have hstatus : s'.status y ≠ .evaluated := by
    rcases hy with hy | hy
    · simp [hy.1]
    · simp [hy]
  have hU : ¬U y := fun hU => hstatus (b.status_mem y hU)
  rw [b.status_ne y hU] at hstatus
  rw [b.pending, waits_congr _ b.parents]
  · rw [b.status_ne y hU, hroot] at hy
    refine h y (hy.imp (fun hy => ⟨hy.1, ?_⟩) id)
    by_contra herr
    have hev := hc.status_of_errored (by simpa using herr)
    have hnot : ¬U (s.moduleCycleRoot y) := by
      intro hr
      rcases d.status _ hr with hs | hs <;> simp [hs] at hev
    exact herr ((b.errored_ne _ hnot).symm.trans hy.2)
  · -- What fails here waited for no module that stays.
    intro x hx
    have hxU : ¬U x := fun hxU => (d.parents x hxU y hx).elim hU hstatus
    rw [ModuleState.Unfinished, ModuleState.Unfinished, b.order_ne x hxU, b.status_ne x hxU]

/-! ## Requests that are ready -/

/-- Only a finished cycle leaves nothing waiting for it: a member of a cycle whose root
has finished has finished. -/
lemma Consistent.finished_of_root (h : Consistent g events s) {m : Fin n}
    (hm : s.Finished (s.moduleCycleRoot m)) : s.Finished m := by
  have hoff : s.Off m := by
    by_contra hoff
    rw [h.not_off_of_none hoff] at hm
    exact hoff (.inr hm.1)
  have herr : s.errored m = false := by
    by_contra herr
    have := h.root_errored m (by simpa using herr)
    rw [ModuleState.errored, hm.2] at this
    cases this
  refine ⟨?_, herr⟩
  by_contra hst
  have hasync : s.status m = .evaluatingAsync := hoff.resolve_right hst
  -- A member still waiting has a waiting parent of a higher order, and so on.
  have hclimb : ∀ k m', s.asyncEvaluationCount - s.order m' < k →
      s.status m' = .evaluatingAsync → s.moduleCycleRoot m' = s.moduleCycleRoot m → False := by
    intro k
    induction k with
    | zero => exact fun m' hk => absurd hk (Nat.not_lt_zero _)
    | succ k ih =>
      intro m' hk hm' hr
      have hne : s.moduleCycleRoot m' ≠ m' := by
        intro heq
        have hev := hm.1
        rw [← hr, heq] at hev
        rw [ModuleState.status, hev] at hm'
        cases hm'
      obtain ⟨p, hp, hpr, hps⟩ := h.root_waits m' hm' hne (by rw [hr]; exact hm.2)
      have hun : s.Unfinished m' := ⟨(h.of_async m' hm').1, by simp [hm']⟩
      have hlt : s.order m' < s.order p := by
        rcases h.parent_status m' p hun hp with he | ⟨-, ho⟩
        · simp [(h.of_async p hps).2] at he
        · exact ho (h.of_async p hps).1
      have := h.order_le p (by simp [hps])
      exact ih p (by omega) hps (hpr.trans hr)
  exact hclimb _ m (Nat.lt_succ_self _) hasync rfl

/-- Everything a finished cycle imports has finished. -/
lemma Consistent.finished_of_imports (h : Consistent g events s) {r e : Fin n}
    (hr : s.Finished (s.moduleCycleRoot r)) (hre : g.Imports r e) : s.Finished e := by
  have hstep : s.Finished (s.moduleCycleRoot e) := by
    induction hre with
    | refl => exact hr
    | tail _ hbc ih =>
      have hb := h.finished_of_root ih
      rcases h.edge _ (.inr hb.1) hb.2 _ hbc with he | he | ⟨he, -⟩
      · rw [he]
        exact ih
      · exact he
      · have := hb.1
        rw [ModuleState.status] at he
        rw [he] at this
        cases this
  exact h.finished_of_root hstep

/-- Everything on the stack leads to the innermost activation. -/
lemma OnPath.leads {f : Fin n × List (Fin n)} (h : OnPath g s (f :: path) index) {w : Fin n}
    (hw : s.status w = .evaluating) : g.Imports w f.1 := by
  obtain ⟨f', hf', -, hwf⟩ := h.up w hw
  refine hwf.trans (h.down f.1 (h.path_stack f mem_cons_self) f' hf' ?_)
  rcases mem_cons.mp hf' with rfl | hf'
  · exact le_refl _
  · exact ((pairwise_cons.mp h.path_index).1 f' hf').le

/-- An activation with every request behind it and nothing to wait for is ready. -/
lemma OnPath.ready {m : Fin n} {done : List (Fin n)} (hc : Consistent g events s)
    (h : OnPath g s ((m, done) :: path) index) (hdone : ∀ r ∈ g.requested m, r ∈ done)
    (hwaits : ∀ x, s.Unfinished x → m ∉ s.parents x) :
    ∀ r ∈ g.requested m, ¬g.SameCycle m r → ∀ e, g.Imports r e → s.Finished e := by
  intro r hr hcycle e he
  rcases h.path_done _ mem_cons_self r (hdone r hr) with ⟨hrs, -, -⟩ | ⟨-, hf | ⟨ha, hp⟩⟩
  · exact absurd ⟨ModuleGraph.imports_of_mem hr, h.leads hrs⟩ hcycle
  · exact hc.finished_of_imports hf he
  · exact absurd hp (hwaits _ ⟨(hc.of_async _ ha).1, by simp [ha]⟩)

/-! ## The steps of InnerModuleEvaluation -/

/-- The ancestor index of `m` falls to that of `r`. -/
def lowerAncestor (s : ModuleState n V) (m r : Fin n) : ModuleState n V :=
  s.update m fun rec =>
    { rec with dfsAncestorIndex := min rec.dfsAncestorIndex (s.records r).dfsAncestorIndex }

lemma lowerAncestor_lowers (s : ModuleState n V) (m r : Fin n) :
    Lowers s (lowerAncestor s m r) m (s.ancestor r) where
  status := update_field (·.status) s m rfl
  errored := update_field (·.errored) s m rfl
  evaluationError := update_field (·.evaluationError) s m rfl
  cycleRoot := update_field (·.cycleRoot) s m rfl
  order := update_field (·.asyncEvaluationOrder) s m rfl
  parents := update_field (·.asyncParents) s m rfl
  pending := update_field (·.pendingAsyncDependencies) s m rfl
  index := update_field (·.dfsIndex) s m rfl
  ancestor_self := by
    simp only [ModuleState.ancestor, lowerAncestor, ModuleState.update_records_self]
  ancestor_ne := fun y hy => by
    simp only [ModuleState.ancestor, lowerAncestor, s.update_records_of_ne _ hy]
  stack := rfl
  calls := rfl
  count := rfl
  underflow := rfl

lemma specAfterInner_evaluating {m r : Fin n} (hr : s.status r = .evaluating) :
    specAfterInner s m r = (.normal, specWait (lowerAncestor s m r) m r) := by
  rw [specAfterInner, if_pos hr]
  rfl

lemma specAfterInner_errored {m r : Fin n} (hr : s.status r ≠ .evaluating)
    (he : s.errored (s.moduleCycleRoot r) = true) :
    specAfterInner s m r = (.throw (s.evaluationError (s.moduleCycleRoot r)), s) := by
  rw [specAfterInner, if_neg hr]
  exact if_pos he

lemma specAfterInner_off {m r : Fin n} (hr : s.status r ≠ .evaluating)
    (he : s.errored (s.moduleCycleRoot r) = false) :
    specAfterInner s m r = (.normal, specWait s m (s.moduleCycleRoot r)) := by
  rw [specAfterInner, if_neg hr]
  refine if_neg ?_
  rw [ModuleState.errored] at he
  simp [he]

lemma specWait_of_not {m x : Fin n} (hx : (s.records x).asyncPending = false) :
    specWait s m x = s := by
  simp [specWait, hx]

lemma moduleCallEvaluator_calls (s : ModuleState n V) (m : Fin n) :
    Calls s (moduleCallEvaluator script s m).2 m (moduleCallEvaluator script s m).1 :=
  ⟨rfl, rfl, rfl, rfl, rfl⟩

lemma moduleExecuteAsync_calls (s : ModuleState n V) (m : Fin n) :
    (∃ result, Calls s (moduleExecuteAsync script s m).2 m result) ∧
      ∀ error, (moduleExecuteAsync script s m).1 ≠ .throw error := by
  unfold moduleExecuteAsync moduleCallEvaluator
  cases hres : script s.calls.length with
  | normal => exact ⟨⟨.normal, rfl, rfl, rfl, rfl, rfl⟩, by simp⟩
  | throw error => exact ⟨⟨.throw error, rfl, rfl, rfl, rfl, rfl⟩, by simp⟩
  | failure => exact ⟨⟨.failure, rfl, rfl, rfl, rfl, rfl⟩, by simp⟩

/-- What executing a module at the end of its request loop does: it takes an order and
waits, or its evaluator is called. -/
lemma specExecute_cases (s : ModuleState n V) (m : Fin n) :
    (0 < s.pending m ∧ specExecute g script s m = (.normal, takeOrder s m)) ∨
    (s.pending m = 0 ∧ g.hasTopLevelAwait m = true ∧
      (∃ result, Calls (takeOrder s m) (specExecute g script s m).2 m result) ∧
      ∀ error, (specExecute g script s m).1 ≠ .throw error) ∨
    (s.pending m = 0 ∧ g.hasTopLevelAwait m = false ∧
      Calls s (specExecute g script s m).2 m (specExecute g script s m).1) := by
  have hself : (takeOrder s m).pending m = s.pending m := (takeOrder_orders s m).pending m
  by_cases hpos : 0 < s.pending m
  · refine .inl ⟨hpos, ?_⟩
    rw [specExecute, if_pos (Or.inl hpos)]
    exact if_neg (hself.trans_ne hpos.ne')
  · have hzero : s.pending m = 0 := Nat.eq_zero_of_not_pos hpos
    cases htla : g.hasTopLevelAwait m with
    | true =>
      have hex : specExecute g script s m = moduleExecuteAsync script (takeOrder s m) m := by
        rw [specExecute, if_pos (Or.inr htla)]
        exact if_pos (hself.trans hzero)
      rw [hex]
      exact .inr (.inl ⟨hzero, rfl, moduleExecuteAsync_calls _ m⟩)
    | false =>
      have hex : specExecute g script s m = moduleCallEvaluator script s m := by
        rw [specExecute, if_neg (by simp [htla, hzero])]
      rw [hex]
      exact .inr (.inr ⟨hzero, rfl, moduleCallEvaluator_calls s m⟩)

/-- A member's record as it leaves the stack. -/
def ModuleRecord.leave (root : Fin n) (r : ModuleRecord n V) : ModuleRecord n V :=
  { r with
    status := if r.asyncEvaluationOrder = asyncUnset then .evaluated else .evaluatingAsync
    cycleRoot := some root }

/-- The pops of a finished cycle, on a stack whose modules above the root are `above`. -/
lemma specEndCycle_eq {root : Fin n} (above below : List (Fin n)) (s : ModuleState n V)
    (hroot : root ∉ above) :
    specEndCycle root (above ++ root :: below) s
      = { s with
          records := fun y =>
            if y ∈ above ++ [root] then (s.records y).leave root else s.records y
          stack := below } := by
  induction above generalizing s with
  | nil =>
    have hrec : (s.update root (.leave root)).records
        = fun y => if y ∈ [root] then (s.records y).leave root else s.records y := by
      funext y
      by_cases hy : y = root
      · rw [hy, s.update_records_self, if_pos (mem_singleton_self root)]
      · rw [s.update_records_of_ne _ hy, if_neg (by rwa [mem_singleton])]
    rw [nil_append, specEndCycle, if_pos rfl, nil_append, ← hrec]
    rfl
  | cons member above ih =>
    rw [mem_cons, not_or] at hroot
    rw [cons_append, specEndCycle, if_neg (Ne.symm hroot.1), ih _ hroot.2]
    have hrec : (fun y => if y ∈ above ++ [root]
          then ((s.update member (.leave root)).records y).leave root
          else (s.update member (.leave root)).records y)
        = fun y => if y ∈ member :: above ++ [root] then (s.records y).leave root
            else s.records y := by
      funext y
      by_cases hy : y = member
      · rw [hy, s.update_records_self, if_pos (mem_append_left _ mem_cons_self)]
        split <;> rfl
      · rw [s.update_records_of_ne _ hy]
        simp [hy]
    rw [← hrec]
    rfl

lemma specEndCycle_endsCycle {root : Fin n} {above below : List (Fin n)}
    (hs : s.stack = above ++ root :: below) (hnodup : s.stack.Nodup) {U : Fin n → Prop}
    (hU : ∀ y, U y ↔ y ∈ above ++ [root]) :
    EndsCycle s (specEndCycle root s.stack s) root U := by
  have happ : s.stack = (above ++ [root]) ++ below := by
    rw [hs, append_assoc, singleton_append]
  have hdisj := disjoint_of_nodup_append (happ ▸ hnodup)
  have hroot : root ∉ above := by
    rw [hs, nodup_append] at hnodup
    exact fun hmem => hnodup.2.2 root hmem root mem_cons_self rfl
  have hstate : specEndCycle root s.stack s
      = { s with
          records := fun y =>
            if y ∈ above ++ [root] then (s.records y).leave root else s.records y
          stack := below } := by
    rw [hs, specEndCycle_eq above below s hroot]
  have hfield : ∀ {α : Type} (F : ModuleRecord n V → α), (∀ r, F (r.leave root) = F r) →
      ∀ y, F ((specEndCycle root s.stack s).records y) = F (s.records y) := by
    intro α F hF y
    rw [hstate]
    by_cases hy : y ∈ above ++ [root]
    · exact (congrArg F (if_pos hy)).trans (hF _)
    · exact congrArg F (if_neg hy)
  constructor
  case status_mem =>
    intro y hy
    rw [ModuleState.status, hstate]
    exact congrArg ModuleRecord.status (if_pos ((hU y).mp hy))
  case status_ne =>
    intro y hy
    rw [ModuleState.status, hstate]
    exact congrArg ModuleRecord.status (if_neg (fun h => hy ((hU y).mpr h)))
  case root_mem =>
    intro y hy
    rw [ModuleState.cycleRoot, hstate]
    exact congrArg ModuleRecord.cycleRoot (if_pos ((hU y).mp hy))
  case root_ne =>
    intro y hy
    rw [ModuleState.cycleRoot, hstate]
    exact congrArg ModuleRecord.cycleRoot (if_neg (fun h => hy ((hU y).mpr h)))
  case errored => exact hfield (·.errored) fun _ => rfl
  case evaluationError => exact hfield (·.evaluationError) fun _ => rfl
  case order => exact hfield (·.asyncEvaluationOrder) fun _ => rfl
  case parents => exact hfield (·.asyncParents) fun _ => rfl
  case pending => exact hfield (·.pendingAsyncDependencies) fun _ => rfl
  case index => exact hfield (·.dfsIndex) fun _ => rfl
  case ancestor => exact hfield (·.dfsAncestorIndex) fun _ => rfl
  case stack_suffix =>
    rw [hstate, happ]
    exact sublist_append_right _ _
  case mem_stack =>
    intro y
    rw [hU]
    have hst : (specEndCycle root s.stack s).stack = below := by rw [hstate]
    rw [hst, happ, mem_append]
    constructor
    · exact fun hy => ⟨.inr hy, fun hy' => hdisj hy' hy⟩
    · exact fun hy => hy.1.resolve_left hy.2
  all_goals rw [hstate]

/-! ## What InnerModuleEvaluation keeps

The invariant of the table through the depth-first walk: one lemma for a request that goes
behind an activation, one for the end of an activation, and the walk by its induction rule.
-/

open Prod (fst mk)

/-! ## Activations that have not started -/

lemma OnPath.ne_of_mem {f : Fin n × List (Fin n)} (h : OnPath g s (f :: path) index)
    {f' : Fin n × List (Fin n)} (hf' : f' ∈ path) : f'.1 ≠ f.1 := by
  intro heq
  have hlt := (pairwise_cons.mp h.path_index).1 f' hf'
  rw [heq] at hlt
  exact lt_irrefl _ hlt

lemma Fresh.congr (h : Fresh s path)
    (horder : ∀ f ∈ path, s'.order f.1 = s.order f.1)
    (hcalled : ∀ f ∈ path, f.1 ∈ s'.called → f.1 ∈ s.called)
    (hentries : ∀ f ∈ path, s'.entries f.1 = s.entries f.1) : Fresh s' path := by
  intro f hf
  obtain ⟨h₁, h₂, h₃⟩ := h f hf
  exact ⟨(horder f hf).trans h₁, fun hc => h₂ (hcalled f hf hc), (hentries f hf).trans_le h₃⟩

lemma Fresh.tail {f : Fin n × List (Fin n)} (h : Fresh s (f :: path)) : Fresh s path :=
  fun f' hf' => h f' (List.mem_cons_of_mem _ hf')

lemma Fresh.extend {m r : Fin n} {done : List (Fin n)} (h : Fresh s ((m, done) :: path)) :
    Fresh s ((m, done ++ [r]) :: path) := by
  intro f hf
  rcases mem_cons.mp hf with rfl | hf
  · obtain ⟨h₁, h₂, h₃⟩ := h _ mem_cons_self
    refine ⟨h₁, h₂, ?_⟩
    rw [length_append]
    exact h₃.trans (Nat.le_add_right _ _)
  · exact h f (mem_cons_of_mem _ hf)

lemma Fresh.waits {m x r : Fin n} {done : List (Fin n)} (h : Fresh s ((m, done) :: path))
    (b : Waits s s' m x) (hne : ∀ f ∈ path, f.1 ≠ m) : Fresh s' ((m, done ++ [r]) :: path) := by
  intro f hf
  rw [b.order, called_congr b.calls, entries_waits b]
  rcases mem_cons.mp hf with rfl | hf
  · obtain ⟨h₁, h₂, h₃⟩ := h _ mem_cons_self
    refine ⟨h₁, h₂, ?_⟩
    rw [if_pos rfl, length_append]
    exact Nat.add_le_add_right h₃ 1
  · rw [if_neg (hne f hf)]
    exact h f (mem_cons_of_mem _ hf)

lemma Lowers.fresh {m : Fin n} {low : ℕ} (b : Lowers s s' m low) (h : Fresh s path) :
    Fresh s' path :=
  h.congr (fun _ _ => b.order _) (fun _ _ hc => by rwa [called_congr b.calls] at hc)
    fun _ _ => entries_congr b.parents

/-! ## A request behind an activation -/

/-- A module that others may wait for, and that has no error, is unfinished. -/
lemma Consistent.unfinished_of_asyncPending (h : Consistent g events s) {x : Fin n}
    (hx : (s.records x).asyncPending = true) (herr : s.errored x = false) : s.Unfinished x := by
  simp only [ModuleRecord.asyncPending, Bool.and_eq_true, bne_iff_ne] at hx
  refine ⟨hx.1, fun hst => ?_⟩
  rcases h.of_finished x ⟨hst, herr⟩ with ho | ho
  · exact hx.1 ho
  · exact hx.2 ho

/-- The invariants of a walk whose innermost activation is that of `m`. -/
structure Walking (g : ModuleGraph n) (events : List (ModuleEvent n V)) (s : ModuleState n V)
    (path : List (Fin n × List (Fin n))) (m : Fin n) (done : List (Fin n)) (index : ℕ) :
    Prop where
  consistent : Consistent g events s
  counted : Counted s []
  onPath : OnPath g s ((m, done) :: path) index
  fresh : Fresh s ((m, done) :: path)

/-- The invariants of a nested call of `m` that has returned with its cycle open. -/
structure Returned (g : ModuleGraph n) (s : ModuleState n V)
    (path : List (Fin n × List (Fin n))) (m : Fin n) (index : ℕ) : Prop where
  onPath : OnPath g s ((m, g.requested m) :: path) index
  low : s.ancestor m < s.dfsIndex m
  ordered : 0 < s.pending m → s.order m ≠ asyncUnset

/-- The walk waits, or need not, for a module `x` with no error. -/
lemma Consistent.specWait (h : Consistent g events s) (hcount : Counted s []) {m x r : Fin n}
    {done : List (Fin n)} {path' : List (Fin n × List (Fin n))}
    (hpath : OnPath g s path' index) (hm : m ∈ path'.map fst)
    (hms : s.status m = .evaluating) (hfresh : Fresh s ((m, done) :: path))
    (hne : ∀ f ∈ path, f.1 ≠ m) (herr : s.errored x = false) (himp : g.Imports m x)
    (hlen : done.length < (g.requested m).length)
    (hx : s.status x = .evaluating → s.ancestor m ≤ s.dfsIndex x) :
    Consistent g events (specWait s m x) ∧ Counted (specWait s m x) [] ∧
      OnPath g (specWait s m x) path' index ∧
      Fresh (specWait s m x) ((m, done ++ [r]) :: path) := by
  cases hpend : (s.records x).asyncPending with
  | true =>
    have b := specWait_waits (m := m) hpend
    have hun := h.unfinished_of_asyncPending hpend herr
    obtain ⟨h₁, h₂, h₃⟩ := hfresh _ mem_cons_self
    have hentries : s.entries m < (g.requested m).length := lt_of_le_of_lt h₃ hlen
    exact ⟨h.waits b hms h₁ h₂ hun herr himp hentries, hcount.waits b hms hun hentries,
      hpath.waits b hm hms hx, hfresh.waits b hne⟩
  | false =>
    rw [specWait_of_not hpend]
    exact ⟨h, hcount, hpath, hfresh.extend⟩

lemma specWait_status (s : ModuleState n V) (m x y : Fin n) :
    (specWait s m x).status y = s.status y ∧ (specWait s m x).dfsIndex y = s.dfsIndex y ∧
      (specWait s m x).ancestor y = s.ancestor y ∧ (specWait s m x).order y = s.order y ∧
      (specWait s m x).moduleCycleRoot y = s.moduleCycleRoot y ∧
      (specWait s m x).errored y = s.errored y ∧
      (y ≠ m → (specWait s m x).pending y = s.pending y) := by
  cases hpend : (s.records x).asyncPending with
  | true =>
    have b := specWait_waits (m := m) hpend
    exact ⟨b.status y, b.index y, b.ancestor y, b.order y, moduleCycleRoot_congr (b.cycleRoot y),
      b.errored y, b.pending_ne y⟩
  | false =>
    rw [specWait_of_not hpend]
    exact ⟨rfl, rfl, rfl, rfl, rfl, rfl, fun _ => rfl⟩

lemma mem_parents_specWait {m x : Fin n} (hx : (s.records x).asyncPending = true) :
    m ∈ (specWait s m x).parents x := by
  rw [(specWait_waits hx).parents_self]
  exact mem_append_right _ (mem_singleton_self m)

/-- A request to a module on the stack, whether its nested call has just returned or it was
entered before. -/
lemma Walking.request_stack {m r : Fin n} {done : List (Fin n)}
    (hc : Consistent g events s) (hcount : Counted s []) (hfresh : Fresh s ((m, done) :: path))
    (hpath : OnPath g s ((m, done) :: path) index ∨ Returned g s ((m, done) :: path) r index)
    (hr : s.status r = .evaluating) (hmr : r ∈ g.requested m)
    (hlen : done.length < (g.requested m).length) :
    Walking g events (specWait (lowerAncestor s m r) m r) path m (done ++ [r]) index := by
  have b := lowerAncestor_lowers s m r
  have himp := ModuleGraph.imports_of_mem hmr
  -- The lowered state is the same for both kinds of path.
  have hstep : ∀ path', OnPath g s path' index → m ∈ path'.map fst →
      s.status m = .evaluating → (∀ f ∈ path, f.1 ≠ m) →
      Consistent g events (specWait (lowerAncestor s m r) m r) ∧
        Counted (specWait (lowerAncestor s m r) m r) [] ∧
        OnPath g (specWait (lowerAncestor s m r) m r) path' index ∧
        Fresh (specWait (lowerAncestor s m r) m r) ((m, done ++ [r]) :: path) := by
    intro path' hp hm hms hne
    have herr : (lowerAncestor s m r).errored r = false := by
      rw [b.errored]
      exact (hc.of_stack r hr).2
    refine (hc.neutral b.toNeutral).specWait (hcount.lowers b) (hp.lowers b hm hms hr himp) hm
      (by rw [b.status, hms]) (b.fresh hfresh) hne herr himp hlen fun _ => ?_
    rw [b.ancestor_self, b.index]
    exact (min_le_right _ _).trans (hp.ancestor_le r hr)
  have hedge : ∀ (hms : s.status m = .evaluating)
      (hp : OnPath g (specWait (lowerAncestor s m r) m r) ((m, done) :: path) index),
      (specWait (lowerAncestor s m r) m r).StackEdge ((m, done) :: path) m r := by
    intro hms hp
    obtain ⟨hws, hwi, hwa, -, -, -, -⟩ := specWait_status (lowerAncestor s m r) m r r
    have hrs : (specWait (lowerAncestor s m r) m r).status r = .evaluating := by
      rw [hws, b.status, hr]
    refine .inl ⟨hrs, ?_, fun f hf hlt => ?_⟩
    · obtain ⟨-, -, hma, -, -, -, -⟩ := specWait_status (lowerAncestor s m r) m r m
      refine le_trans ?_ (hp.ancestor_le r hrs)
      rw [hma, hwa]
      by_cases hrm : r = m
      · rw [hrm]
      · rw [b.ancestor_self, b.ancestor_ne r hrm]
        exact min_le_right _ _
    · rcases mem_cons.mp hf with rfl | hf
      · exact absurd hlt (lt_irrefl _)
      · exact absurd hlt (not_lt.mpr ((pairwise_cons.mp hp.path_index).1 f hf).le)
  rcases hpath with hp | hret
  · have hms := hp.path_stack _ mem_cons_self
    obtain ⟨h₁, h₂, h₃, h₄⟩ := hstep _ hp mem_cons_self hms fun f hf => hp.ne_of_mem hf
    exact ⟨h₁, h₂, h₃.extend (hedge hms h₃), h₄⟩
  · have hms := hret.onPath.path_stack _ (mem_cons_of_mem _ mem_cons_self)
    have hpw := pairwise_cons.mp hret.onPath.path_index
    have hrm : r ≠ m := by
      rintro rfl
      exact lt_irrefl _ (hpw.1 (r, done) mem_cons_self)
    have hne : ∀ f ∈ path, f.1 ≠ m := by
      intro f hf heq
      have := (pairwise_cons.mp hpw.2).1 f hf
      rw [heq] at this
      exact lt_irrefl _ this
    obtain ⟨h₁, h₂, h₃, h₄⟩ := hstep _ hret.onPath
      (mem_cons_of_mem _ mem_cons_self) hms hne
    obtain ⟨-, hri, hra, hro, -, -, hrp⟩ := specWait_status (lowerAncestor s m r) m r r
    obtain ⟨-, -, hma, -, -, -, -⟩ := specWait_status (lowerAncestor s m r) m r m
    have hlow : (lowerAncestor s m r).ancestor r = s.ancestor r := b.ancestor_ne r hrm
    have h₅ : OnPath g (specWait (lowerAncestor s m r) m r) ((m, done) :: path) index := by
      refine h₃.returns ?_ ?_ ?_ ?_
      · rw [hra, hri, hlow, b.index]
        exact hret.low
      · rw [hma, hra, hlow, b.ancestor_self]
        exact min_le_right _ _
      · rw [hrp hrm, hro, b.pending, b.order]
        exact hret.ordered
      · intro ho
        rw [hro] at ho
        refine mem_parents_specWait ?_
        have hrs : (lowerAncestor s m r).status r ≠ .evaluated := by
          rw [b.status, hr]
          decide
        exact ((hc.neutral b.toNeutral).asyncPending_iff hrs).mpr ho
    exact ⟨h₁, h₂, h₅.extend (hedge hms h₅), h₄⟩

/-- A request to a module off the stack, whose cycle root has no error. -/
lemma Walking.request_off {m r : Fin n} {done : List (Fin n)}
    (h : Walking g events s path m done index) (hr : s.Off r)
    (herr : s.errored (s.moduleCycleRoot r) = false) (hmr : r ∈ g.requested m)
    (hlen : done.length < (g.requested m).length) :
    Walking g events (specWait s m (s.moduleCycleRoot r)) path m (done ++ [r]) index := by
  have hms := h.onPath.path_stack _ mem_cons_self
  obtain ⟨hroff, -, hrcycle⟩ := h.consistent.root_off r hr
  have himp := (ModuleGraph.imports_of_mem hmr).trans hrcycle.1
  obtain ⟨h₁, h₂, h₃, h₄⟩ := h.consistent.specWait (r := r) h.counted h.onPath
    mem_cons_self hms h.fresh (fun f hf => h.onPath.ne_of_mem hf) herr himp hlen
    (fun hst => by rcases hroff with ho | ho <;> simp [ho] at hst)
  refine ⟨h₁, h₂, h₃.extend ?_, h₄⟩
  obtain ⟨hrs, -, -, -, hrr, -, -⟩ := specWait_status s m (s.moduleCycleRoot r) r
  obtain ⟨hroots, -, -, -, -, hroote, -⟩ :=
    specWait_status s m (s.moduleCycleRoot r) (s.moduleCycleRoot r)
  refine .inr ⟨?_, ?_⟩
  · rw [ModuleState.Off, hrs]
    exact hr
  · rw [hrr]
    rcases hroff with ho | ho
    · refine .inr ⟨hroots.trans ho, mem_parents_specWait ?_⟩
      exact (h.consistent.asyncPending_iff (by simp [ho])).mpr (h.consistent.of_async _ ho).1
    · exact .inl ⟨hroots.trans ho, hroote.trans herr⟩

/-! ## The end of an activation -/

/-- What a nested call of `m` leaves behind, from the state `s`. -/
def InnerPost (g : ModuleGraph n) (events : List (ModuleEvent n V)) (s : ModuleState n V)
    (path : List (Fin n × List (Fin n))) (m : Fin n) :
    Result V → ModuleState n V → ℕ → Prop
  | .normal, s', index =>
    Consistent g events s' ∧ Counted s' [] ∧ Fresh s' path ∧
      ((OnPath g s' path index ∧ s'.status m ≠ .linked ∧
        (s.status m = .linked → s'.moduleCycleRoot m = m ∧ s'.errored m = false)) ∨
      Returned g s' path m index)
  | .throw error, s', _ =>
    Consistent g events s' ∧ Counted s' [] ∧
      ∃ x, s'.Threw events x error ∧ ∀ w, s'.status w = .evaluating → g.Imports w x
  | .failure, s', _ => Consistent g events s'

/-- The state after the pop that ends an activation. -/
def specPop (s : ModuleState n V) (m : Fin n) : ModuleState n V :=
  if s.ancestor m = s.dfsIndex m then specEndCycle m s.stack s else s

/-- The stack above a module is what was entered after it. -/
lemma OnPath.cycleMember_iff {m : Fin n} (hc : Consistent g events s)
    (h : OnPath g s path index) {above below : List (Fin n)}
    (hs : s.stack = above ++ m :: below) (y : Fin n) :
    s.cycleMember m y ↔ y ∈ above ++ [m] := by
  have hpw := h.stack_index
  rw [hs, pairwise_append] at hpw
  obtain ⟨-, hbelow, habove⟩ := hpw
  have hmem : s.status y = .evaluating ↔ y ∈ above ∨ y = m ∨ y ∈ below := by
    rw [← hc.mem_stack, hs, mem_append, mem_cons]
  rw [ModuleState.cycleMember, hmem, mem_append, mem_singleton]
  constructor
  · rintro ⟨hy | hy | hy, hle⟩
    · exact .inl hy
    · exact .inr hy
    · exact absurd hle (not_le.mpr ((pairwise_cons.mp hbelow).1 y hy))
  · rintro (hy | rfl)
    · exact ⟨.inl hy, (habove y hy m mem_cons_self).le⟩
    · exact ⟨.inr (.inl rfl), le_refl _⟩

/-- The end of an activation that has executed or waits. -/
lemma innerPost_pop {s₀ : ModuleState n V} {m : Fin n} (hc : Consistent g events s)
    (hcount : Counted s []) (hpath : OnPath g s ((m, g.requested m) :: path) index)
    (hfresh : Fresh s path) (hordered : 0 < s.pending m → s.order m ≠ asyncUnset) :
    InnerPost g events s₀ path m .normal (specPop s m) index := by
  have hms := hpath.path_stack _ mem_cons_self
  by_cases hlow : s.ancestor m = s.dfsIndex m
  · rw [specPop, if_pos hlow]
    have d := hpath.cycleDone hc hcount (fun _ hr => hr) hlow hordered
    obtain ⟨above, below, hs⟩ := append_of_mem ((hc.mem_stack m).mpr hms)
    have b := specEndCycle_endsCycle hs hc.stack_nodup (hpath.cycleMember_iff hc hs)
    refine ⟨hc.endsCycle b d, hcount.endsCycle b d, ?_, .inl ⟨hpath.endsCycle b d, ?_, ?_⟩⟩
    · exact hfresh.congr (fun _ _ => b.order _) (fun _ _ h => by rwa [called_congr b.calls] at h)
        fun _ _ => entries_congr b.parents
    · intro hst
      rcases b.off d.root_mem with ho | ho <;> simp [ho] at hst
    · intro _
      refine ⟨b.moduleCycleRoot_mem d.root_mem, ?_⟩
      rw [b.errored]
      exact (hc.of_stack m hms).2
  · rw [specPop, if_neg hlow]
    refine ⟨hc, hcount, hfresh, .inr ⟨hpath, ?_, hordered⟩⟩
    exact lt_of_le_of_ne (hpath.ancestor_le m hms) hlow

/-- An evaluator call in the walk. -/
lemma OnPath.call {m : Fin n} {result : Result V} (hc : Consistent g events s)
    (hcount : Counted s []) (hpath : OnPath g s ((m, g.requested m) :: path) index)
    (b : Calls s s' m result) (hpending : s.pending m = 0) (hcalled : m ∉ s.called) :
    Consistent g events s' ∧ Counted s' [] ∧
      OnPath g s' ((m, g.requested m) :: path) index := by
  have hms := hpath.path_stack _ mem_cons_self
  have hwaits : ∀ x, s.Unfinished x → m ∉ s.parents x := by
    intro x hx hmem
    have hpos := waits_pos hx not_mem_nil hmem
    rw [← hcount m (Or.inr hms), hpending] at hpos
    exact lt_irrefl _ hpos
  have hready := hpath.ready hc (fun _ hr => hr) hwaits
  exact ⟨hc.calls b (by simp [hms]) hcalled hwaits hready, hcount.records b.records,
    hpath.calls b mem_cons_self hms⟩

/-- Fresh activations stay fresh when the innermost one is called. -/
lemma Fresh.calls {m : Fin n} {result : Result V} (h : Fresh s path) (b : Calls s s' m result)
    (hne : ∀ f ∈ path, f.1 ≠ m) : Fresh s' path := by
  refine h.congr (fun f _ => by rw [ModuleState.order, b.records]) ?_ ?_
  · intro f hf hcalled
    rw [b.called, mem_append, mem_singleton] at hcalled
    exact hcalled.resolve_right (hne f hf)
  · exact fun f _ => by simp only [ModuleState.entries, ModuleState.parents, b.records]

lemma specEnd_eq (s : ModuleState n V) (m : Fin n) :
    (∀ s', specExecute g script s m = (.normal, s') →
        specEnd g script s m = (.normal, specPop s' m)) ∧
      ((specExecute g script s m).1 ≠ .normal → specEnd g script s m = specExecute g script s m) := by
  unfold specEnd
  rcases specExecute g script s m with ⟨_ | error | _, s₁⟩
  · refine ⟨fun s' h => ?_, fun h => absurd rfl h⟩
    rw [mk.injEq] at h
    rw [← h.2, specPop]
    dsimp only
    split <;> rfl
  · exact ⟨fun s' h => (by cases h), fun _ => rfl⟩
  · exact ⟨fun s' h => (by cases h), fun _ => rfl⟩

/-- The end of an activation with every request behind it. -/
lemma Walking.end {s₀ : ModuleState n V} {m : Fin n}
    (h : Walking g events s path m (g.requested m) index) :
    InnerPost g events s₀ path m (specEnd g script s m).1 (specEnd g script s m).2 index := by
  have hms := h.onPath.path_stack _ mem_cons_self
  have hne : ∀ f ∈ path, f.1 ≠ m := fun f hf => h.onPath.ne_of_mem hf
  obtain ⟨hunset, hcalled, -⟩ := h.fresh _ mem_cons_self
  have bo := takeOrder_orders s m
  have hordered : (takeOrder s m).order m ≠ asyncUnset := by
    rw [bo.order_self, h.consistent.next_order hunset]
    exact Nat.succ_ne_zero _
  have hc' := h.consistent.orders bo hms hunset
  have hcount' := h.counted.orders h.consistent bo hunset
  have hpath' := h.onPath.orders bo mem_cons_self hms
  have hfresh' : Fresh (takeOrder s m) path :=
    h.fresh.tail.congr (fun f hf => bo.order_ne _ (hne f hf))
      (fun f _ hcf => by rwa [called_congr bo.calls] at hcf) fun _ _ => entries_congr bo.parents
  obtain ⟨hend, hstop⟩ := @specEnd_eq _ _ g script s m
  rcases @specExecute_cases _ _ g script s m with
    ⟨-, hex⟩ | ⟨hzero, -, ⟨result, bc⟩, hthrow⟩ | ⟨hzero, -, bc⟩
  · rw [hend _ hex]
    exact innerPost_pop hc' hcount' hpath' hfresh' fun _ => hordered
  · obtain ⟨h₁, h₂, h₃⟩ := hpath'.call hc' hcount' bc ((bo.pending m).trans hzero)
      (by rwa [called_congr bo.calls])
    rcases hex : specExecute g script s m with ⟨_ | error | _, s₁⟩ <;> rw [hex] at bc h₁ h₂ h₃
    · rw [hend _ hex]
      exact innerPost_pop h₁ h₂ h₃ (hfresh'.calls bc hne) fun _ => by
        rw [ModuleState.order, bc.records]
        exact hordered
    · exact absurd (congrArg fst hex) (hthrow error)
    · rw [hstop (by simp [hex]), hex]
      exact h₁
  · obtain ⟨h₁, h₂, h₃⟩ := h.onPath.call h.consistent h.counted bc hzero hcalled
    rcases hex : specExecute g script s m with ⟨_ | error | _, s₁⟩ <;> rw [hex] at bc h₁ h₂ h₃
    · rw [hend _ hex]
      refine innerPost_pop h₁ h₂ h₃ (h.fresh.tail.calls bc hne) fun hpos => ?_
      rw [ModuleState.pending, bc.records] at hpos
      exact absurd hzero hpos.ne'
    · rw [hstop (by simp [hex]), hex]
      refine ⟨h₁, h₂, m, .inl ?_, fun w hw => h₃.leads hw⟩
      exact ⟨⟨m, s.records, .throw error⟩, by rw [bc.calls]; simp, rfl, rfl⟩
    · rw [hstop (by simp [hex]), hex]
      exact h₁

/-! ## The walk -/

/-- What a request loop of `m` leaves behind. -/
def LoopPost (g : ModuleGraph n) (events : List (ModuleEvent n V))
    (path : List (Fin n × List (Fin n))) (m : Fin n) :
    Result V → ModuleState n V → ℕ → Prop
  | .normal, s, index => Walking g events s path m (g.requested m) index
  | .throw error, s, _ =>
    Consistent g events s ∧ Counted s [] ∧
      ∃ x, s.Threw events x error ∧ ∀ w, s.status w = .evaluating → g.Imports w x
  | .failure, s, _ => Consistent g events s

/-- The walk keeps the invariant. -/
lemma specInner_post {calls : ℕ} {m : Fin n} {result : Result V} {index' : ℕ}
    (h : specInner g script calls s index m = some (result, s', index'))
    (hc : Consistent g events s) (hcount : Counted s []) (hpath : OnPath g s path index)
    (hfresh : Fresh s path) (hm : ∀ f ∈ path.head?, m ∈ g.requested f.1) :
    InnerPost g events s path m result s' index' := by
  refine specInner_rule
    (fun s index m result s' index' => ∀ path, Consistent g events s → Counted s [] →
      OnPath g s path index → Fresh s path → (∀ f ∈ path.head?, m ∈ g.requested f.1) →
      InnerPost g events s path m result s' index')
    (fun m done rest s index result s' index' => ∀ path, done ++ rest = g.requested m →
      Walking g events s path m done index → LoopPost g events path m result s' index')
    ?_ ?_ ?_ ?_ ?_ ?_ calls s index m result s' index' h path hc hcount hpath hfresh hm
  case refine_1 =>
    -- The module is not linked: it reports its error, or there is nothing to do.
    intro s index m hst path hc hcount hpath hfresh hm
    by_cases herr : s.status m ≠ .evaluating ∧ s.errored m = true
    · rw [specVisited, if_pos herr]
      obtain ⟨x, hmx, hx⟩ := hc.threw m herr.2
      refine ⟨hc, hcount, x, hx, fun w hw => ?_⟩
      cases path with
      | nil =>
        obtain ⟨f, hf, -⟩ := hpath.up w hw
        exact absurd hf not_mem_nil
      | cons f rest =>
        exact ((hpath.leads hw).trans (ModuleGraph.imports_of_mem (hm f rfl))).trans hmx
    · rw [specVisited, if_neg herr]
      exact ⟨hc, hcount, hfresh, .inl ⟨hpath, hst, fun hl => absurd hl hst⟩⟩
  case refine_2 =>
    -- The module is entered, and ends once its request loop is done.
    intro s index m result s' index' hst hloop path hc hcount hpath hfresh hm
    have b := specBegin_begins index hst
    have hc' := hc.begins b
    have hlinked := hc.of_linked m hst
    have hne : ∀ f ∈ path, f.1 ≠ m := by
      rintro f hf rfl
      have := hpath.path_stack f hf
      rw [ModuleState.status, hst] at this
      cases this
    have hstart : Walking g events (specBegin s index m) path m [] (index + 1) := by
      refine ⟨hc', hcount.begins hc b, hpath.begins hc b hm, fun f hf => ?_⟩
      rw [b.order, called_congr b.calls, entries_congr b.parents]
      rcases mem_cons.mp hf with rfl | hf
      · refine ⟨hlinked.1, hlinked.2.2.2, le_of_eq (Finset.sum_eq_zero fun x _ => ?_)⟩
        rw [count_eq_zero]
        exact fun hmem => hc.parent_visited x m hmem hst
      · exact hfresh f hf
    have hpost := hloop path (nil_append _) hstart
    cases result with
    | normal => exact Walking.end hpost
    | throw error => exact hpost
    | failure => exact hpost
  case refine_3 =>
    intro m done s index path hdone hw
    rw [append_nil] at hdone
    subst hdone
    exact hw
  case refine_4 =>
    -- A nested call that stops the walk.
    intro m done required rest s index result s₁ index₁ hinner hne path hdone hw
    have hmr : required ∈ g.requested m := hdone ▸ mem_append_right _ mem_cons_self
    have hpost := hinner _ hw.consistent hw.counted hw.onPath hw.fresh
      (by rintro f ⟨⟩; exact hmr)
    cases result with
    | normal => exact absurd rfl hne
    | throw error => exact hpost
    | failure => exact hpost
  case refine_5 =>
    -- The request was evaluated with an error before.
    intro m done required rest s index s₁ index₁ result s₂ hinner hafter hne path hdone hw
    have hmr : required ∈ g.requested m := hdone ▸ mem_append_right _ mem_cons_self
    obtain ⟨hc₁, hcount₁, -, hpath₁⟩ := hinner _ hw.consistent hw.counted hw.onPath hw.fresh
      (by rintro f ⟨⟩; exact hmr)
    have hst : s₁.status required ≠ .evaluating := by
      intro hst
      rw [specAfterInner_evaluating hst, mk.injEq] at hafter
      exact hne hafter.1.symm
    have hpath₂ : OnPath g s₁ ((m, done) :: path) index₁ := by
      rcases hpath₁ with hp | hp
      · exact hp.1
      · exact absurd (hp.onPath.path_stack _ mem_cons_self) hst
    cases herr : s₁.errored (s₁.moduleCycleRoot required) with
    | false =>
      rw [specAfterInner_off hst herr, mk.injEq] at hafter
      exact absurd hafter.1.symm hne
    | true =>
      rw [specAfterInner_errored hst herr, mk.injEq] at hafter
      obtain ⟨rfl, rfl⟩ := hafter
      obtain ⟨x, hrx, hx⟩ := hc₁.threw _ herr
      refine ⟨hc₁, hcount₁, x, hx, fun w hw' => ?_⟩
      have hroot : g.Imports required (s₁.moduleCycleRoot required) := by
        by_cases hoff : s₁.Off required
        · exact (hc₁.root_off required hoff).2.2.1
        · rw [hc₁.not_off_of_none hoff]
          exact .refl required
      exact (((hpath₂.leads hw').trans (ModuleGraph.imports_of_mem hmr)).trans hroot).trans hrx
  case refine_6 =>
    -- The request goes behind the activation.
    intro m done required rest s index s₁ index₁ s₂ result s' index' hinner hafter hloop path
      hdone hw
    have hmr : required ∈ g.requested m := hdone ▸ mem_append_right _ mem_cons_self
    have hlen : done.length < (g.requested m).length := by
      rw [← hdone, length_append, length_cons]
      omega
    obtain ⟨hc₁, hcount₁, hfresh₁, hpath₁⟩ := hinner _ hw.consistent hw.counted hw.onPath
      hw.fresh (by rintro f ⟨⟩; exact hmr)
    refine hloop path (by rw [append_assoc, singleton_append, hdone]) ?_
    by_cases hst : s₁.status required = .evaluating
    · rw [specAfterInner_evaluating hst, mk.injEq] at hafter
      rw [← hafter.2]
      exact .request_stack hc₁ hcount₁ hfresh₁ (hpath₁.imp (fun hp => hp.1) id) hst hmr hlen
    · obtain ⟨hp, hlinked, -⟩ : OnPath g s₁ ((m, done) :: path) index₁ ∧
          s₁.status required ≠ .linked ∧ True := by
        rcases hpath₁ with hp | hp
        · exact ⟨hp.1, hp.2.1, trivial⟩
        · exact absurd (hp.onPath.path_stack _ mem_cons_self) hst
      have hoff : s₁.Off required := by
        rw [ModuleState.Off]
        cases hs : s₁.status required <;> simp_all
      cases herr : s₁.errored (s₁.moduleCycleRoot required) with
      | true =>
        rw [specAfterInner_errored hst herr, mk.injEq] at hafter
        cases hafter.1
      | false =>
        rw [specAfterInner_off hst herr, mk.injEq] at hafter
        rw [← hafter.2]
        exact .request_off ⟨hc₁, hcount₁, hp, hfresh₁⟩ hoff herr hmr hlen

end Oseo.ModuleEvaluation
