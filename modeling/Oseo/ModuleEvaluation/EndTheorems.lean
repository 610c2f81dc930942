import Oseo.ModuleEvaluation.StepTheorems

/-!
# The ends of modules

How modules leave the states in which others wait for them, and that the invariant
survives it: a cycle leaves the stack (`EndsCycle`), a module finishes (`Finishes`), and a
set of modules fails with one error (`Fails`).
-/

namespace Oseo.ModuleEvaluation

variable {n : ℕ} {V : Type} {g : ModuleGraph n} {events : List (ModuleEvent n V)}
  {s s' : ModuleState n V}

lemma Consistent.not_off_of_none (h : Consistent g events s) {m : Fin n} (hm : ¬s.Off m) :
    s.moduleCycleRoot m = m := by
  cases hst : s.status m with
  | linked => exact moduleCycleRoot_of_none (h.of_linked m hst).2.1
  | evaluating => exact moduleCycleRoot_of_none (h.of_stack m hst).1
  | evaluatingAsync => exact absurd (.inl hst) hm
  | evaluated => exact absurd (.inr hst) hm

/-- A module with an error is evaluated. -/
lemma Consistent.status_of_errored (h : Consistent g events s) {m : Fin n}
    (hm : s.errored m = true) : s.status m = .evaluated := by
  cases hst : s.status m with
  | linked => simp [(h.of_linked m hst).2.2.1] at hm
  | evaluating => simp [(h.of_stack m hst).2] at hm
  | evaluatingAsync => simp [(h.of_async m hst).2] at hm
  | evaluated => rfl

/-! ## The end of a cycle -/

/-- The members `U` of the cycle of `root` leave the stack. -/
structure EndsCycle (s s' : ModuleState n V) (root : Fin n) (U : Fin n → Prop) : Prop where
  status_mem : ∀ m, U m →
    s'.status m = if s.order m = asyncUnset then .evaluated else .evaluatingAsync
  status_ne : ∀ m, ¬U m → s'.status m = s.status m
  errored : ∀ m, s'.errored m = s.errored m
  evaluationError : ∀ m, s'.evaluationError m = s.evaluationError m
  root_mem : ∀ m, U m → s'.cycleRoot m = some root
  root_ne : ∀ m, ¬U m → s'.cycleRoot m = s.cycleRoot m
  order : ∀ m, s'.order m = s.order m
  parents : ∀ m, s'.parents m = s.parents m
  pending : ∀ m, s'.pending m = s.pending m
  index : ∀ m, s'.dfsIndex m = s.dfsIndex m
  ancestor : ∀ m, s'.ancestor m = s.ancestor m
  stack_suffix : s'.stack.Sublist s.stack
  mem_stack : ∀ m, m ∈ s'.stack ↔ m ∈ s.stack ∧ ¬U m
  calls : s'.calls = s.calls
  count : s'.asyncEvaluationCount = s.asyncEvaluationCount
  underflow : s'.underflow = s.underflow

/-- The members of a cycle are done: every request is in the cycle, or has finished, or is
waited for. -/
structure CycleDone (g : ModuleGraph n) (s : ModuleState n V) (root : Fin n)
    (U : Fin n → Prop) : Prop where
  root_mem : U root
  stack : ∀ m, U m → s.status m = .evaluating
  same : ∀ m, U m → g.SameCycle m root
  requests : ∀ m, U m → ∀ r ∈ g.requested m, U r ∨
    (s.Off r ∧ (s.Finished (s.moduleCycleRoot r) ∨
      (s.status (s.moduleCycleRoot r) = .evaluatingAsync ∧
        m ∈ s.parents (s.moduleCycleRoot r))))
  waiting : ∀ m, U m → ∀ x, s.Unfinished x → m ∈ s.parents x → s.order m ≠ asyncUnset
  async : ∀ m, U m → m ≠ root → s.order m ≠ asyncUnset → ∃ p ∈ s.parents m, U p
  closed : ∀ x, s.status x = .evaluating → ¬U x → ∀ m ∈ s.parents x, ¬U m

section
variable {root : Fin n} {U : Fin n → Prop}

lemma EndsCycle.unfinished (b : EndsCycle s s' root U) (d : CycleDone g s root U) (m : Fin n) :
    s'.Unfinished m ↔ s.Unfinished m := by
  rw [ModuleState.Unfinished, ModuleState.Unfinished, b.order]
  by_cases hm : U m
  · rw [b.status_mem m hm, d.stack m hm]
    by_cases ho : s.order m = asyncUnset <;> simp [ho]
  · rw [b.status_ne m hm]

section
variable (b : EndsCycle s s' root U) {m : Fin n}
include b

lemma EndsCycle.off (hm : U m) : s'.Off m := by
  rw [ModuleState.Off, b.status_mem m hm]
  split
  · exact .inr rfl
  · exact .inl rfl

lemma EndsCycle.off_iff (hm : ¬U m) :
    s'.Off m ↔ s.Off m := by
  rw [ModuleState.Off, ModuleState.Off, b.status_ne m hm]

lemma EndsCycle.moduleCycleRoot_mem (hm : U m) :
    s'.moduleCycleRoot m = root :=
  congrArg (Option.getD · m) (b.root_mem m hm)

lemma EndsCycle.moduleCycleRoot_ne (hm : ¬U m) :
    s'.moduleCycleRoot m = s.moduleCycleRoot m :=
  moduleCycleRoot_congr (b.root_ne m hm)

end

lemma CycleDone.not_mem_of_off (d : CycleDone g s root U) {m : Fin n} (hm : s.Off m) : ¬U m := by
  intro hmem
  rcases hm with hst | hst <;> simp [d.stack m hmem] at hst

lemma Consistent.endsCycle (h : Consistent g events s) (b : EndsCycle s s' root U)
    (d : CycleDone g s root U) : Consistent g events s' := by
  have hun := b.unfinished d
  have hcalled := called_congr b.calls
  have hfin : ∀ m, s.Finished m → s'.Finished m := by
    intro m hm
    have hnot := d.not_mem_of_off (.inr hm.1)
    exact ⟨(b.status_ne m hnot).trans hm.1, (b.errored m).trans hm.2⟩
  have hasync : ∀ m, s.status m = .evaluatingAsync → s'.status m = .evaluatingAsync := by
    intro m hm
    rw [b.status_ne m (d.not_mem_of_off (Or.inl hm)), hm]
  have hevaluated : ∀ m, s.status m = .evaluated → s'.status m = .evaluated := by
    intro m hm
    rw [b.status_ne m (d.not_mem_of_off (Or.inr hm)), hm]
  have hstatus : ∀ m, s'.status m ≠ .evaluated → s.status m ≠ .evaluated :=
    fun m hm hs => hm (hevaluated m hs)
  -- The roots of modules off the stack are off the stack, and stay.
  have hroot : ∀ m, s.Off m → s'.moduleCycleRoot m = s.moduleCycleRoot m ∧
      ¬U (s.moduleCycleRoot m) := by
    intro m hm
    exact ⟨b.moduleCycleRoot_ne (d.not_mem_of_off hm), d.not_mem_of_off (h.root_off m hm).1⟩
  constructor
  case stack_nodup => exact h.stack_nodup.sublist b.stack_suffix
  case mem_stack =>
    intro m
    rw [b.mem_stack, h.mem_stack]
    by_cases hm : U m
    · have := b.off hm
      simp only [hm, not_true_eq_false, and_false, false_iff]
      rcases this with hs | hs <;> simp [hs]
    · simp [hm, b.status_ne m hm]
  case of_linked =>
    intro m hm
    have hnot : ¬U m := by
      intro hmem
      rcases b.off hmem with hs | hs <;> simp [hs] at hm
    rw [b.status_ne m hnot] at hm
    rw [b.order, b.root_ne m hnot, b.errored, hcalled]
    exact h.of_linked m hm
  case of_stack =>
    intro m hm
    have hnot : ¬U m := by
      intro hmem
      rcases b.off hmem with hs | hs <;> simp [hs] at hm
    rw [b.status_ne m hnot] at hm
    rw [b.root_ne m hnot, b.errored]
    exact h.of_stack m hm
  case of_async =>
    intro m hm
    rw [b.order, b.errored]
    by_cases hmem : U m
    · rw [b.status_mem m hmem] at hm
      refine ⟨fun ho => by simp [ho] at hm, (h.of_stack m (d.stack m hmem)).2⟩
    · rw [b.status_ne m hmem] at hm
      exact h.of_async m hm
  case of_finished =>
    intro m hm
    rw [b.order]
    by_cases hmem : U m
    · have hst := hm.1
      rw [show (s'.records m).status = s'.status m from rfl, b.status_mem m hmem] at hst
      by_cases ho : s.order m = asyncUnset
      · exact .inl ho
      · simp [ho] at hst
    · exact h.of_finished m ⟨(b.status_ne m hmem).symm.trans hm.1,
        (b.errored m).symm.trans hm.2⟩
  case root_off =>
    intro m hm
    by_cases hmem : U m
    · rw [b.moduleCycleRoot_mem hmem, b.moduleCycleRoot_mem d.root_mem]
      exact ⟨b.off d.root_mem, rfl, d.same m hmem⟩
    · have hoff := (b.off_iff hmem).mp hm
      obtain ⟨h₁, h₂⟩ := hroot m hoff
      obtain ⟨h₃, h₄, h₅⟩ := h.root_off m hoff
      rw [h₁, b.off_iff h₂, b.moduleCycleRoot_ne h₂]
      exact ⟨h₃, h₄, h₅⟩
  case root_errored =>
    intro m hm
    rw [b.errored] at hm ⊢
    have hoff : s.Off m := .inr (h.status_of_errored hm)
    rw [(hroot m hoff).1]
    exact h.root_errored m hm
  case root_waits =>
    intro m hm hne her
    rw [b.parents]
    by_cases hmem : U m
    · rw [b.moduleCycleRoot_mem hmem] at hne ⊢
      have ho : s.order m ≠ asyncUnset := by
        intro ho
        rw [b.status_mem m hmem, if_pos ho] at hm
        cases hm
      obtain ⟨p, hp, hpU⟩ := d.async m hmem (Ne.symm hne) ho
      have hun' : s.Unfinished m := ⟨ho, by simp [d.stack m hmem]⟩
      refine ⟨p, hp, b.moduleCycleRoot_mem hpU, ?_⟩
      rw [b.status_mem p hpU, if_neg (d.waiting p hpU m hun' hp)]
    · rw [b.status_ne m hmem] at hm
      have hoff : s.Off m := .inl hm
      rw [(hroot m hoff).1] at hne her ⊢
      rw [b.errored] at her
      obtain ⟨p, hp, hpr, hps⟩ := h.root_waits m hm hne her
      exact ⟨p, hp, by rw [(hroot p (Or.inl hps)).1, hpr], hasync p hps⟩
  case edge =>
    intro m hm hme r hr
    rw [b.errored] at hme
    by_cases hmem : U m
    · rcases d.requests m hmem r hr with hrU | ⟨hroff, hrest⟩
      · exact .inl (by rw [b.moduleCycleRoot_mem hrU, b.moduleCycleRoot_mem hmem])
      · obtain ⟨hr₁, -⟩ := hroot r hroff
        refine .inr ?_
        rw [hr₁]
        rcases hrest with hf | ⟨ha, hp⟩
        · exact .inl (hfin _ hf)
        · have ho := d.waiting m hmem _ ⟨(h.of_async _ ha).1, by simp [ha]⟩ hp
          refine .inr ⟨?_, hasync _ ha, by rw [b.parents]; exact hp⟩
          rw [b.status_mem m hmem, if_neg ho]
    · have hoff := (b.off_iff hmem).mp hm
      have he := h.edge m hoff hme r hr
      have hr₁ : s'.moduleCycleRoot r = s.moduleCycleRoot r := by
        by_cases hro : s.Off r
        · exact (hroot r hro).1
        · -- A request that is still on the stack would be its own root.
          have hrr := h.not_off_of_none hro
          rw [ModuleState.Edge, hrr] at he
          rcases he with he | he | ⟨-, he, -⟩
          · exact absurd (he ▸ (h.root_off m hoff).1) hro
          · exact absurd (.inr he.1) hro
          · exact absurd (.inl he) hro
      rw [ModuleState.Edge, hr₁, (hroot m hoff).1]
      rcases he with he | he | ⟨hm', he, hp⟩
      · exact .inl he
      · exact .inr (.inl (hfin _ he))
      · exact .inr (.inr ⟨hasync m hm', hasync _ he, by rw [b.parents]; exact hp⟩)
  case parent_status =>
    intro x m hx hm
    have hxu := (hun x).mp hx
    rw [b.parents] at hm
    rw [b.errored, b.order, b.order]
    rcases h.parent_status x m hxu hm with hme | ⟨hms, hmo⟩
    · exact .inl hme
    · refine .inr ⟨?_, hmo⟩
      by_cases hmem : U m
      · rw [b.status_mem m hmem, if_neg (d.waiting m hmem x hxu hm)]
        exact .inl rfl
      · rw [b.status_ne m hmem]
        exact hms
  case parent_visited =>
    intro x m hm
    rw [b.parents] at hm
    by_cases hmem : U m
    · rcases b.off hmem with hs | hs <;> simp [hs]
    · rw [b.status_ne m hmem]
      exact h.parent_visited x m hm
  case parent_imports => simpa only [b.parents] using h.parent_imports
  case parent_errored =>
    intro x m hx hm
    rw [b.errored] at hx
    rw [b.parents] at hm
    exact hevaluated m (h.parent_errored x m hx hm)
  case parent_stack =>
    intro x m hx hm
    have hnot : ¬U x := by
      intro hmem
      rcases b.off hmem with hs | hs <;> simp [hs] at hx
    rw [b.status_ne x hnot] at hx
    rw [b.parents] at hm
    rw [b.status_ne m (d.closed x hx hnot m hm)]
    exact h.parent_stack x m hx hm
  case parent_order => simpa only [b.parents, b.order] using h.parent_order
  case called_nodup => rw [hcalled]; exact h.called_nodup
  case called_waits => simpa only [hcalled, hun, b.parents] using h.called_waits
  case calls_ready => rw [b.calls]; exact h.calls_ready
  case calls_kept => rw [b.calls]; exact h.calls_kept
  case errors_kept => exact h.errors_kept_congr b.calls b.errored b.evaluationError
  case order_le =>
    intro m hm
    rw [b.order, b.count]
    exact h.order_le m (hstatus m hm)
  case order_inj => simpa only [hun, b.order] using h.order_inj
  case count_le => simpa only [b.order, b.count] using h.count_le
  case threw =>
    simpa only [b.errored, b.evaluationError, ModuleState.Threw, b.calls] using h.threw
  case entries_le => intro m; rw [entries_congr b.parents]; exact h.entries_le m
  case no_underflow => rw [b.underflow]; exact h.no_underflow

end

/-! ## A module finishes -/

/-- Module `m` finishes its asynchronous evaluation. -/
structure Finishes (s s' : ModuleState n V) (m : Fin n) : Prop where
  status_self : s'.status m = .evaluated
  status_ne : ∀ y, y ≠ m → s'.status y = s.status y
  errored : ∀ y, s'.errored y = s.errored y
  evaluationError : ∀ y, s'.evaluationError y = s.evaluationError y
  cycleRoot : ∀ y, s'.cycleRoot y = s.cycleRoot y
  order_self : s'.order m = asyncDone
  order_ne : ∀ y, y ≠ m → s'.order y = s.order y
  parents : ∀ y, s'.parents y = s.parents y
  pending : ∀ y, s'.pending y = s.pending y
  stack : s'.stack = s.stack
  calls : s'.calls = s.calls
  count : s'.asyncEvaluationCount = s.asyncEvaluationCount
  underflow : s'.underflow = s.underflow

lemma asyncDone_ne_asyncUnset : asyncDone ≠ asyncUnset := by decide

/-- Only the module that finishes leaves the unfinished ones. -/
lemma Finishes.unfinished {m : Fin n} (b : Finishes s s' m) (y : Fin n) :
    s'.Unfinished y ↔ s.Unfinished y ∧ y ≠ m := by
  by_cases hy : y = m
  · rw [hy]
    simp [ModuleState.Unfinished, b.status_self]
  · rw [ModuleState.Unfinished, ModuleState.Unfinished, b.order_ne y hy, b.status_ne y hy]
    simp [hy]

theorem Consistent.finishes {m : Fin n} (h : Consistent g events s) (b : Finishes s s' m)
    (hm : s.status m = .evaluatingAsync) (hcalled : m ∈ s.called) : Consistent g events s' := by
  have hun := b.unfinished
  have hcalled' := called_congr b.calls
  have horder := (h.of_async m hm).1
  have hme := (h.of_async m hm).2
  have hroot : ∀ y, s'.moduleCycleRoot y = s.moduleCycleRoot y := fun y =>
    moduleCycleRoot_congr (b.cycleRoot y)
  -- A called module waits for nothing.
  have hnowait : ∀ x, s.Unfinished x → m ∉ s.parents x := fun x hx => h.called_waits m hcalled x hx
  have hoff : ∀ y, s'.Off y ↔ s.Off y := by
    intro y
    by_cases hy : y = m
    · rw [hy]
      simp [ModuleState.Off, b.status_self, hm]
    · rw [ModuleState.Off, ModuleState.Off, b.status_ne y hy]
  have hevaluated : ∀ y, s.status y = .evaluated → s'.status y = .evaluated := by
    intro y hy
    by_cases hym : y = m
    · rw [hym, b.status_self]
    · rw [b.status_ne y hym, hy]
  have hstatus : ∀ y, s'.status y ≠ .evaluated → y ≠ m := by
    rintro y hy rfl
    exact hy b.status_self
  have hfin : ∀ y, s.Finished y → s'.Finished y := fun y hy =>
    ⟨hevaluated y hy.1, (b.errored y).trans hy.2⟩
  have hset : ∀ y, s'.order y ≠ asyncUnset ↔ s.order y ≠ asyncUnset := by
    intro y
    by_cases hy : y = m
    · rw [hy, b.order_self]
      exact iff_of_true asyncDone_ne_asyncUnset horder
    · rw [b.order_ne y hy]
  constructor
  case stack_nodup => rw [b.stack]; exact h.stack_nodup
  case mem_stack =>
    intro y
    rw [b.stack, h.mem_stack]
    by_cases hy : y = m
    · rw [hy]
      simp [b.status_self, hm]
    · rw [b.status_ne y hy]
  case of_linked =>
    intro y hy
    have hym := hstatus y (by simp [hy])
    rw [b.status_ne y hym] at hy
    rw [b.order_ne y hym, b.cycleRoot, b.errored, hcalled']
    exact h.of_linked y hy
  case of_stack =>
    intro y hy
    rw [b.status_ne y (hstatus y (by simp [hy]))] at hy
    rw [b.cycleRoot, b.errored]
    exact h.of_stack y hy
  case of_async =>
    intro y hy
    have hym := hstatus y (by simp [hy])
    rw [b.status_ne y hym] at hy
    rw [b.order_ne y hym, b.errored]
    exact h.of_async y hy
  case of_finished =>
    intro y hy
    by_cases hym : y = m
    · rw [hym]
      exact .inr b.order_self
    · rw [b.order_ne y hym]
      exact h.of_finished y ⟨(b.status_ne y hym).symm.trans hy.1, (b.errored y).symm.trans hy.2⟩
  case root_off => simpa only [hoff, hroot] using h.root_off
  case root_errored => simpa only [b.errored, hroot] using h.root_errored
  case root_waits =>
    intro y hy hne her
    have hym := hstatus y (by simp [hy])
    rw [b.status_ne y hym] at hy
    rw [hroot] at hne her ⊢
    rw [b.errored] at her
    obtain ⟨p, hp, hpr, hps⟩ := h.root_waits y hy hne her
    have hyu : s.Unfinished y := ⟨(h.of_async y hy).1, by simp [hy]⟩
    have hpm : p ≠ m := by
      rintro rfl
      exact hnowait y hyu hp
    exact ⟨p, by rw [b.parents]; exact hp, by rw [hroot, hpr], by rw [b.status_ne p hpm, hps]⟩
  case edge =>
    intro y hy hye r hr
    rw [b.errored] at hye
    rw [ModuleState.Edge, hroot, hroot, b.parents]
    rcases h.edge y ((hoff y).mp hy) hye r hr with he | he | ⟨hys, he, hp⟩
    · exact .inl he
    · exact .inr (.inl (hfin _ he))
    · have hru : s.Unfinished (s.moduleCycleRoot r) := ⟨(h.of_async _ he).1, by simp [he]⟩
      have hym : y ≠ m := by
        rintro rfl
        exact hnowait _ hru hp
      by_cases hrm : s.moduleCycleRoot r = m
      · refine .inr (.inl ?_)
        rw [hrm]
        exact ⟨b.status_self, (b.errored m).trans hme⟩
      · exact .inr (.inr ⟨by rw [b.status_ne y hym, hys], by rw [b.status_ne _ hrm, he], hp⟩)
  case parent_status =>
    intro x p hx hp
    obtain ⟨hxu, hxm⟩ := (hun x).mp hx
    rw [b.parents] at hp
    have hpm : p ≠ m := by
      rintro rfl
      exact hnowait x hxu hp
    rw [b.errored, b.status_ne p hpm, b.order_ne p hpm, b.order_ne x hxm]
    exact h.parent_status x p hxu hp
  case parent_visited =>
    intro x p hp
    rw [b.parents] at hp
    by_cases hpm : p = m
    · rw [hpm, b.status_self]
      simp
    · rw [b.status_ne p hpm]
      exact h.parent_visited x p hp
  case parent_imports => simpa only [b.parents] using h.parent_imports
  case parent_errored =>
    intro x p hx hp
    rw [b.errored] at hx
    rw [b.parents] at hp
    exact hevaluated p (h.parent_errored x p hx hp)
  case parent_stack =>
    intro x p hx hp
    have hxm := hstatus x (by simp [hx])
    rw [b.status_ne x hxm] at hx
    rw [b.parents] at hp
    have hps := h.parent_stack x p hx hp
    rw [b.status_ne p (by rintro rfl; simp [hm] at hps), hps]
  case parent_order =>
    intro x p hp
    rw [b.parents] at hp
    exact (hset x).mpr (h.parent_order x p hp)
  case called_nodup => rw [hcalled']; exact h.called_nodup
  case called_waits =>
    intro p hp x hx
    rw [hcalled'] at hp
    rw [b.parents]
    exact h.called_waits p hp x ((hun x).mp hx).1
  case calls_ready => rw [b.calls]; exact h.calls_ready
  case calls_kept => rw [b.calls]; exact h.calls_kept
  case errors_kept => exact h.errors_kept_congr b.calls b.errored b.evaluationError
  case order_le =>
    intro y hy
    have hym := hstatus y hy
    rw [b.status_ne y hym] at hy
    rw [b.order_ne y hym, b.count]
    exact h.order_le y hy
  case order_inj =>
    intro x y hx hy hxy
    obtain ⟨hx, hxm⟩ := (hun x).mp hx
    obtain ⟨hy, hym⟩ := (hun y).mp hy
    rw [b.order_ne x hxm, b.order_ne y hym] at hxy
    exact h.order_inj x y hx hy hxy
  case count_le => simpa only [hset, b.count] using h.count_le
  case threw =>
    simpa only [b.errored, b.evaluationError, ModuleState.Threw, b.calls] using h.threw
  case entries_le => intro y; rw [entries_congr b.parents]; exact h.entries_le y
  case no_underflow => rw [b.underflow]; exact h.no_underflow

/-! ## Modules fail -/

/-- The modules of `U` end with `error`. -/
structure Fails (s s' : ModuleState n V) (U : Fin n → Prop) (error : V) : Prop where
  status_mem : ∀ m, U m → s'.status m = .evaluated
  status_ne : ∀ m, ¬U m → s'.status m = s.status m
  errored_mem : ∀ m, U m → s'.errored m = true
  errored_ne : ∀ m, ¬U m → s'.errored m = s.errored m
  error_mem : ∀ m, U m → s'.evaluationError m = error
  error_ne : ∀ m, ¬U m → s'.evaluationError m = s.evaluationError m
  cycleRoot : ∀ m, s'.cycleRoot m = s.cycleRoot m
  order_set : ∀ m, s'.order m ≠ asyncUnset ↔ s.order m ≠ asyncUnset
  order_ne : ∀ m, ¬U m → s'.order m = s.order m
  parents : ∀ m, s'.parents m = s.parents m
  pending : ∀ m, s'.pending m = s.pending m
  stack_sublist : s'.stack.Sublist s.stack
  mem_stack : ∀ m, m ∈ s'.stack ↔ m ∈ s.stack ∧ ¬U m
  calls : s'.calls = s.calls
  count : s'.asyncEvaluationCount = s.asyncEvaluationCount
  underflow : s'.underflow = s.underflow

/-- Modules that fail together: the whole stack if any of it, their cycle roots, and
everything that waits for one of them. -/
structure FailClosed (g : ModuleGraph n) (events : List (ModuleEvent n V))
    (s : ModuleState n V) (U : Fin n → Prop) (error : V) : Prop where
  status : ∀ m, U m → s.status m = .evaluating ∨ s.status m = .evaluatingAsync
  stack : ∀ m, U m → s.status m = .evaluating → ∀ x, s.status x = .evaluating → U x
  parents : ∀ x, U x → ∀ m ∈ s.parents x, U m ∨ s.status m = .evaluated
  root : ∀ m, U m → U (s.moduleCycleRoot m) ∨ s.errored (s.moduleCycleRoot m) = true
  threw : ∀ m, U m → ∃ x, g.Imports m x ∧ s.Threw events x error

/-- What fails had no error before, so errors are kept. -/
lemma Fails.kept {U : Fin n → Prop} {error : V} (b : Fails s s' U error)
    (h : Consistent g events s) (d : FailClosed g events s U error) :
    ErrorsKept s.records s'.records := by
  intro m hm
  have hst := h.status_of_errored hm
  have hU : ¬U m := by
    intro hU
    rcases d.status m hU with hs | hs <;> simp [hs] at hst
  exact ⟨(b.errored_ne m hU).trans hm, b.error_ne m hU⟩

theorem Consistent.fails {U : Fin n → Prop} {error : V} (h : Consistent g events s)
    (b : Fails s s' U error) (d : FailClosed g events s U error) : Consistent g events s' := by
  have hcalled := called_congr b.calls
  have hroot : ∀ m, s'.moduleCycleRoot m = s.moduleCycleRoot m := fun m =>
    moduleCycleRoot_congr (b.cycleRoot m)
  have hnot : ∀ m, s.status m = .evaluated → ¬U m := by
    intro m hm hU
    rcases d.status m hU with hs | hs <;> simp [hs] at hm
  have hnot' : ∀ m, s'.status m ≠ .evaluated → ¬U m := fun m hm hU => hm (b.status_mem m hU)
  have hevaluated : ∀ m, s.status m = .evaluated → s'.status m = .evaluated := by
    intro m hm
    rw [b.status_ne m (hnot m hm), hm]
  have hkept := b.kept h d
  have hkept' : ∀ m, s'.errored m = false → s.errored m = false := by
    intro m hm
    by_contra herr
    simp [(hkept m (by simpa using herr)).1] at hm
  have hfin : ∀ m, s'.Finished m → ¬U m := by
    intro m hm hU
    have := hm.2
    rw [show (s'.records m).errored = s'.errored m from rfl, b.errored_mem m hU] at this
    cases this
  have hun : ∀ m, s'.Unfinished m ↔ s.Unfinished m ∧ ¬U m := by
    intro m
    rw [ModuleState.Unfinished, ModuleState.Unfinished, b.order_set]
    by_cases hU : U m
    · simp [hU, b.status_mem m hU]
    · simp [hU, b.status_ne m hU]
  -- What stays unfinished is waited for by modules that do not fail here.
  have hwaiting : ∀ x m, m ∈ s.parents x → ¬U m → s.status m ≠ .evaluated → ¬U x := by
    intro x m hm hU hs hx
    rcases d.parents x hx m hm with h' | h'
    · exact hU h'
    · exact hs h'
  constructor
  case stack_nodup => exact h.stack_nodup.sublist b.stack_sublist
  case mem_stack =>
    intro m
    rw [b.mem_stack, h.mem_stack]
    by_cases hU : U m
    · simp [hU, b.status_mem m hU]
    · simp [hU, b.status_ne m hU]
  case of_linked =>
    intro m hm
    have hU := hnot' m (by simp [hm])
    rw [b.status_ne m hU] at hm
    rw [b.order_ne m hU, b.cycleRoot, b.errored_ne m hU, hcalled]
    exact h.of_linked m hm
  case of_stack =>
    intro m hm
    have hU := hnot' m (by simp [hm])
    rw [b.status_ne m hU] at hm
    rw [b.cycleRoot, b.errored_ne m hU]
    exact h.of_stack m hm
  case of_async =>
    intro m hm
    have hU := hnot' m (by simp [hm])
    rw [b.status_ne m hU] at hm
    rw [b.order_ne m hU, b.errored_ne m hU]
    exact h.of_async m hm
  case of_finished =>
    intro m hm
    have hU := hfin m hm
    rw [b.order_ne m hU]
    exact h.of_finished m ⟨(b.status_ne m hU).symm.trans hm.1, (b.errored_ne m hU).symm.trans hm.2⟩
  case root_off =>
    -- A module that fails from the stack is its own root.
    intro m hm
    rw [hroot, hroot]
    by_cases hoff : s.Off m
    · obtain ⟨h₁, h₂, h₃⟩ := h.root_off m hoff
      refine ⟨?_, h₂, h₃⟩
      by_cases hU : U (s.moduleCycleRoot m)
      · exact .inr (b.status_mem _ hU)
      · rw [ModuleState.Off, b.status_ne _ hU]
        exact h₁
    · rw [h.not_off_of_none hoff, h.not_off_of_none hoff]
      exact ⟨hm, rfl, .refl m⟩
  case root_errored =>
    intro m hm
    rw [hroot]
    by_cases hU : U m
    · rcases d.root m hU with hr | hr
      · exact b.errored_mem _ hr
      · exact (hkept _ hr).1
    · rw [b.errored_ne m hU] at hm
      exact (hkept _ (h.root_errored m hm)).1
  case root_waits =>
    intro m hm hne her
    have hU := hnot' m (by simp [hm])
    rw [b.status_ne m hU] at hm
    rw [hroot] at hne her ⊢
    obtain ⟨p, hp, hpr, hps⟩ := h.root_waits m hm hne (hkept' _ her)
    have hpU : ¬U p := by
      intro hpU
      rcases d.root p hpU with hr | hr
      · rw [hpr] at hr
        simp [b.errored_mem _ hr] at her
      · rw [hpr] at hr
        simp [(hkept _ hr).1] at her
    exact ⟨p, by rw [b.parents]; exact hp, by rw [hroot, hpr], by rw [b.status_ne p hpU, hps]⟩
  case edge =>
    intro m hm hme r hr
    have hU : ¬U m := fun hU => by simp [b.errored_mem m hU] at hme
    have hoff : s.Off m := by
      rw [ModuleState.Off, b.status_ne m hU] at hm
      exact hm
    rw [ModuleState.Edge, hroot, hroot, b.parents]
    rcases h.edge m hoff (hkept' m hme) r hr with he | he | ⟨hms, he, hp⟩
    · exact .inl he
    · have := hnot _ he.1
      exact .inr (.inl ⟨(b.status_ne _ this).trans he.1, (b.errored_ne _ this).trans he.2⟩)
    · have hrU := hwaiting _ m hp hU (by simp [hms])
      exact .inr (.inr ⟨by rw [b.status_ne m hU, hms], by rw [b.status_ne _ hrU, he], hp⟩)
  case parent_status =>
    intro x m hx hm
    obtain ⟨hxu, hxU⟩ := (hun x).mp hx
    rw [b.parents] at hm
    by_cases hU : U m
    · exact .inl (b.errored_mem m hU)
    · rw [b.errored_ne m hU, b.status_ne m hU, b.order_ne m hU, b.order_ne x hxU]
      exact h.parent_status x m hxu hm
  case parent_visited =>
    intro x m hm
    rw [b.parents] at hm
    by_cases hU : U m
    · simp [b.status_mem m hU]
    · rw [b.status_ne m hU]
      exact h.parent_visited x m hm
  case parent_imports => simpa only [b.parents] using h.parent_imports
  case parent_errored =>
    intro x m hx hm
    rw [b.parents] at hm
    by_cases hxU : U x
    · rcases d.parents x hxU m hm with hm' | hm'
      · exact b.status_mem m hm'
      · exact hevaluated m hm'
    · rw [b.errored_ne x hxU] at hx
      exact hevaluated m (h.parent_errored x m hx hm)
  case parent_stack =>
    intro x m hx hm
    have hxU := hnot' x (by simp [hx])
    rw [b.status_ne x hxU] at hx
    rw [b.parents] at hm
    have hms := h.parent_stack x m hx hm
    have hU : ¬U m := fun hU => hxU (d.stack m hU hms x hx)
    rw [b.status_ne m hU, hms]
  case parent_order => simpa only [b.parents, b.order_set] using h.parent_order
  case called_nodup => rw [hcalled]; exact h.called_nodup
  case called_waits =>
    intro p hp x hx
    rw [hcalled] at hp
    rw [b.parents]
    exact h.called_waits p hp x ((hun x).mp hx).1
  case calls_ready => rw [b.calls]; exact h.calls_ready
  case calls_kept => rw [b.calls]; exact h.calls_kept
  case errors_kept =>
    intro c hc y hy
    rw [b.calls] at hc
    have h₁ := h.errors_kept c hc y hy
    have h₂ := hkept y h₁.1
    exact ⟨h₂.1, h₂.2.trans h₁.2⟩
  case order_le =>
    intro m hm
    have hU := hnot' m hm
    rw [b.status_ne m hU] at hm
    rw [b.order_ne m hU, b.count]
    exact h.order_le m hm
  case order_inj =>
    intro x y hx hy hxy
    obtain ⟨hx, hxU⟩ := (hun x).mp hx
    obtain ⟨hy, hyU⟩ := (hun y).mp hy
    rw [b.order_ne x hxU, b.order_ne y hyU] at hxy
    exact h.order_inj x y hx hy hxy
  case count_le => simpa only [b.order_set, b.count] using h.count_le
  case threw =>
    intro m hm
    simp only [ModuleState.Threw, b.calls]
    by_cases hU : U m
    · rw [b.error_mem m hU]
      exact d.threw m hU
    · rw [b.errored_ne m hU] at hm
      rw [b.error_ne m hU]
      exact h.threw m hm
  case entries_le => intro m; rw [entries_congr b.parents]; exact h.entries_le m
  case no_underflow => rw [b.underflow]; exact h.no_underflow

end Oseo.ModuleEvaluation
