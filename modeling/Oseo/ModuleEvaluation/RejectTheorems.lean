import Oseo.ModuleEvaluation.EvaluateTheorems

/-!
# Rejections

AsyncModuleExecutionRejected ends, and fails exactly a set of modules closed under async
parents.
-/

namespace Oseo.ModuleEvaluation

open Option
open List

variable {n : ℕ} {V : Type} {g : ModuleGraph n} {events : List (ModuleEvent n V)}
  {s s' : ModuleState n V} {error : V}

/-! ## One rejection -/

/-- A field that a rejection leaves alone. -/
lemma reject_field {α : Type} (F : ModuleRecord n V → α)
    (hF : ∀ r, F { r with
      errored := true, evaluationError := error, status := .evaluated,
      asyncEvaluationOrder := asyncDone } = F r)
    (hC : ∀ r c, F { r with topLevelCapability := c } = F r) (s : ModuleState n V) (i y : Fin n) :
    F ((moduleReject error s i).records y) = F (s.records y) := by
  rw [moduleReject, settleCapability_field F hC]
  exact update_field F s i (f := fun r => { r with
    errored := true, evaluationError := error, status := .evaluated,
    asyncEvaluationOrder := asyncDone }) (hF _) y

/-- What a rejection writes. -/
lemma reject_self {α : Type} (F : ModuleRecord n V → α)
    (hC : ∀ r c, F { r with topLevelCapability := c } = F r) (s : ModuleState n V) (i : Fin n) :
    F ((moduleReject error s i).records i) = F { s.records i with
      errored := true, evaluationError := error, status := .evaluated,
      asyncEvaluationOrder := asyncDone } := by
  rw [moduleReject, settleCapability_field F hC, ModuleState.update_records_self]

lemma reject_ne {α : Type} (F : ModuleRecord n V → α)
    (hC : ∀ r c, F { r with topLevelCapability := c } = F r) (s : ModuleState n V) {i y : Fin n}
    (hy : y ≠ i) : F ((moduleReject error s i).records y) = F (s.records y) := by
  rw [moduleReject, settleCapability_field F hC, s.update_records_of_ne _ hy]

/-- What a job does to marks, capabilities and the event loop's own fields: nothing, but
that pending capabilities may settle. -/
structure Quiet (s s' : ModuleState n V) : Prop where
  gathered : ∀ y, (s'.records y).gathered = (s.records y).gathered
  isPromise : ∀ y, (s'.records y).topLevelCapability.isPromise
    = (s.records y).topLevelCapability.isPromise
  evaluating : s'.evaluating = s.evaluating
  reactions : s'.reactions = s.reactions

lemma Quiet.refl (s : ModuleState n V) : Quiet s s := ⟨fun _ => rfl, fun _ => rfl, rfl, rfl⟩

lemma Quiet.trans {s'' : ModuleState n V} (h : Quiet s s') (h' : Quiet s' s'') : Quiet s s'' :=
  ⟨fun y => (h'.gathered y).trans (h.gathered y), fun y => (h'.isPromise y).trans (h.isPromise y),
    h'.evaluating.trans h.evaluating, h'.reactions.trans h.reactions⟩

lemma Quiet.settleCapability (s : ModuleState n V) (i : Fin n) (fulfilled : Bool) :
    Quiet s (moduleSettleCapability s i fulfilled) :=
  ⟨settleCapability_field (·.gathered) (fun _ _ => rfl) s i fulfilled,
    settleCapability_isPromise s i fulfilled, rfl, rfl⟩

lemma moduleReject_quiet (s : ModuleState n V) (i : Fin n) : Quiet s (moduleReject error s i) := by
  rw [moduleReject]
  refine .trans ?_ (.settleCapability _ i false)
  exact ⟨update_field (·.gathered) s i rfl,
    update_field (fun r => r.topLevelCapability.isPromise) s i rfl, rfl, rfl⟩

/-- No module fails. -/
lemma Fails.none (s : ModuleState n V) (error : V) : Fails s s (fun _ => False) error := by
  constructor
  case status_mem => exact fun _ hm => hm.elim
  case errored_mem => exact fun _ hm => hm.elim
  case error_mem => exact fun _ hm => hm.elim
  case order_set => exact fun _ => .rfl
  case stack_sublist => exact List.Sublist.refl _
  case mem_stack => exact fun _ => (and_iff_left id).symm
  all_goals simp

/-- One more module fails. -/
lemma Fails.reject {t : ModuleState n V} {U : Fin n → Prop} (h : Fails s t U error) {i : Fin n}
    (hstack : s.stack = []) (ho : s.order i ≠ asyncUnset) :
    Fails s (moduleReject error t i) (fun y => U y ∨ y = i) error := by
  have hnot : ∀ y, ¬(U y ∨ y = i) → ¬U y ∧ y ≠ i := fun y => not_or.mp
  constructor
  case status_mem =>
    rintro y hy
    by_cases hyi : y = i
    · subst hyi
      exact reject_self (·.status) (fun _ _ => rfl) t y
    · exact (reject_ne (·.status) (fun _ _ => rfl) t hyi).trans
        (h.status_mem y (hy.resolve_right hyi))
  case status_ne =>
    intro y hy
    exact (reject_ne (·.status) (fun _ _ => rfl) t (hnot y hy).2).trans (h.status_ne y (hnot y hy).1)
  case errored_mem =>
    rintro y hy
    by_cases hyi : y = i
    · subst hyi
      exact reject_self (·.errored) (fun _ _ => rfl) t y
    · exact (reject_ne (·.errored) (fun _ _ => rfl) t hyi).trans
        (h.errored_mem y (hy.resolve_right hyi))
  case errored_ne =>
    intro y hy
    exact (reject_ne (·.errored) (fun _ _ => rfl) t (hnot y hy).2).trans
      (h.errored_ne y (hnot y hy).1)
  case error_mem =>
    rintro y hy
    by_cases hyi : y = i
    · subst hyi
      exact reject_self (·.evaluationError) (fun _ _ => rfl) t y
    · exact (reject_ne (·.evaluationError) (fun _ _ => rfl) t hyi).trans
        (h.error_mem y (hy.resolve_right hyi))
  case error_ne =>
    intro y hy
    exact (reject_ne (·.evaluationError) (fun _ _ => rfl) t (hnot y hy).2).trans
      (h.error_ne y (hnot y hy).1)
  case cycleRoot =>
    intro y
    exact (reject_field (·.cycleRoot) (fun _ => rfl) (fun _ _ => rfl) t i y).trans (h.cycleRoot y)
  case order_set =>
    intro y
    by_cases hyi : y = i
    · subst hyi
      have hself : (moduleReject error t y).order y = asyncDone :=
        reject_self (·.asyncEvaluationOrder) (fun _ _ => rfl) t y
      rw [hself]
      exact iff_of_true asyncDone_ne_asyncUnset ho
    · have hself : (moduleReject error t i).order y = t.order y :=
        reject_ne (·.asyncEvaluationOrder) (fun _ _ => rfl) t hyi
      rw [hself]
      exact h.order_set y
  case order_ne =>
    intro y hy
    exact (reject_ne (·.asyncEvaluationOrder) (fun _ _ => rfl) t (hnot y hy).2).trans
      (h.order_ne y (hnot y hy).1)
  case parents =>
    intro y
    exact (reject_field (·.asyncParents) (fun _ => rfl) (fun _ _ => rfl) t i y).trans (h.parents y)
  case pending =>
    intro y
    exact (reject_field (·.pendingAsyncDependencies) (fun _ => rfl) (fun _ _ => rfl) t i y).trans
      (h.pending y)
  case stack_sublist => exact h.stack_sublist
  case mem_stack =>
    intro y
    have ht : (moduleReject error t i).stack = [] :=
      sublist_nil.mp (hstack ▸ h.stack_sublist)
    rw [ht, hstack]
    exact ⟨fun hy => absurd hy not_mem_nil, fun hy => hy.1⟩
  case calls => exact h.calls
  case count => exact h.count
  case underflow => exact h.underflow

/-! ## The cursor loop -/

/-- The state of the cursor loop that began at `x`. A parent of a failed module has failed,
was evaluated, is about to be reached, or is ahead of that module's cursor. -/
structure Rejecting (g : ModuleGraph n) (s : ModuleState n V) (x : Fin n) (error : V)
    (next : Option (Fin n)) (cursors : List (Fin n × ℕ)) (t : ModuleState n V)
    (U : Fin n → Prop) : Prop where
  fails : Fails s t U error
  quiet : Quiet s t
  async : ∀ u, U u → s.status u = .evaluatingAsync ∧ g.Imports u x
  start : s.status x = .evaluated ∨ U x ∨ next = some x
  of_next : ∀ p, next = some p → s.status p = .evaluated ∨
    (s.status p = .evaluatingAsync ∧ g.Imports p x)
  parents : ∀ u, U u → ∀ (i : ℕ) (p : Fin n), (s.parents u)[i]? = some p →
    U p ∨ s.status p = .evaluated ∨ next = some p ∨ ∃ k, (u, k) ∈ cursors ∧ k ≤ i
  of_cursors : ∀ c ∈ cursors, U c.1

/-- The parents of a suspended module are evaluated or suspended. -/
lemma Settling.parent_async {except : List (Fin n)} (h : Settling g events s except) {x p : Fin n}
    (hx : s.Unfinished x) (hp : p ∈ s.parents x) :
    s.status p = .evaluated ∨ s.status p = .evaluatingAsync := by
  rcases h.consistent.parent_status x p hx hp with he | ⟨hs | hs, -⟩
  · exact .inl (h.consistent.status_of_errored he)
  · exact .inr hs
  · exact absurd hs (h.no_stack p)

/-- The loop fails a set of modules that holds the parents of its members. -/
lemma Rejecting.loop {except : List (Fin n)} (h : Settling g events s except) {x : Fin n}
    {fuel : ℕ} {next : Option (Fin n)} {cursors : List (Fin n × ℕ)} {t : ModuleState n V}
    {U : Fin n → Prop} (r : Rejecting g s x error next cursors t U)
    (hrun : moduleRejectLoop error fuel next cursors t = some s') :
    ∃ U', Rejecting g s x error none [] s' U' := by
  induction fuel generalizing next cursors t U with
  | zero => cases hrun
  | succ fuel ih =>
    rw [moduleRejectLoop.eq_def] at hrun
    cases next with
    | some p =>
      dsimp only at hrun
      split at hrun
      · -- The module was evaluated before, or has failed already.
        next hst =>
        have hp : U p ∨ s.status p = .evaluated := by
          by_cases hU : U p
          · exact .inl hU
          · exact .inr ((r.fails.status_ne p hU).symm.trans hst)
        refine ih ⟨r.fails, r.quiet, r.async, ?_, (fun _ hq => by cases hq), ?_, r.of_cursors⟩ hrun
        · rcases r.start with hs | hs | hs
          · exact .inl hs
          · exact .inr (.inl hs)
          · rw [some.injEq] at hs
            subst hs
            exact hp.elim (fun hp => .inr (.inl hp)) .inl
        · intro u hu i q hq
          rcases r.parents u hu i q hq with hq' | hq' | hq' | hq'
          · exact .inl hq'
          · exact .inr (.inl hq')
          · rw [some.injEq] at hq'
            subst hq'
            exact hp.elim .inl fun hp => .inr (.inl hp)
          · exact .inr (.inr (.inr hq'))
      · -- The module fails, and its parents lie ahead.
        next hst =>
        have hpU : ¬U p := fun hU => hst (r.fails.status_mem p hU)
        have hps : s.status p ≠ .evaluated := fun hs => hst ((r.fails.status_ne p hpU).trans hs)
        obtain ⟨hasync, himp⟩ := (r.of_next p rfl).resolve_left hps
        have ho := (h.consistent.of_async p hasync).1
        refine ih (U := fun y => U y ∨ y = p) ⟨r.fails.reject h.stack ho,
          r.quiet.trans (moduleReject_quiet t p), ?_, ?_, (fun _ hq => by cases hq), ?_, ?_⟩ hrun
        · rintro u (hu | rfl)
          · exact r.async u hu
          · exact ⟨hasync, himp⟩
        · rcases r.start with hs | hs | hs
          · exact .inl hs
          · exact .inr (.inl (.inl hs))
          · rw [some.injEq] at hs
            exact .inr (.inl (.inr hs.symm))
        · rintro u hu i q hq
          by_cases hup : u = p
          · exact .inr (.inr (.inr ⟨0, by rw [hup]; exact mem_cons_self, Nat.zero_le _⟩))
          · rcases r.parents u (hu.resolve_right hup) i q hq with hq' | hq' | hq' | ⟨k, hk, hki⟩
            · exact .inl (.inl hq')
            · exact .inr (.inl hq')
            · rw [some.injEq] at hq'
              exact .inl (.inr hq'.symm)
            · exact .inr (.inr (.inr ⟨k, mem_cons_of_mem _ hk, hki⟩))
        · intro c hc
          rcases mem_cons.mp hc with rfl | hc
          · exact .inr rfl
          · exact .inl (r.of_cursors c hc)
    | none =>
      cases cursors with
      | nil =>
        rw [some.injEq] at hrun
        subst hrun
        exact ⟨U, r⟩
      | cons cursor rest =>
        obtain ⟨top, position⟩ := cursor
        dsimp only at hrun
        have htop := r.of_cursors _ mem_cons_self
        have hpar : (t.records top).asyncParents = s.parents top := r.fails.parents top
        rw [hpar] at hrun
        cases hget : (s.parents top)[position]? with
        | none =>
          rw [hget] at hrun
          refine ih ⟨r.fails, r.quiet, r.async, r.start, r.of_next, ?_,
            fun c hc => r.of_cursors c (mem_cons_of_mem _ hc)⟩ hrun
          intro u hu i q hq
          rcases r.parents u hu i q hq with hq' | hq' | hq' | ⟨k, hk, hki⟩
          · exact .inl hq'
          · exact .inr (.inl hq')
          · exact .inr (.inr (.inl hq'))
          · rcases mem_cons.mp hk with hk | hk
            · rw [Prod.mk.injEq] at hk
              obtain ⟨rfl, rfl⟩ := hk
              rw [List.getElem?_eq_none_iff] at hget
              obtain ⟨hlt, -⟩ := List.getElem?_eq_some_iff.mp hq
              omega
            · exact .inr (.inr (.inr ⟨k, hk, hki⟩))
        | some parent =>
          rw [hget] at hrun
          obtain ⟨htopasync, htopimp⟩ := r.async top htop
          have hmem : parent ∈ s.parents top := mem_of_getElem? hget
          have hun : s.Unfinished top :=
            ⟨(h.consistent.of_async top htopasync).1, by simp [htopasync]⟩
          refine ih ⟨r.fails, r.quiet, r.async, ?_, ?_, ?_, ?_⟩ hrun
          · rcases r.start with hs | hs | hs
            · exact .inl hs
            · exact .inr (.inl hs)
            · cases hs
          · intro p hp
            rw [some.injEq] at hp
            subst hp
            exact (h.parent_async hun hmem).imp id fun hs =>
              ⟨hs, (h.consistent.parent_imports top _ hmem).trans htopimp⟩
          · intro u hu i q hq
            rcases r.parents u hu i q hq with hq' | hq' | hq' | ⟨k, hk, hki⟩
            · exact .inl hq'
            · exact .inr (.inl hq')
            · cases hq'
            · rcases mem_cons.mp hk with hk | hk
              · rw [Prod.mk.injEq] at hk
                obtain ⟨rfl, rfl⟩ := hk
                rcases Nat.eq_or_lt_of_le hki with rfl | hlt
                · rw [hget, some.injEq] at hq
                  subst hq
                  exact .inr (.inr (.inl rfl))
                · exact .inr (.inr (.inr ⟨k + 1, mem_cons_self, hlt⟩))
              · exact .inr (.inr (.inr ⟨k, mem_cons_of_mem _ hk, hki⟩))
          · intro c hc
            rcases mem_cons.mp hc with rfl | hc
            · exact htop
            · exact r.of_cursors c (mem_cons_of_mem _ hc)

/-- Waiting members of a cycle lead up to its root. -/
lemma Consistent.root_mem (h : Consistent g events s) {U : Fin n → Prop}
    (hasync : ∀ u, U u → s.status u = .evaluatingAsync)
    (hclosed : ∀ u, U u → ∀ p ∈ s.parents u, U p ∨ s.status p = .evaluated) :
    ∀ u, U u → U (s.moduleCycleRoot u) ∨ s.errored (s.moduleCycleRoot u) = true := by
  have hclimb : ∀ k u, s.asyncEvaluationCount - s.order u < k → U u →
      U (s.moduleCycleRoot u) ∨ s.errored (s.moduleCycleRoot u) = true := by
    intro k
    induction k with
    | zero => exact fun u hk => absurd hk (Nat.not_lt_zero _)
    | succ k ih =>
      intro u hk hu
      by_cases hroot : s.moduleCycleRoot u = u
      · rw [hroot]
        exact .inl hu
      · by_cases herr : s.errored (s.moduleCycleRoot u) = true
        · exact .inr herr
        · have hus := hasync u hu
          obtain ⟨p, hp, hpr, hps⟩ := h.root_waits u hus hroot (by simpa using herr)
          have hpU : U p := by
            refine (hclosed u hu p hp).resolve_right fun hs => ?_
            rw [hps] at hs
            cases hs
          have hun : s.Unfinished u := ⟨(h.of_async u hus).1, by simp [hus]⟩
          have hlt : s.order u < s.order p := by
            rcases h.parent_status u p hun hp with he | ⟨-, ho⟩
            · simp [(h.of_async p hps).2] at he
            · exact ho (h.of_async p hps).1
          have := h.order_le p (by simp [hps])
          rw [← hpr]
          exact ih p (by omega) hpU
  exact fun u hu => hclimb _ u (Nat.lt_succ_self _) hu

/-- AsyncModuleExecutionRejected fails a closed set of modules, the rejected one among them
unless it was evaluated before. -/
theorem Settling.rejected {except : List (Fin n)} (h : Settling g events s except) {x : Fin n}
    {fuel : ℕ} (hx : s.status x = .evaluated ∨ s.status x = .evaluatingAsync)
    (hthrew : s.Threw events x error) (hrun : moduleAsyncRejected fuel s x error = some s') :
    ∃ U, Fails s s' U error ∧ FailClosed g events s U error ∧ Quiet s s' ∧
      (s.status x = .evaluated ∨ U x) := by
  have hstart : Rejecting g s x error (some x) [] s (fun _ => False) := by
    refine ⟨.none s error, .refl s, fun _ hu => hu.elim, .inr (.inr rfl), ?_,
      fun _ hu => hu.elim, fun _ hc => absurd hc not_mem_nil⟩
    intro p hp
    rw [some.injEq] at hp
    subst hp
    exact hx.imp id fun hs => ⟨hs, .refl x⟩
  obtain ⟨U, r⟩ := hstart.loop h hrun
  have hclosed : ∀ u, U u → ∀ p ∈ s.parents u, U p ∨ s.status p = .evaluated := by
    intro u hu p hp
    obtain ⟨i, hi⟩ := mem_iff_getElem?.mp hp
    rcases r.parents u hu i p hi with hq | hq | hq | ⟨k, hk, -⟩
    · exact .inl hq
    · exact .inr hq
    · cases hq
    · exact absurd hk not_mem_nil
  refine ⟨U, r.fails, ⟨fun u hu => .inr (r.async u hu).1, ?_, hclosed, ?_, ?_⟩, r.quiet, ?_⟩
  · exact fun u hu hs => absurd hs (h.no_stack u)
  · exact h.consistent.root_mem (fun u hu => (r.async u hu).1) hclosed
  · exact fun u hu => ⟨x, (r.async u hu).2, hthrew⟩
  · rcases r.start with hs | hs | hs
    · exact .inl hs
    · exact .inr hs
    · cases hs

/-- A rejection keeps the invariant between turns. -/
theorem Settling.fails {except : List (Fin n)} (h : Settling g events s except)
    {U : Fin n → Prop} (b : Fails s s' U error) (d : FailClosed g events s U error)
    (q : Quiet s s') : Settling g events s' except := by
  have hstatus : ∀ y, s'.status y ≠ .evaluated → s'.status y = s.status y := by
    intro y hy
    exact b.status_ne y fun hU => hy (b.status_mem y hU)
  refine ⟨h.consistent.fails b d, h.counted.fails h.consistent b d,
    q.evaluating.trans h.evaluating, ?_, fun y => (q.gathered y).trans (h.gathered y), ?_, ?_⟩
  · intro y hy
    exact h.no_stack y ((hstatus y (by simp [hy])).symm.trans hy)
  · intro y hy
    rw [q.reactions] at hy
    rw [called_congr b.calls]
    exact h.reactions y hy
  · intro y hy
    exact (q.isPromise y).trans (h.capability y ((hstatus y (by simp [hy])).symm.trans hy))

end Oseo.ModuleEvaluation
