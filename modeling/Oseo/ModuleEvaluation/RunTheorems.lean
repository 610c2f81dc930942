import Oseo.ModuleEvaluation.GatherTheorems
import Mathlib.Data.Fin.VecNotation

/-!
# Settlements and runs

The worklist loops of a settlement end, whatever the table, and running jobs one after the
other is a run of the table.
-/

namespace Oseo.ModuleEvaluation

open List
open Oseo.Library

open Option

variable {n : ℕ} {V : Type} {g : ModuleGraph n} {script : ℕ → Result V} {error : V}

/-! ## Rejections -/

/-- The visits that the modules not yet evaluated still allow. -/
def ModuleState.visitsLeft (s : ModuleState n V) : ℕ :=
  ∑ y, if (s.records y).status = .evaluated then 0 else 2 * (s.parents y).length + 2

/-- The iterations the cursor loop has left. -/
def rejectBound (next : Option (Fin n)) (cursors : List (Fin n × ℕ)) (s : ModuleState n V) : ℕ :=
  (if next.isSome then 1 else 0) +
    (cursors.map fun c => 2 * ((s.parents c.1).length - c.2) + 1).sum + s.visitsLeft

/-- A rejection leaves every parent list alone. -/
lemma moduleReject_parents (s : ModuleState n V) (i y : Fin n) :
    (moduleReject error s i).parents y = s.parents y :=
  reject_field (·.asyncParents) (fun _ => rfl) (fun _ _ => rfl) s i y

lemma moduleReject_status (s : ModuleState n V) (i y : Fin n) :
    ((moduleReject error s i).records y).status
      = if y = i then .evaluated else (s.records y).status := by
  unfold moduleReject moduleSettleCapability
  by_cases hy : y = i
  · subst hy
    simp only [ModuleState.update_records_self, if_true]
    split <;> rfl
  · rw [ModuleState.update_records_of_ne _ _ hy, ModuleState.update_records_of_ne _ _ hy,
      if_neg hy]

/-- A first visit uses up the visits of the module. -/
lemma visitsLeft_moduleReject {s : ModuleState n V} {i : Fin n}
    (hi : (s.records i).status ≠ .evaluated) :
    (moduleReject error s i).visitsLeft + (2 * (s.parents i).length + 2)
      = s.visitsLeft := by
  have hterm : ∀ y, (if (s.records y).status = .evaluated then 0
        else 2 * (s.parents y).length + 2)
      = (if ((moduleReject error s i).records y).status = .evaluated then 0
          else 2 * ((moduleReject error s i).parents y).length + 2)
        + if y = i then 2 * (s.parents i).length + 2 else 0 := by
    intro y
    rw [moduleReject_parents, moduleReject_status]
    by_cases hy : y = i
    · subst hy
      simp [hi]
    · simp [hy]
  unfold ModuleState.visitsLeft
  rw [Finset.sum_congr rfl fun y _ => hterm y, Finset.sum_add_distrib]
  simp

/-- The cursor loop ends within its bound, and leaves every parent list alone. -/
lemma moduleRejectLoop_ends (fuel : ℕ) :
    ∀ (next : Option (Fin n)) (cursors : List (Fin n × ℕ)) (s : ModuleState n V),
      rejectBound next cursors s < fuel →
      ∃ s', moduleRejectLoop error fuel next cursors s = some s' ∧
        ∀ y, s'.parents y = s.parents y := by
  induction fuel with
  | zero => exact fun _ _ _ h => absurd h (Nat.not_lt_zero _)
  | succ fuel ih =>
    intro next cursors s hfuel
    rw [moduleRejectLoop.eq_def]
    cases next with
    | some p =>
      dsimp only
      simp only [rejectBound, isSome_some, if_true] at hfuel
      split
      · refine ih none cursors s ?_
        simp only [rejectBound, isSome_none, Bool.false_eq_true, if_false]
        omega
      · next hst =>
        have hcursors : (((p, 0) :: cursors).map fun c =>
            2 * (((moduleReject error s p).parents c.1).length - c.2) + 1).sum
            = (2 * (s.parents p).length + 1) + (cursors.map fun c =>
                2 * ((s.parents c.1).length - c.2) + 1).sum := by
          simp only [moduleReject_parents, map_cons, sum_cons, Nat.sub_zero]
        have hvisits := @visitsLeft_moduleReject _ _ error s p hst
        obtain ⟨s', hrun, hpar⟩ := ih none ((p, 0) :: cursors) (moduleReject error s p) (by
          simp only [rejectBound, isSome_none, Bool.false_eq_true, if_false, hcursors]
          omega)
        exact ⟨s', hrun, fun y => (hpar y).trans (moduleReject_parents s p y)⟩
    | none =>
      cases cursors with
      | nil => exact ⟨s, rfl, fun _ => rfl⟩
      | cons cursor rest =>
        obtain ⟨top, position⟩ := cursor
        dsimp only
        simp only [rejectBound, isSome_none, Bool.false_eq_true, if_false, map_cons,
          sum_cons] at hfuel
        cases hget : (s.records top).asyncParents[position]? with
        | none =>
          refine ih none rest s ?_
          simp only [rejectBound, isSome_none, Bool.false_eq_true, if_false]
          omega
        | some parent =>
          have hlt : position < (s.parents top).length :=
            (List.getElem?_eq_some_iff.mp hget).1
          refine ih (some parent) ((top, position + 1) :: rest) s ?_
          simp only [rejectBound, isSome_some, if_true, List.map_cons, List.sum_cons]
          omega

/-- The iterations that suffice to reject any module. -/
def ModuleState.rejectFuel (s : ModuleState n V) : ℕ :=
  (∑ y, (2 * (s.parents y).length + 2)) + 2

/-- AsyncModuleExecutionRejected ends. -/
lemma moduleAsyncRejected_ends {s : ModuleState n V} {fuel : ℕ} (hfuel : s.rejectFuel ≤ fuel)
    (i : Fin n) (error : V) :
    ∃ s', moduleAsyncRejected fuel s i error = some s' ∧
      ∀ y, s'.parents y = s.parents y := by
  refine moduleRejectLoop_ends fuel (some i) [] s ?_
  have hle : s.visitsLeft ≤ ∑ y, (2 * (s.parents y).length + 2) :=
    Finset.sum_le_sum fun y _ => by split <;> omega
  simp only [rejectBound, isSome_some, if_true, map_nil, sum_nil]
  unfold ModuleState.rejectFuel at hfuel
  omega

/-! ## Gathering -/

/-- The modules not yet listed. -/
def ModuleState.ungathered (s : ModuleState n V) : Finset (Fin n) :=
  Finset.univ.filter fun y => (s.records y).gathered = false

lemma moduleDecrementPending_gathered (s : ModuleState n V) (i : Fin n) :
    (moduleDecrementPending s i).ungathered = s.ungathered := by
  refine Finset.filter_congr fun y _ => ?_
  by_cases hy : y = i
  · subst hy
    simp [moduleDecrementPending]
  · simp only [moduleDecrementPending]
    rw [s.update_records_of_ne _ hy]

/-- A visit lists a module at most once. -/
lemma moduleGatherParent_bound (q : Gathering n V) (p : Fin n) :
    (moduleGatherParent g q p).work.length + (moduleGatherParent g q p).state.ungathered.card
      ≤ q.work.length + q.state.ungathered.card := by
  unfold moduleGatherParent
  dsimp only
  split
  · exact le_refl _
  · next hskip =>
    rw [not_or] at hskip
    have hungathered := moduleDecrementPending_gathered q.state p
    split
    · have hmem : p ∈ q.state.ungathered := by
        simpa [ModuleState.ungathered] using hskip.1
      have hcard : ((moduleDecrementPending q.state p).update p fun r =>
          { r with gathered := true }).ungathered = q.state.ungathered.erase p := by
        rw [← hungathered]
        ext y
        by_cases hy : y = p
        · subst hy
          simp [ModuleState.ungathered]
        · simp only [ModuleState.ungathered, Finset.mem_filter, Finset.mem_univ, true_and,
            Finset.mem_erase, hy, ne_eq, not_false_eq_true]
          rw [ModuleState.update_records_of_ne _ _ hy]
      have hlt := Finset.card_erase_add_one hmem
      dsimp only
      rw [hcard]
      split
      · omega
      · rw [length_cons]
        omega
    · dsimp only
      rw [hungathered]

lemma moduleGatherParents_bound (parents : List (Fin n)) (q : Gathering n V) :
    (parents.foldl (moduleGatherParent g) q).work.length
        + (parents.foldl (moduleGatherParent g) q).state.ungathered.card
      ≤ q.work.length + q.state.ungathered.card := by
  induction parents generalizing q with
  | nil => exact le_refl _
  | cons p parents ih => exact (ih _).trans (moduleGatherParent_bound q p)

/-- The worklist loop ends. -/
lemma moduleGatherLoop_ends (fuel : ℕ) :
    ∀ q : Gathering n V, q.work.length + q.state.ungathered.card < fuel →
      ∃ q', moduleGatherLoop g fuel q = some q' := by
  induction fuel with
  | zero => exact fun _ h => absurd h (Nat.not_lt_zero _)
  | succ fuel ih =>
    intro q hfuel
    rw [moduleGatherLoop]
    cases hw : q.work with
    | nil => exact ⟨q, rfl⟩
    | cons module work =>
      refine ih _ (lt_of_le_of_lt (moduleGatherParents_bound _ _) ?_)
      rw [hw, length_cons] at hfuel
      dsimp only
      omega

/-- GatherAvailableAncestors ends. -/
lemma moduleGatherAvailableAncestors_ends (s : ModuleState n V) {fuel : ℕ} (hfuel : n + 2 ≤ fuel)
    (i : Fin n) : ∃ out, moduleGatherAvailableAncestors g fuel s i = some out := by
  have hcard : s.ungathered.card ≤ n := by simpa using Finset.card_le_univ s.ungathered
  obtain ⟨q', hq⟩ := moduleGatherLoop_ends (g := g) fuel ⟨s, [], [i]⟩ (by
    simp only [length_singleton]
    omega)
  exact ⟨_, by rw [moduleGatherAvailableAncestors, hq]; rfl⟩

section
variable {α : Type} (F : ModuleRecord n V → α)
  (hpending : ∀ r k, F { r with pendingAsyncDependencies := k } = F r)
  (hgathered : ∀ r, F { r with gathered := true } = F r)
include F hpending hgathered

lemma moduleGatherParent_field (q : Gathering n V) (p y : Fin n) :
    F ((moduleGatherParent g q p).state.records y) = F (q.state.records y) := by
  unfold moduleGatherParent
  dsimp only
  split
  · rfl
  · split
    · exact (update_field F _ p (f := fun r => { r with gathered := true }) (hgathered _) y).trans
        (moduleDecrementPending_field F hpending q.state p y)
    · exact moduleDecrementPending_field F hpending q.state p y

lemma moduleGatherLoop_field {fuel : ℕ} {q q' : Gathering n V}
    (hrun : moduleGatherLoop g fuel q = some q') (y : Fin n) :
    F (q'.state.records y) = F (q.state.records y) := by
  induction fuel generalizing q with
  | zero => cases hrun
  | succ fuel ih =>
    rw [moduleGatherLoop] at hrun
    cases hwork : q.work with
    | nil =>
      simp only [hwork, some.injEq] at hrun
      rw [hrun]
    | cons module work =>
      simp only [hwork] at hrun
      rw [ih hrun]
      generalize (q.state.records module).asyncParents = parents
      have hfold : ∀ (parents : List (Fin n)) (q : Gathering n V),
          F ((parents.foldl (moduleGatherParent g) q).state.records y) = F (q.state.records y) := by
        intro parents
        induction parents with
        | nil => exact fun _ => rfl
        | cons p parents ih =>
          intro q
          rw [foldl_cons, ih, moduleGatherParent_field F hpending hgathered]
      exact hfold parents _

end

/-! ## Fulfilments -/

lemma rejectFuel_congr {s s' : ModuleState n V}
    (h : ∀ y, s'.parents y = s.parents y) :
    s'.rejectFuel = s.rejectFuel := by
  simp only [ModuleState.rejectFuel, h]

lemma moduleFinish_parents (s : ModuleState n V) (i y : Fin n) :
    (moduleFinish s i).parents y = s.parents y :=
  moduleFinish_field (·.asyncParents) (fun _ => rfl) (fun _ _ => rfl) s i y

/-- A turn ends, and leaves every parent list alone. -/
lemma moduleRunGathered_ends {s : ModuleState n V} {fuel : ℕ} (hfuel : s.rejectFuel ≤ fuel)
    (i : Fin n) : ∃ result s', moduleRunGathered g script fuel s i = some (result, s') ∧
      s'.rejectFuel = s.rejectFuel := by
  unfold moduleRunGathered
  split
  · exact ⟨_, _, rfl, rfl⟩
  split
  · refine ⟨_, _, rfl, rejectFuel_congr fun y => ?_⟩
    exact congrArg (fun r => (r y).asyncParents) (records_moduleExecuteAsync s i)
  have hrecords := @records_moduleCallEvaluator _ _ script s i
  generalize moduleCallEvaluator script s i = out at hrecords
  obtain ⟨_ | error | _, s₁⟩ := out
  · refine ⟨_, _, rfl, rejectFuel_congr fun y => ?_⟩
    rw [moduleFinish_parents]
    exact congrArg (fun r => (r y).asyncParents) hrecords
  · have hsame : s₁.rejectFuel = s.rejectFuel :=
      rejectFuel_congr fun y => congrArg (fun r => (r y).asyncParents) hrecords
    obtain ⟨s', hrun, hpar⟩ := moduleAsyncRejected_ends (hsame.trans_le hfuel) i error
    exact ⟨.normal, s', by simp only [hrun, map_some],
      (rejectFuel_congr hpar).trans hsame⟩
  · exact ⟨_, _, rfl, rejectFuel_congr fun y => congrArg (fun r => (r y).asyncParents) hrecords⟩

lemma moduleRunAllGathered_ends {fuel : ℕ} (list : List (Fin n)) :
    ∀ s : ModuleState n V, s.rejectFuel ≤ fuel →
      ∃ out, moduleRunAllGathered g script fuel list s = some out := by
  induction list with
  | nil => exact fun s _ => ⟨_, rfl⟩
  | cons i list ih =>
    intro s hfuel
    obtain ⟨result, s', hrun, hkept⟩ := @moduleRunGathered_ends _ _ g script s fuel hfuel i
    rw [moduleRunAllGathered, hrun]
    cases result with
    | normal => exact ih s' (hkept.trans_le hfuel)
    | throw error => exact ⟨_, rfl⟩
    | failure => exact ⟨_, rfl⟩

/-- AsyncModuleExecutionFulfilled ends. -/
lemma moduleAsyncFulfilled_ends {s : ModuleState n V} {fuel : ℕ}
    (hfuel : n + 2 ≤ fuel ∧ s.rejectFuel ≤ fuel) (i : Fin n) :
    ∃ out, moduleAsyncFulfilled g script fuel s i = some out := by
  unfold moduleAsyncFulfilled
  split
  · exact ⟨_, rfl⟩
  · obtain ⟨⟨list, t⟩, hgather⟩ :=
      @moduleGatherAvailableAncestors_ends _ _ g (moduleFinish s i) fuel hfuel.1 i
    have hpar : ∀ y, t.parents y = s.parents y := by
      intro y
      have hg := hgather
      rw [moduleGatherAvailableAncestors, map_eq_some_iff] at hg
      obtain ⟨q', hloop, hout⟩ := hg
      cases hout
      exact (moduleClearGathered_field (·.asyncParents) (fun _ => rfl) _ _ y).trans
        ((moduleGatherLoop_field (·.asyncParents) (fun _ _ => rfl) (fun _ => rfl) hloop y).trans
          (moduleFinish_parents s i y))
    simp only [hgather]
    exact moduleRunAllGathered_ends _ t ((rejectFuel_congr hpar).trans_le hfuel.2)

/-! ## Jobs -/

lemma takeReaction_eq {i : Fin n} {own : Option V} {reactions rest : List (Fin n × Option V)}
    (h : takeReaction i reactions = some (own, rest)) :
    ∃ before after, reactions = before ++ (i, own) :: after ∧ rest = before ++ after := by
  induction reactions generalizing own rest with
  | nil => cases h
  | cons reaction reactions ih =>
    obtain ⟨x, own'⟩ := reaction
    rw [takeReaction] at h
    split at h
    · next hx =>
      rw [some.injEq, Prod.mk.injEq] at h
      exact ⟨[], reactions, by rw [hx, h.1]; rfl, h.2.symm⟩
    · obtain ⟨⟨own'', rest'⟩, htake, hout⟩ := map_eq_some_iff.mp h
      rw [Prod.mk.injEq] at hout
      obtain ⟨before, after, h₁, h₂⟩ := ih htake
      refine ⟨(x, own') :: before, after, ?_, ?_⟩
      · rw [h₁, hout.1, cons_append]
      · rw [← hout.2, h₂, cons_append]

/-- A job that runs is a step. -/
lemma moduleJob_step [DecidableEq V] {fuel : ℕ} {s s' : ModuleState n V}
    {event : ModuleEvent n V} {result : Result V}
    (h : moduleJob g script fuel s event = some (result, s')) :
    ModuleStep g script s event result s' := by
  cases event with
  | evaluate i => exact .evaluate fuel h
  | settle i settlement =>
    rw [moduleJob] at h
    cases htake : takeReaction i s.reactions with
    | none => simp [htake] at h
    | some out =>
      obtain ⟨own, reactions⟩ := out
      obtain ⟨before, after, hr, hrest⟩ := takeReaction_eq htake
      simp only [htake] at h
      subst hrest
      split at h
      · next hallowed =>
        cases settlement with
        | fulfilled =>
          cases own with
          | some error => cases hallowed
          | none => exact .fulfilled fuel hr h
        | rejected error =>
          obtain ⟨t, hrun, hout⟩ := map_eq_some_iff.mp h
          rw [Prod.mk.injEq] at hout
          obtain ⟨rfl, rfl⟩ := hout
          exact .rejected fuel hr hallowed hrun
      · cases h

/-- Jobs that run one after the other are a run. -/
lemma moduleJobs_runs [DecidableEq V] {fuel : ℕ} {events : List (ModuleEvent n V)}
    {s s' : ModuleState n V} {result : Result V}
    (h : moduleJobs g script fuel events s = some (result, s')) :
    ModuleRuns g script s events result s' := by
  induction events generalizing s with
  | nil =>
    rw [moduleJobs, some.injEq, Prod.mk.injEq] at h
    obtain ⟨rfl, rfl⟩ := h
    exact Steps.nil
  | cons event events ih =>
    rw [moduleJobs] at h
    split at h
    · next hjob =>
      exact Steps.trans (Steps.single ⟨rfl, moduleJob_step hjob⟩) (ih h)
    · cases h

/-- Jobs that run and end in a table that passes a check. -/
lemma exists_moduleRuns [DecidableEq V] (g : ModuleGraph n) (script : ℕ → Result V) (fuel : ℕ)
    (events : List (ModuleEvent n V)) (s : ModuleState n V) (check : ModuleState n V → Bool)
    (h : ((moduleJobs g script fuel events s).any fun out =>
      decide (out.1 = .normal) && check out.2) = true) :
    ∃ s', ModuleRuns g script s events .normal s' ∧ check s' = true := by
  rw [Option.any_eq_true] at h
  obtain ⟨⟨result, s'⟩, hrun, hcheck⟩ := h
  rw [Bool.and_eq_true, decide_eq_true_eq] at hcheck
  obtain ⟨rfl, hcheck⟩ := hcheck
  exact ⟨s', moduleJobs_runs hrun, hcheck⟩

/-! ## Runs of the module table

Every job keeps the invariant, so it holds along every run: what a run guarantees about
evaluator calls, errors and counters, and that Evaluate agrees with the recursion in every
table a run reaches.
-/

variable {events : List (ModuleEvent n V)} {s s' : ModuleState n V}

/-! ## Settlements -/

/-- The reaction of a settlement leaves the event loop. -/
lemma Settling.takeReaction (h : Idle g events s) {before after : List (Fin n × Option V)}
    {x : Fin n} {own : Option V} (hr : s.reactions = before ++ (x, own) :: after) :
    Idle g events { s with reactions := before ++ after } ∧ x ∈ s.called := by
  refine ⟨h.neutral ⟨fun _ => rfl, fun _ => rfl, fun _ => rfl, fun _ => rfl, fun _ => rfl,
    fun _ => rfl, rfl, rfl, rfl, rfl⟩ (fun _ => rfl) (fun _ => rfl) rfl ?_ fun _ _ => rfl, ?_⟩
  · intro y hy
    rw [hr]
    exact Sublist.subset
      (.append (.refl _) (sublist_cons_self _ _)) hy
  · refine h.reactions x ?_
    rw [hr]
    simp

/-- A called module has left the linked state. -/
lemma Settling.called_status {except : List (Fin n)} (h : Settling g events s except) {x : Fin n}
    (hx : x ∈ s.called) : s.status x = .evaluated ∨ s.status x = .evaluatingAsync := by
  cases hst : s.status x with
  | linked => exact absurd hx (h.consistent.of_linked x hst).2.2.2
  | evaluating => exact absurd hst (h.no_stack x)
  | evaluatingAsync => exact .inr rfl
  | evaluated => exact .inl rfl

/-- Between jobs, a module that has left the linked state has left the stack. -/
lemma Settling.off_of_not_linked {except : List (Fin n)} (h : Settling g events s except)
    {m : Fin n} (hm : s.status m ≠ .linked) : s.Off m := by
  have hno := h.no_stack m
  rw [ModuleState.Off]
  cases hst : s.status m with
  | linked => exact absurd hst hm
  | evaluating => exact absurd hst hno
  | evaluatingAsync => exact .inl rfl
  | evaluated => exact .inr rfl

/-- A suspended body fulfils. -/
lemma Settling.fulfilled (h : Idle g events s) {x : Fin n} (hx : x ∈ s.called) {fuel : ℕ}
    {result : Result V} (hrun : moduleAsyncFulfilled g script fuel s x = some (result, s')) :
    JobPost g events s result s' := by
  rw [moduleAsyncFulfilled] at hrun
  split at hrun
  · rw [Option.some.injEq, Prod.mk.injEq] at hrun
    obtain ⟨rfl, rfl⟩ := hrun
    exact ⟨h.consistent, fun _ => h, fun _ hy => ⟨hy, rfl⟩, fun _ hy => hy, fun _ hy => .inl hy,
      .refl s⟩
  · next hst =>
    have hasync := (h.called_status hx).resolve_left hst
    have b := moduleFinish_finishes s x
    cases hgather : moduleGatherAvailableAncestors g fuel (moduleFinish s x) x with
    | none => simp [hgather] at hrun
    | some out =>
      obtain ⟨list, t⟩ := out
      simp only [hgather] at hrun
      have hg := Gathered.intro h b (moduleFinish_quiet s x) hasync hx hgather
      have hmem : ∀ y, y ∈ moduleSortGathered t list ↔ y ∈ list := fun y =>
        mem_insertionSort _
      have hsync : ∀ y, y ∈ g.sync (moduleSortGathered t list) ↔ y ∈ g.sync list := fun y => by
        rw [ModuleGraph.mem_sync, ModuleGraph.mem_sync, hmem]
      have hs : Settling g events t (g.sync (moduleSortGathered t list)) :=
        hg.settling.congr_except fun y => waits_except_congr (fun z => (hsync z).symm) y
      have hsorted : (moduleSortGathered t list).Pairwise fun a c => t.order a ≤ t.order c := by
        exact pairwise_insertionSort _ list
      have hstatus : ∀ y ∈ list, t.status y = .evaluatingAsync := fun y hy =>
        (hg.neutral.status y).trans (hg.waiting y hy).1
      have hturns : Turns g t (moduleSortGathered t list) t.order := by
        refine ⟨(perm_insertionSort _ list).nodup_iff.mpr hg.nodup, hsorted, fun _ _ => rfl,
          fun y hy => hg.uncalled y ((hmem y).mp hy),
          fun y hy => .inl (hstatus y ((hmem y).mp hy)), ?_⟩
        intro y hy z hz hyz
        exact (hsync z).mpr (hg.awaited y ((hmem y).mp hy) z hz hyz)
      obtain ⟨hpost, hidle⟩ := hs.turns hturns hrun
      have hkept : ErrorsKept s.records t.records := fun y hy =>
        ⟨((hg.neutral.errored y).trans (b.errored y)).trans hy,
          (hg.neutral.evaluationError y).trans (b.evaluationError y)⟩
      have hcalls : CallsKept s t := (CallsKept.refl s).congr (hg.neutral.calls.trans b.calls)
      refine ⟨hpost.consistent, hidle, fun y hy => ?_, fun y hy => ?_, fun y hy => ?_,
        hcalls.trans hpost.calls hkept⟩
      · have h₁ := hkept y hy
        have h₂ := hpost.kept y h₁.1
        exact ⟨h₂.1, h₂.2.trans h₁.2⟩
      · have hl := (hg.neutral.status y).symm.trans (hpost.linked y hy)
        by_cases hyx : y = x
        · rw [hyx, b.status_self] at hl
          cases hl
        · exact (b.status_ne y hyx).symm.trans hl
      · rcases hpost.called y hy with hy | hy
        · rw [called_congr hg.neutral.calls, called_congr b.calls] at hy
          exact .inl hy
        · have herr := (hg.waiting y ((hmem y).mp hy)).2
          rw [moduleCycleRoot_congr (b.cycleRoot y), b.errored] at herr
          exact .inr herr

/-- A suspended body rejects. -/
lemma Settling.jobRejected (h : Idle g events s) {x : Fin n} (hx : x ∈ s.called) {fuel : ℕ}
    {error : V} (hev : .settle x (.rejected error) ∈ events)
    (hrun : moduleAsyncRejected fuel s x error = some s') : JobPost g events s .normal s' := by
  obtain ⟨U, b, d, q, -⟩ := h.rejected (h.called_status hx) (.inr hev) hrun
  have hidle := h.fails b d q
  refine ⟨hidle.consistent, fun _ => hidle, b.kept h.consistent d, fun y hy => ?_, fun y hy => ?_,
    (CallsKept.refl s).congr b.calls⟩
  · exact (b.status_ne y fun hU => by simp [b.status_mem y hU] at hy).symm.trans hy
  · rw [called_congr b.calls] at hy
    exact .inl hy

/-! ## Steps and runs -/

/-- One job keeps the invariant between jobs. -/
theorem Settling.step {event : ModuleEvent n V} {result : Result V} (h : Idle g events s)
    (hstep : ModuleStep g script s event result s') :
    JobPost g (events ++ [event]) s result s' := by
  have hlater : Idle g (events ++ [event]) s := { h with consistent := h.consistent.history event }
  cases hstep with
  | evaluate fuel hrun => exact (hlater.evaluate hrun).toJobPost
  | fulfilled fuel hr hrun =>
    obtain ⟨h₁, hx⟩ := hlater.takeReaction hr
    exact { h₁.fulfilled hx hrun with }
  | rejected fuel hr hown hrun =>
    obtain ⟨h₁, hx⟩ := hlater.takeReaction hr
    exact { h₁.jobRejected hx (mem_append_right _ (mem_singleton_self _)) hrun with }

section
variable {before : List (ModuleEvent n V)} {result : Result V}
  (run : ModuleRuns g script s events result s') (h : Idle g before s)
include run h

/-- The invariant along a run: between jobs, or after the job that ended it. -/
theorem ModuleRuns.invariant :
    Consistent g (before ++ events) s' ∧ (result = .normal → Idle g (before ++ events) s') :=
  Steps.invariant (I := fun past a => Consistent g past a.2 ∧ (a.1 = .normal → Idle g past a.2))
    run ⟨h.consistent, fun _ => h⟩ fun past a event b ih hstep => by
      have hpost := (ih.2 hstep.1).step hstep.2
      exact ⟨hpost.consistent, hpost.idle⟩

/-- What stays along a run: errors, and that a module which was not started while its cycle
root had an error is not started. -/
theorem ModuleRuns.kept :
    ErrorsKept s.records s'.records ∧ CallsKept s s' ∧
      ∀ m, s.errored (s.moduleCycleRoot m) = true → m ∉ s.called → m ∉ s'.called := by
  have hall := Steps.invariant
    (I := fun past a => (a.1 = .normal → Idle g past a.2) ∧ ErrorsKept s.records a.2.records ∧
      CallsKept s a.2 ∧ ∀ m, s.errored (s.moduleCycleRoot m) = true → m ∉ s.called → m ∉ a.2.called ∧
        (a.1 = .normal → a.2.errored (a.2.moduleCycleRoot m) = true))
    run ⟨fun _ => h, fun _ hy => ⟨hy, rfl⟩, .refl s, fun m hm hc => ⟨hc, fun _ => hm⟩⟩ ?_
  · exact ⟨hall.2.1, hall.2.2.1, fun m hm hc => (hall.2.2.2 m hm hc).1⟩
  · rintro past a event b ⟨hidle, hkept, hcalls, hroot⟩ ⟨ha, hstep⟩
    have hpost := (hidle ha).step hstep
    refine ⟨hpost.idle, fun y hy => ?_, hcalls.trans hpost.calls hkept, fun m hm hc => ?_⟩
    · have h₁ := hkept y hy
      have h₂ := hpost.kept y h₁.1
      exact ⟨h₂.1, h₂.2.trans h₁.2⟩
    · obtain ⟨hcalled, herr⟩ := hroot m hm hc
      have herr := herr ha
      refine ⟨fun hm' => ?_, fun hb => ?_⟩
      · rcases hpost.called m hm' with hm' | hm'
        · exact hcalled hm'
        · rw [herr] at hm'
          cases hm'
      · -- The module has left the linked state, and still imports its old root.
        have hia := hidle ha
        have hoff : a.2.Off m := by
          by_contra hoff
          rw [hia.consistent.not_off_of_none hoff] at herr
          exact hoff (.inr (hia.consistent.status_of_errored herr))
        have hib := hpost.idle hb
        have hoff' : b.2.Off m := by
          refine hib.off_of_not_linked fun hst => ?_
          rcases hoff with ho | ho <;> simp [hpost.linked m hst] at ho
        exact hib.root_errored_of_imports hoff' (hia.consistent.root_off m hoff).2.2.1
          (hpost.kept _ herr).1

end

lemma ModuleRun.idle [Inhabited V] (run : ModuleRun g script events .normal s) :
    Idle g events s :=
  (ModuleRuns.invariant run (.initial g)).2 rfl

/-- An error stands behind a request that a module makes outside its own cycle. -/
def ModuleGraph.Behind (g : ModuleGraph n) (m e : Fin n) : Prop :=
  ∃ r ∈ g.requested m, ¬g.SameCycle m r ∧ g.Imports r e

/-- No run starts a module with an error behind it, nor one that has left the linked state
and imports an error. -/
lemma ModuleRuns.not_called {before : List (ModuleEvent n V)} {result : Result V}
    (run : ModuleRuns g script s events result s') (h : Idle g before s) {m e : Fin n}
    (he : s.errored e = true)
    (hm : g.Behind m e ∨ (s.status m ≠ .linked ∧ g.Imports m e)) (hcalled : m ∉ s.called) :
    m ∉ s'.called := by
  obtain ⟨hkept, hcalls, hroot⟩ := run.kept h
  rcases hm with ⟨r, hr, hcycle, hre⟩ | ⟨hlinked, hme⟩
  · intro hm
    obtain ⟨c, hc, rfl⟩ := mem_map.mp hm
    rcases hcalls c hc with hc' | herr
    · exact hcalled (mem_map_of_mem hc')
    · -- The call found the error, and found the module that has it finished.
      have hready := (run.invariant h).1.calls_ready c hc r hr hcycle e hre
      have hfound := (herr e he).1
      rw [hready.2] at hfound
      cases hfound
  · exact hroot m (h.root_errored_of_imports (h.off_of_not_linked hlinked) hme he) hcalled

/-! ## What every run guarantees -/

/-- Only modules that were given an order have parents. -/
lemma Consistent.waits_eq (h : Consistent g events s) (m : Fin n) :
    s.waits [] m = ∑ x, if s.status x = .evaluated then 0 else (s.parents x).count m := by
  refine Finset.sum_congr rfl fun x _ => ?_
  by_cases hst : s.status x = .evaluated
  · rw [if_neg fun hx => hx.1.2 hst, if_pos hst]
  · rw [if_neg hst]
    by_cases hm : m ∈ s.parents x
    · rw [if_pos ⟨⟨h.parent_order x m hm, hst⟩, not_mem_nil⟩]
    · rw [count_eq_zero.mpr hm, ite_self]

/-- Evaluate on a linked importer of a failed module fails it, with an error that a module
it imports threw. -/
lemma Idle.evaluate_importer (h : Idle g events s) {fuel : ℕ} {m e : Fin n}
    (hrun : moduleEvaluate g script fuel s m = some (.normal, s')) (hm : s.status m = .linked)
    (hme : g.Imports m e) (he : s.errored e = true) :
    s'.errored m = true ∧ ∃ x, g.Imports m x ∧
      s'.Threw (events ++ [.evaluate m]) x (s'.evaluationError m) := by
  have hlater : Idle g (events ++ [.evaluate m]) s :=
    { h with consistent := h.consistent.history _ }
  have hpost := hlater.evaluate hrun
  have herr := hpost.errored rfl hm ⟨e, hme, he⟩
  exact ⟨herr, hpost.consistent.threw m herr⟩

/-- The safety of module evaluation: calls, errors and counters, in every table a run
reaches and in every run from there. -/
theorem ModuleRun.safe [Inhabited V] {result : Result V}
    (run : ModuleRun g script events result s) :
    s.called.Nodup ∧ (∀ c ∈ s.calls, c.Ready g) ∧ s.underflow = false ∧
      (result = .normal →
        (∀ m, s.status m = .evaluatingAsync → s.errored (s.moduleCycleRoot m) = false →
          s.pending m =
            ∑ x, if s.status x = .evaluated then 0 else (s.parents x).count m) ∧
        (∀ events' result' s', ModuleRuns g script s events' result' s' →
          ErrorsKept s.records s'.records ∧
          ∀ m e, s.errored e = true →
            g.Behind m e ∨ (s.status m ≠ .linked ∧ g.Imports m e) →
            m ∉ s.called → m ∉ s'.called) ∧
        ∀ m e, g.Imports m e → s.errored e = true →
          (s.status m ≠ .linked → s.errored (s.moduleCycleRoot m) = true) ∧
          (s.status m = .linked → ∀ fuel s',
            moduleEvaluate g script fuel s m = some (.normal, s') →
            s'.errored m = true ∧ ∃ x, g.Imports m x ∧
              s'.Threw (events ++ [.evaluate m]) x (s'.evaluationError m))) := by
  obtain ⟨hc, hidle⟩ := run.invariant (.initial g)
  refine ⟨hc.called_nodup, hc.calls_ready, hc.no_underflow, fun hnormal => ?_⟩
  have h := hidle hnormal
  refine ⟨fun m hm hroot => ?_, fun events' result' s' run' => ?_, fun m e hme he => ⟨?_, ?_⟩⟩
  · rw [← hc.waits_eq]
    exact h.counted m (.inl ⟨hm, hroot⟩)
  · exact ⟨(run'.kept h).1, fun m e he hm => run'.not_called h he hm⟩
  · exact fun hm => h.root_errored_of_imports (h.off_of_not_linked hm) hme he
  · exact fun hm fuel s' hrun => h.evaluate_importer hrun hm hme he

/-- Module 0 imports the suspended module 2 through its cycle with module 1, and the
suspended module 3. -/
def cycleOverTwo : ModuleGraph 4 where
  requested := ![[1, 3], [0, 2], [], []]
  hasTopLevelAwait := ![false, false, true, true]
  count_lt := by decide
  requested_lt := by decide

/-- Modules 0, 1 and 2 are one cycle, in which 1 and 2 wait for module 3. -/
def cycleOverOne : ModuleGraph 4 where
  requested := ![[1, 2], [0, 3], [0, 3], []]
  hasTopLevelAwait := ![false, false, false, true]
  count_lt := by decide
  requested_lt := by decide

/-- Module 0 requests 1 and 2, which both request 3. -/
def diamondOverOne : ModuleGraph 4 where
  requested := ![[1, 2], [3], [3], []]
  hasTopLevelAwait := ![false, false, false, true]
  count_lt := by decide
  requested_lt := by decide

/-- Module 0 imports modules 1 and 2. -/
def twoImports : ModuleGraph 3 where
  requested := ![[1, 2], [], []]
  hasTopLevelAwait := fun _ => false
  count_lt := by decide
  requested_lt := by decide

/-- Every job of a table outside Evaluate ends: an Evaluate call, and the reaction of any
suspended body to any settlement that its own error allows. -/
theorem ModuleStep.job_ends {s : ModuleState n V} (hev : s.evaluating = false) :
    (∀ i, ∃ result s', ModuleStep g script s (.evaluate i) result s') ∧
      ∀ (i : Fin n) (own : Option V), (i, own) ∈ s.reactions → ∀ settlement : Settlement V,
        settlement.allowed own → ∃ result s', ModuleStep g script s (.settle i settlement) result s' := by
  constructor
  · intro i
    obtain ⟨⟨result, s'⟩, -, fuel, hrun⟩ := @moduleEvaluate_eq _ _ g script s hev i
    exact ⟨result, s', .evaluate fuel (hrun fuel (le_refl _))⟩
  · intro i own hmem settlement hallowed
    obtain ⟨before, after, hr⟩ := append_of_mem hmem
    set t : ModuleState n V := { s with reactions := before ++ after } with ht
    cases settlement with
    | fulfilled =>
      cases own with
      | some error => cases hallowed
      | none =>
        obtain ⟨⟨result, s'⟩, hrun⟩ := @moduleAsyncFulfilled_ends _ _ g script t
          (max (n + 2) t.rejectFuel) ⟨le_max_left _ _, le_max_right _ _⟩ i
        exact ⟨result, s', .fulfilled _ hr hrun⟩
    | rejected error =>
      obtain ⟨s', hrun, -⟩ := moduleAsyncRejected_ends (le_refl t.rejectFuel) i error
      exact ⟨.normal, s', .rejected _ hr hallowed hrun⟩

/-- The first job of a run ends. -/
theorem ModuleStep.job_ends_initial : ∃ result s',
    ModuleStep diamondOverOne (fun _ => .throw 7) (.initial 4 ℕ) (.evaluate 0) result s' :=
  (ModuleStep.job_ends rfl).1 0

lemma ModuleRun.safe_of_two_settlements :
    ∃ s : ModuleState 4 ℕ, ModuleRun cycleOverTwo (fun _ => .normal)
      [.evaluate 0, .settle 3 (.rejected 7), .settle 2 .fulfilled] .normal s ∧
      s.called.Nodup ∧ (∀ c ∈ s.calls, c.Ready cycleOverTwo) ∧ s.underflow = false := by
  obtain ⟨s, run, -⟩ := exists_moduleRuns cycleOverTwo (fun _ => .normal) 40
    [.evaluate 0, .settle 3 (.rejected 7), .settle 2 .fulfilled] (.initial 4 ℕ) (fun _ => true)
    (by decide +kernel)
  have h := ModuleRun.safe run
  exact ⟨s, run, h.1, h.2.1, h.2.2.1⟩

/-- The rules hold up to cycles and order only. A cycle whose root failed keeps counters
that nothing decrements; a member that waits is started although another member failed
in the same job; and an importer ends with the error its walk meets first. -/
theorem ModuleRun.cycle_deviations :
    (∃ s : ModuleState 4 ℕ, ModuleRun cycleOverTwo (fun _ => .normal)
        [.evaluate 0, .settle 3 (.rejected 7), .settle 2 .fulfilled] .normal s ∧
      s.status 1 = .evaluatingAsync ∧ s.pending 1 = 1 ∧ s.waits [] 1 = 0) ∧
    (∃ s : ModuleState 4 ℕ, ModuleRun cycleOverOne (fun k => if k = 1 then .throw 7 else .normal)
        [.evaluate 0, .settle 3 .fulfilled] .normal s ∧
      cycleOverOne.Imports 2 1 ∧ ∃ c ∈ s.calls, c.module = 2 ∧ (c.records 1).errored = true) ∧
    ∃ s s' : ModuleState 3 ℕ,
      ModuleRun twoImports (fun k => if k = 0 then .throw 2 else .throw 1) [.evaluate 2] .normal s ∧
      ModuleRuns twoImports (fun k => if k = 0 then .throw 2 else .throw 1) s [.evaluate 0]
        .normal s' ∧
      twoImports.Imports 0 2 ∧ s.errored 2 = true ∧ s.status 0 = .linked ∧
      s'.errored 0 = true ∧ s'.evaluationError 0 ≠ s.evaluationError 2 := by
  refine ⟨?_, ?_, ?_⟩
  · obtain ⟨s, run, h⟩ := exists_moduleRuns cycleOverTwo (fun _ => .normal) 40
      [.evaluate 0, .settle 3 (.rejected 7), .settle 2 .fulfilled] (.initial 4 ℕ)
      (fun s => decide (s.status 1 = .evaluatingAsync ∧ s.pending 1 = 1 ∧ s.waits [] 1 = 0))
      (by decide +kernel)
    exact ⟨s, run, of_decide_eq_true h⟩
  · obtain ⟨s, run, h⟩ := exists_moduleRuns cycleOverOne
      (fun k => if k = 1 then .throw 7 else .normal) 40 [.evaluate 0, .settle 3 .fulfilled]
      (.initial 4 ℕ)
      (fun s => decide (∃ c ∈ s.calls, c.module = 2 ∧ (c.records 1).errored = true))
      (by decide +kernel)
    exact ⟨s, run, .trans (ModuleGraph.imports_of_mem (r := 0) (by decide))
      (ModuleGraph.imports_of_mem (by decide)), of_decide_eq_true h⟩
  · obtain ⟨s, run, h⟩ := exists_moduleRuns twoImports
      (fun k => if k = 0 then .throw 2 else .throw 1) 40 [.evaluate 2] (.initial 3 ℕ)
      (fun s => decide (s.errored 2 = true ∧ s.status 0 = .linked ∧
          s.evaluationError 2 = 2) &&
        ((moduleJobs twoImports (fun k => if k = 0 then .throw 2 else .throw 1) 40
          [.evaluate 0] s).any fun (out : Result ℕ × ModuleState 3 ℕ) =>
            decide (out.1 = .normal) &&
              decide (out.2.errored 0 = true ∧ out.2.evaluationError 0 = 1)))
      (by decide +kernel)
    rw [Bool.and_eq_true, decide_eq_true_eq] at h
    obtain ⟨⟨herr, hst, hval⟩, hnext⟩ := h
    obtain ⟨s', run', h'⟩ := exists_moduleRuns _ _ _ _ _
      (fun s => decide (s.errored 0 = true ∧ s.evaluationError 0 = 1)) hnext
    rw [decide_eq_true_eq] at h'
    refine ⟨s, s', run, run', ModuleGraph.imports_of_mem (by decide), herr, hst, h'.1, ?_⟩
    rw [h'.2, hval]
    decide

/-- Evaluate by frames is Evaluate by recursion, in every table a run reaches. -/
theorem ModuleRun.evaluate_eq [Inhabited V] (run : ModuleRun g script events .normal s)
    (m : Fin n) :
    ∃ out, specEvaluate g script s m = some out ∧
      ∃ fuel₀, ∀ fuel, fuel₀ ≤ fuel → moduleEvaluate g script fuel s m = some out :=
  moduleEvaluate_eq s run.idle.evaluating m

lemma ModuleRun.evaluate_eq_after_rejection :
    ∃ s : ModuleState 4 ℕ, ModuleRun cycleOverTwo (fun _ => .normal)
      [.evaluate 0, .settle 3 (.rejected 7)] .normal s ∧
      ∃ out, specEvaluate cycleOverTwo (fun _ => .normal) s 1 = some out ∧
        ∃ fuel₀, ∀ fuel, fuel₀ ≤ fuel →
          moduleEvaluate cycleOverTwo (fun _ => .normal) fuel s 1 = some out := by
  obtain ⟨s, run, -⟩ := exists_moduleRuns cycleOverTwo (fun _ => .normal) 40
    [.evaluate 0, .settle 3 (.rejected 7)] (.initial 4 ℕ) (fun _ => true) (by decide +kernel)
  exact ⟨s, run, ModuleRun.evaluate_eq run 1⟩

end Oseo.ModuleEvaluation
