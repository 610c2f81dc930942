import Oseo.Library.Countdown
import Oseo.ModuleEvaluation.RunTheorems

/-!
# The order in which ancestors are gathered

GatherAvailableAncestors as the edition has it, a recursion over the async parents, and the
proof that the worklist of `runtime_module.c` comes to the same modules and counters. Both are a
countdown of the pending dependencies (`Library.Countdown`), which comes to the same end in any
order of its visits.
-/

namespace Oseo.ModuleEvaluation

open Relation
open Function
open Option
open List
open Oseo.Library

variable {n : ℕ} {V : Type} {g : ModuleGraph n} {s s' : ModuleState n V}
  {events : List (ModuleEvent n V)}

/-! ## GatherAvailableAncestors of the edition -/

/-- What the recursion changes: the `[[PendingAsyncDependencies]]` of the modules, and `execList`. -/
structure Ancestors (n : ℕ) where
  pending : Fin n → ℕ
  execList : List (Fin n)

/-- The steps for the modules of `[[AsyncParentModules]]`, with `gather` for the recursive call.
An assertion that fails gives no result. -/
def specGatherParents (g : ModuleGraph n) (s : ModuleState n V)
    (gather : Fin n → Ancestors n → Option (Ancestors n)) :
    List (Fin n) → Ancestors n → Option (Ancestors n)
  | [], q => some q
  | m :: rest, q =>
    if m ∉ q.execList ∧ s.errored (s.moduleCycleRoot m) = false then
      -- Assert: m is evaluating-async, without an error, with an integer order, and waits.
      if s.status m = .evaluatingAsync ∧ s.errored m = false ∧ (s.records m).asyncPending ∧
          0 < q.pending m then
        let pending := Function.update q.pending m (q.pending m - 1)
        if pending m = 0 then
          let q := ⟨pending, q.execList ++ [m]⟩
          if g.hasTopLevelAwait m then specGatherParents g s gather rest q
          else (gather m q).bind (specGatherParents g s gather rest)
        else specGatherParents g s gather rest ⟨pending, q.execList⟩
      else none
    else specGatherParents g s gather rest q

/-- GatherAvailableAncestors ( module, execList ). -/
def specGatherAvailableAncestors (g : ModuleGraph n) (s : ModuleState n V) :
    ℕ → Fin n → Ancestors n → Option (Ancestors n)
  | 0, _, _ => none
  | fuel + 1, module, q =>
    specGatherParents g s (specGatherAvailableAncestors g s fuel) (s.parents module) q

/-! ## The countdown of the pending dependencies -/

/-- A module that is not gathered: its cycle root has an error. -/
def ModuleState.RootErrored (s : ModuleState n V) (m : Fin n) : Prop :=
  s.errored (s.moduleCycleRoot m) = true

instance (s : ModuleState n V) : DecidablePred s.RootErrored := fun _ =>
  inferInstanceAs (Decidable (_ = true))

/-- The visits that a gathered module makes: those of its async parents, unless it awaits. -/
def ModuleState.parentVisits (g : ModuleGraph n) (s : ModuleState n V) (m : Fin n) :
    Multiset (Fin n) :=
  if g.hasTopLevelAwait m then 0 else s.parents m

/-- The gathering as a countdown, with `rest` to visit before the parents of the worklist. -/
def Gathering.countdown (s : ModuleState n V) (q : Gathering n V) (rest : List (Fin n)) :
    Countdown (Fin n) :=
  ⟨q.state.pending, q.list.toFinset, (rest ++ q.work.flatMap s.parents : List (Fin n))⟩

/-- Visits in any order, over the table `s`. -/
abbrev GatherVisits (g : ModuleGraph n) (s : ModuleState n V) :
    Countdown (Fin n) → Countdown (Fin n) → Prop :=
  Countdown.Visits s.RootErrored (s.parentVisits g)

section
variable (hc : Consistent g events s) {q : Gathering n V} {p : Fin n} {rest : List (Fin n)}
  (h : Gathers g s q (p :: rest))
include hc h

/-- A parent that is not skipped is waiting, and its counter is not zero. -/
lemma Gathers.waiting (hroot : ¬s.RootErrored p) :
    s.Waiting p ∧ 0 < q.state.pending p := by
  have hw : s.Waiting p := by
    refine ⟨(h.rest_parents p mem_cons_self).1.resolve_left fun he => ?_, by
      simpa [ModuleState.RootErrored] using hroot⟩
    exact hroot (hc.root_errored p he)
  refine ⟨hw, ?_⟩
  have := h.counted p hw
  rw [count_cons_self] at this
  omega

/-- What the visit of one parent does. -/
structure GatherVisit (g : ModuleGraph n) (s : ModuleState n V) (q : Gathering n V) (p : Fin n)
    (q' : Gathering n V) : Prop where
  waiting : s.Waiting p
  unlisted : p ∉ q.list
  positive : 0 < q.state.pending p
  pending : q'.state.pending = Function.update q.state.pending p (q.state.pending p - 1)
  stays : q.state.pending p - 1 ≠ 0 → q'.list = q.list ∧ q'.work = q.work
  joins : q.state.pending p - 1 = 0 → q'.list = p :: q.list ∧
    q'.work = if g.hasTopLevelAwait p then q.work else p :: q.work

lemma Gathers.parent_cases :
    ((p ∈ q.list ∨ s.RootErrored p) ∧ moduleGatherParent g q p = q) ∨
      (¬s.RootErrored p ∧ GatherVisit g s q p (moduleGatherParent g q p)) := by
  have hroot : q.state.moduleCycleRoot p = s.moduleCycleRoot p :=
    moduleCycleRoot_congr (h.neutral.cycleRoot p)
  have hskip : (q.state.records p).gathered = true ∨
      (q.state.records (q.state.moduleCycleRoot p)).errored = true ↔
      p ∈ q.list ∨ s.RootErrored p := by
    have herr := h.neutral.errored (s.moduleCycleRoot p)
    rw [hroot, h.mark, ModuleState.RootErrored, ← herr]
  unfold moduleGatherParent
  dsimp only
  by_cases hmem : p ∈ q.list ∨ s.RootErrored p
  · rw [if_pos (hskip.mpr hmem)]
    exact .inl ⟨hmem, rfl⟩
  · right
    rw [if_neg (mt hskip.mp hmem)]
    rw [not_or] at hmem
    obtain ⟨hw, hpos⟩ := h.waiting hc hmem.2
    have hself := moduleDecrementPending_self hpos (h.small p hw)
    have hpending : (moduleDecrementPending q.state p).pending =
        update q.state.pending p (q.state.pending p - 1) := by
      funext y
      by_cases hy : y = p
      · rw [hy, hself, update_self]
      · rw [moduleDecrementPending_ne hy, update_of_ne hy]
    refine ⟨hmem.2, hw, hmem.1, hpos, ?_, fun hne => ?_, fun hzero => ?_⟩
    · split
      · funext y
        exact (update_field (·.pendingAsyncDependencies) (moduleDecrementPending q.state p) p
          (f := fun r => { r with gathered := true }) rfl y).trans (congrFun hpending y)
      · exact hpending
    · rw [if_neg fun heq => hne (hself.symm.trans heq)]
      exact ⟨rfl, rfl⟩
    · rw [if_pos (hself.trans hzero)]
      exact ⟨rfl, rfl⟩

/-- The visit of one parent is one visit of the countdown. -/
lemma Gathers.step :
    Countdown.Step s.RootErrored (s.parentVisits g) (q.countdown s (p :: rest))
      ((moduleGatherParent g q p).countdown s rest) := by
  refine ⟨p, (rest ++ q.work.flatMap s.parents : List (Fin n)), rfl, ?_⟩
  have hreleased : p ∈ (q.countdown s (p :: rest)).released ↔ p ∈ q.list := mem_toFinset
  unfold Countdown.visit
  rcases h.parent_cases hc with ⟨hskip, heq⟩ | ⟨hroot, hvisit⟩
  · rw [if_pos (hskip.imp_left hreleased.mpr), heq]
    rfl
  · rw [if_neg (not_or.mpr ⟨mt hreleased.mp hvisit.unlisted, hroot⟩)]
    by_cases hzero : q.state.pending p - 1 = 0
    · obtain ⟨hlist, hwork⟩ := hvisit.joins hzero
      rw [if_pos (show (q.countdown s (p :: rest)).left p - 1 = 0 from hzero)]
      unfold Gathering.countdown ModuleState.parentVisits
      rw [hlist, hwork, hvisit.pending]
      ext1
      · rfl
      · exact toFinset_cons
      · cases htla : g.hasTopLevelAwait p with
        | true => simp
        | false =>
          simp only [Bool.false_eq_true, if_false, flatMap_cons]
          rw [← Multiset.coe_add, ← Multiset.coe_add, ← Multiset.coe_add, add_left_comm]
    · obtain ⟨hlist, hwork⟩ := hvisit.stays hzero
      rw [if_neg (show ¬(q.countdown s (p :: rest)).left p - 1 = 0 from hzero)]
      unfold Gathering.countdown
      rw [hlist, hwork, hvisit.pending]

end

/-- The worklist makes the visits of its countdown. -/
lemma Gathers.visits (hc : Consistent g events s) (hno : ∀ m, s.status m ≠ .evaluating)
    {rest : List (Fin n)} {q : Gathering n V} (h : Gathers g s q rest) :
    GatherVisits g s (q.countdown s rest)
      ((rest.foldl (moduleGatherParent g) q).countdown s []) := by
  induction rest generalizing q with
  | nil => exact .refl
  | cons p rest ih => exact .head (h.step hc) (ih (h.parent hc hno))

/-- A module taken off the worklist has its parents visited next. -/
lemma Gathers.unfold {q : Gathering n V} {m : Fin n} {work rest : List (Fin n)}
    (h : Gathers g s q rest) (hwork : q.work = m :: work) :
    Gathers g s { q with work := work } (s.parents m ++ rest) := by
  refine { h with
    counted := fun y hy => ?_
    work_parents := fun w hw => h.work_parents w (hwork ▸ mem_cons_of_mem _ hw)
    rest_parents := fun p hp => ?_ }
  · have hcount := h.counted y hy
    rw [hwork, map_cons, sum_cons] at hcount
    show q.state.pending y = s.waits (g.sync q.list) y
      + (work.map fun w => (s.parents w).count y).sum + (s.parents m ++ rest).count y
    rw [count_append]
    omega
  · rcases mem_append.mp hp with hp | hp
    · exact h.work_parents m (hwork ▸ mem_cons_self) p hp
    · exact h.rest_parents p hp

lemma Gathering.countdown_unfold {q : Gathering n V} {m : Fin n} {work rest : List (Fin n)}
    (hwork : q.work = m :: work) :
    q.countdown s rest = ({ q with work := work } : Gathering n V).countdown s
      (s.parents m ++ rest) := by
  unfold Gathering.countdown
  rw [hwork, flatMap_cons]
  ext1
  · rfl
  · rfl
  · show ((rest ++ (s.parents m ++ work.flatMap s.parents) : List (Fin n)) : Multiset (Fin n)) =
      (s.parents m ++ rest ++ work.flatMap s.parents : List (Fin n))
    rw [Multiset.coe_eq_coe, ← append_assoc]
    exact perm_append_comm.append_right _

/-- The worklist loop makes all visits. -/
lemma Gathers.loop_visits (hc : Consistent g events s) (hno : ∀ m, s.status m ≠ .evaluating)
    {fuel : ℕ} {q q' : Gathering n V} (h : Gathers g s q [])
    (hrun : moduleGatherLoop g fuel q = some q') :
    GatherVisits g s (q.countdown s []) (q'.countdown s []) ∧ q'.work = [] := by
  induction fuel generalizing q with
  | zero => cases hrun
  | succ fuel ih =>
    rw [moduleGatherLoop] at hrun
    cases hwork : q.work with
    | nil =>
      simp only [hwork, some.injEq] at hrun
      subst hrun
      exact ⟨.refl, hwork⟩
    | cons module work =>
      simp only [hwork] at hrun
      have hpar : (q.state.records module).asyncParents = s.parents module :=
        h.neutral.parents module
      rw [hpar] at hrun
      have h' := h.unfold hwork
      rw [append_nil] at h'
      obtain ⟨hvisits, hend⟩ := ih (h'.parents hc hno) hrun
      refine ⟨?_, hend⟩
      rw [Gathering.countdown_unfold hwork, append_nil]
      exact .trans (h'.visits hc hno) hvisits

/-! ## The recursion makes the same visits -/

/-- What the recursion has done, as a gathering without a worklist. -/
def Gathering.ancestors (q : Gathering n V) : Ancestors n := ⟨q.state.pending, q.list.reverse⟩

lemma Consistent.asyncPending (hc : Consistent g events s) {m : Fin n} (hm : s.Waiting m) :
    (s.records m).asyncPending = true := by
  have hunset := (hc.of_async m hm.1).1
  have hle := hc.order_le m (by simp [hm.1])
  have hcount := hc.count_le
  have hcard : (Finset.univ.filter fun m => s.order m ≠ asyncUnset).card ≤ n := by
    simpa using Finset.card_filter_le (Finset.univ : Finset (Fin n)) fun m => s.order m ≠ asyncUnset
  have hlt := g.count_lt
  unfold ModuleRecord.asyncPending
  simp only [Bool.and_eq_true, bne_iff_ne]
  have hdone : s.order m < asyncDone := by omega
  exact ⟨hunset, hdone.ne⟩

/-- The recursion over some parents makes their visits, if the recursive calls do. -/
lemma Gathers.recursion_parents (hc : Consistent g events s) (hno : ∀ m, s.status m ≠ .evaluating)
    {fuel : ℕ} {gather : Fin n → Ancestors n → Option (Ancestors n)}
    (hgather : ∀ (q : Gathering n V) (m : Fin n) (rest : List (Fin n)),
      Gathers g s q (s.parents m ++ rest) → q.work = [] → n < fuel + q.list.length →
      ∃ q' : Gathering n V, gather m q.ancestors = some q'.ancestors ∧ Gathers g s q' rest ∧
        q'.work = [] ∧ q.list.length ≤ q'.list.length ∧
        GatherVisits g s (q.countdown s (s.parents m ++ rest)) (q'.countdown s rest))
    {parents rest : List (Fin n)} {q : Gathering n V} (h : Gathers g s q (parents ++ rest))
    (hwork : q.work = []) (hfuel : n < fuel + 1 + q.list.length) :
    ∃ q' : Gathering n V, specGatherParents g s gather parents q.ancestors = some q'.ancestors ∧
      Gathers g s q' rest ∧ q'.work = [] ∧ q.list.length ≤ q'.list.length ∧
      GatherVisits g s (q.countdown s (parents ++ rest)) (q'.countdown s rest) := by
  induction parents generalizing q with
  | nil => exact ⟨q, rfl, h, hwork, le_refl _, .refl⟩
  | cons p parents ih =>
    rw [cons_append] at h ⊢
    have hstep := h.step hc
    have hparent := h.parent hc hno
    rw [specGatherParents]
    rcases h.parent_cases hc with ⟨hskip, heq⟩ | ⟨hroot, hvisit⟩
    · rw [heq] at hparent hstep
      obtain ⟨q', hspec, hg, hw, hle, hvisits⟩ := ih hparent hwork hfuel
      refine ⟨q', ?_, hg, hw, hle, .head hstep hvisits⟩
      rw [if_neg, hspec]
      rintro ⟨hnew, herr⟩
      rcases hskip with hmem | hroot
      · exact hnew (mem_reverse.mpr hmem)
      · rw [ModuleState.RootErrored, herr] at hroot
        cases hroot
    · have hnew : p ∉ q.ancestors.execList ∧ s.errored (s.moduleCycleRoot p) = false :=
        ⟨mt mem_reverse.mp hvisit.unlisted, by simpa [ModuleState.RootErrored] using hroot⟩
      have hassert : s.status p = .evaluatingAsync ∧ s.errored p = false ∧
          (s.records p).asyncPending ∧ 0 < q.ancestors.pending p :=
        ⟨hvisit.waiting.1, (hc.of_async p hvisit.waiting.1).2, hc.asyncPending hvisit.waiting,
          hvisit.positive⟩
      rw [if_pos hnew, if_pos hassert]
      dsimp only
      rw [update_self]
      have hstate : ∀ list, (moduleGatherParent g q p).list = list →
          (moduleGatherParent g q p).ancestors =
            ⟨update q.ancestors.pending p (q.ancestors.pending p - 1), list.reverse⟩ := by
        rintro _ rfl
        unfold Gathering.ancestors
        rw [hvisit.pending]
      by_cases hzero : q.state.pending p - 1 = 0
      · obtain ⟨hlist, hwork'⟩ := hvisit.joins hzero
        rw [if_pos (show q.ancestors.pending p - 1 = 0 from hzero)]
        have hancestors := hstate _ hlist
        rw [reverse_cons] at hancestors
        have hlen : (moduleGatherParent g q p).list.length = q.list.length + 1 := by
          rw [hlist, length_cons]
        cases htla : g.hasTopLevelAwait p with
        | true =>
          rw [htla, hwork] at hwork'
          rw [if_pos rfl]
          obtain ⟨q', hspec, hg, hw, hle, hvisits⟩ := ih hparent hwork' (by omega)
          rw [hancestors] at hspec
          exact ⟨q', hspec, hg, hw, by omega, .head hstep hvisits⟩
        | false =>
          -- The recursive call visits the parents of `p` before the rest.
          rw [htla, hwork] at hwork'
          rw [if_neg Bool.false_ne_true]
          have hunfold := @Gathering.countdown_unfold _ _ s _ _ _ (parents ++ rest) hwork'
          obtain ⟨q₁, hspec₁, hg₁, hw₁, hle₁, hvisits₁⟩ :=
            hgather _ p (parents ++ rest) (hparent.unfold hwork') rfl (by
              show n < fuel + (moduleGatherParent g q p).list.length
              omega)
          have hle₁' : q.list.length + 1 ≤ q₁.list.length := hlen ▸ hle₁
          obtain ⟨q', hspec, hg, hw, hle, hvisits⟩ := ih hg₁ hw₁ (by omega)
          have hspec₁' : gather p ⟨update q.ancestors.pending p (q.ancestors.pending p - 1),
              q.ancestors.execList ++ [p]⟩ = some q₁.ancestors := by
            rw [← hspec₁]
            exact congrArg (gather p) hancestors.symm
          refine ⟨q', ?_, hg, hw, by omega, .head hstep ?_⟩
          · rw [hspec₁', bind_some, hspec]
          · rw [hunfold]
            exact .trans hvisits₁ hvisits
      · obtain ⟨hlist, hwork'⟩ := hvisit.stays hzero
        rw [if_neg (show ¬q.ancestors.pending p - 1 = 0 from hzero)]
        obtain ⟨q', hspec, hg, hw, hle, hvisits⟩ := ih hparent (hwork'.trans hwork) (by
          rw [hlist]
          exact hfuel)
        rw [hstate _ hlist] at hspec
        exact ⟨q', hspec, hg, hw, hlist ▸ hle, .head hstep hvisits⟩

/-- The recursion makes all visits of its module, with fuel for a chain of distinct modules. -/
lemma Gathers.recursion (hc : Consistent g events s) (hno : ∀ m, s.status m ≠ .evaluating)
    (fuel : ℕ) : ∀ (q : Gathering n V) (m : Fin n) (rest : List (Fin n)),
      Gathers g s q (s.parents m ++ rest) → q.work = [] → n < fuel + q.list.length →
      ∃ q' : Gathering n V, specGatherAvailableAncestors g s fuel m q.ancestors =
          some q'.ancestors ∧ Gathers g s q' rest ∧
        q'.work = [] ∧ q.list.length ≤ q'.list.length ∧
        GatherVisits g s (q.countdown s (s.parents m ++ rest)) (q'.countdown s rest) := by
  induction fuel with
  | zero =>
    intro q m rest h _ hfuel
    have := h.nodup.length_le_card
    rw [Fintype.card_fin] at this
    omega
  | succ fuel ih =>
    intro q m rest h hwork hfuel
    exact h.recursion_parents hc hno ih hwork hfuel

/-! ## The table after the gathering -/

/-- The table with other pending dependencies. -/
def ModuleState.withPending (s : ModuleState n V) (pending : Fin n → ℕ) : ModuleState n V :=
  { s with records := fun m => { s.records m with pendingAsyncDependencies := pending m } }

/-- The worklist leaves the table as it was, but for the counters. -/
lemma Gathers.table {fuel : ℕ} {x : Fin n} {q' : Gathering n V}
    (hgathered : ∀ y, (s.records y).gathered = false)
    (hrun : moduleGatherLoop g fuel ⟨s, [], [x]⟩ = some q') (h : Gathers g s q' []) :
    moduleClearGathered q'.list.reverse q'.state = s.withPending q'.state.pending := by
  obtain ⟨hstack, hcalls, hcount, hunderflow, hev, hreact⟩ :=
    moduleClearGathered_rest q'.list.reverse q'.state
  have hrecords : (moduleClearGathered q'.list.reverse q'.state).records =
      (s.withPending q'.state.pending).records := by
    funext y
    have hpending := moduleClearGathered_field (·.pendingAsyncDependencies) (fun _ => rfl)
      q'.list.reverse q'.state y
    have hflag : ((moduleClearGathered q'.list.reverse q'.state).records y).gathered = false := by
      by_contra hy
      obtain ⟨hnot, hmark⟩ := moduleClearGathered_gathered _ _ y (by simpa using hy)
      exact hnot (mem_reverse.mpr ((h.mark y).mp hmark))
    have hrest : ({ (moduleClearGathered q'.list.reverse q'.state).records y with
          pendingAsyncDependencies := 0, gathered := false } : ModuleRecord n V) =
        { s.records y with pendingAsyncDependencies := 0, gathered := false } :=
      (moduleClearGathered_field
        (fun r => { r with pendingAsyncDependencies := 0, gathered := false })
        (fun _ => rfl) q'.list.reverse q'.state y).trans
      (moduleGatherLoop_field
        (fun r => { r with pendingAsyncDependencies := 0, gathered := false })
        (fun _ _ => rfl) (fun _ => rfl) hrun y)
    have hold := hgathered y
    show _ = { s.records y with pendingAsyncDependencies := q'.state.pending y }
    rw [ModuleState.pending, ← hpending]
    cases hnew : (moduleClearGathered q'.list.reverse q'.state).records y
    cases hs : s.records y
    rw [hnew] at hflag hrest
    rw [hs] at hold hrest
    simp only [ModuleRecord.mk.injEq, true_and] at hflag hold hrest ⊢
    simp [hflag, hold, hrest]
  have hstack' := hstack.trans h.neutral.stack
  have hcalls' := hcalls.trans h.neutral.calls
  have hcount' := hcount.trans h.neutral.count
  have hunderflow' := hunderflow.trans h.neutral.underflow
  have hev' := hev.trans h.evaluating
  have hreact' := hreact.trans h.reactions
  cases hnew : moduleClearGathered q'.list.reverse q'.state
  rw [hnew] at hrecords hstack' hcalls' hcount' hunderflow' hev' hreact'
  dsimp only at hrecords hstack' hcalls' hcount' hunderflow' hev' hreact'
  rw [hrecords, hstack', hcalls', hcount', hunderflow', hev', hreact']
  rfl

/-! ## The turns of the gathered modules -/

/-- A rejection calls no evaluator, and what has ended stays so. -/
lemma moduleRejectLoop_kept {error : V} {fuel : ℕ} {next : Option (Fin n)}
    {cursors : List (Fin n × ℕ)} (hrun : moduleRejectLoop error fuel next cursors s = some s') :
    s'.called = s.called ∧ ∀ y, s.status y = .evaluated → s'.status y = .evaluated := by
  induction fuel generalizing next cursors s with
  | zero => cases hrun
  | succ fuel ih =>
    rw [moduleRejectLoop.eq_def] at hrun
    dsimp only at hrun
    split at hrun
    · next x =>
      split at hrun
      · exact ih hrun
      · obtain ⟨hcalled, hkept⟩ := ih hrun
        refine ⟨hcalled, fun y hy => hkept y ?_⟩
        rw [ModuleState.status, moduleReject_status]
        split
        · rfl
        · exact hy
    · split at hrun
      · rw [some.injEq] at hrun
        subst hrun
        exact ⟨rfl, fun y hy => hy⟩
      · split at hrun <;> exact ih hrun

/-- A turn calls the module's evaluator, unless the module has ended before. -/
lemma moduleRunGathered_kept {script : ℕ → Result V} {fuel : ℕ} {m : Fin n} {result : Result V}
    (hrun : moduleRunGathered g script fuel s m = some (result, s')) :
    ((s'.called = s.called ∧ s.status m = .evaluated) ∨ s'.called = s.called ++ [m]) ∧
      ∀ y, s.status y = .evaluated → s'.status y = .evaluated := by
  rw [moduleRunGathered] at hrun
  split at hrun
  · next hst =>
    rw [some.injEq, Prod.mk.injEq] at hrun
    obtain ⟨-, rfl⟩ := hrun
    exact ⟨.inl ⟨rfl, hst⟩, fun y hy => hy⟩
  split at hrun
  · rw [some.injEq] at hrun
    obtain ⟨⟨_, b⟩, -⟩ := @moduleExecuteAsync_calls _ _ script s m
    rw [hrun] at b
    exact ⟨.inr b.called, fun y hy => (b.status y).trans hy⟩
  · have b := @moduleCallEvaluator_calls _ _ script s m
    generalize moduleCallEvaluator script s m = out at hrun b
    obtain ⟨result₁, s₁⟩ := out
    cases result₁ with
    | normal =>
      simp only [some.injEq, Prod.mk.injEq] at hrun
      obtain ⟨-, rfl⟩ := hrun
      have hf := moduleFinish_finishes s₁ m
      refine ⟨.inr ((called_congr hf.calls).trans b.called), fun y hy => ?_⟩
      by_cases hym : y = m
      · rw [hym]
        exact hf.status_self
      · exact (hf.status_ne y hym).trans ((b.status y).trans hy)
    | throw error =>
      simp only [map_eq_some_iff, Prod.mk.injEq] at hrun
      obtain ⟨_, hreject, -, rfl⟩ := hrun
      obtain ⟨hcalled, hkept⟩ := moduleRejectLoop_kept hreject
      exact ⟨.inr (hcalled.trans b.called), fun y hy => hkept y ((b.status y).trans hy)⟩
    | failure =>
      simp only [some.injEq, Prod.mk.injEq] at hrun
      obtain ⟨-, rfl⟩ := hrun
      exact ⟨.inr b.called, fun y hy => (b.status y).trans hy⟩

/-- The modules run in the order of the list, without those that have ended at their turn. -/
lemma moduleRunAllGathered_called {script : ℕ → Result V} {fuel : ℕ} {list : List (Fin n)}
    {result : Result V} (hrun : moduleRunAllGathered g script fuel list s = some (result, s')) :
    ∃ ran : List (Fin n), ran.Sublist list ∧ s'.called = s.called ++ ran ∧
      (∀ y, s.status y = .evaluated → s'.status y = .evaluated) ∧
      (result = .normal → ∀ m ∈ list, m ∉ ran → s'.status m = .evaluated) := by
  induction list generalizing s with
  | nil =>
    rw [moduleRunAllGathered, some.injEq, Prod.mk.injEq] at hrun
    obtain ⟨-, rfl⟩ := hrun
    exact ⟨[], List.Sublist.refl [], (append_nil _).symm, fun y hy => hy,
      fun _ m hm => absurd hm not_mem_nil⟩
  | cons m list ih =>
    rw [moduleRunAllGathered] at hrun
    split at hrun
    · next s₁ hturn =>
      obtain ⟨hcalled₁, hkept₁⟩ := moduleRunGathered_kept hturn
      obtain ⟨ran, hsub, hcalled, hkept, hended⟩ := ih hrun
      rcases hcalled₁ with ⟨hcalled₁, hst⟩ | hcalled₁
      · refine ⟨ran, hsub.cons m, by rw [hcalled, hcalled₁], fun y hy => hkept y (hkept₁ y hy),
          fun hnormal y hy hnot => ?_⟩
        rcases mem_cons.mp hy with rfl | hy
        · exact hkept y (hkept₁ y hst)
        · exact hended hnormal y hy hnot
      · refine ⟨m :: ran, hsub.cons_cons m, by rw [hcalled, hcalled₁, append_assoc]; rfl,
          fun y hy => hkept y (hkept₁ y hy), fun hnormal y hy hnot => ?_⟩
        rw [mem_cons, not_or] at hnot
        exact hended hnormal y ((mem_cons.mp hy).resolve_left hnot.1) hnot.2
    · next hturn =>
      obtain ⟨hcalled₁, hkept₁⟩ := moduleRunGathered_kept hrun
      have hresult : result ≠ .normal := by
        rintro rfl
        exact hturn s' hrun
      rcases hcalled₁ with ⟨hcalled₁, -⟩ | hcalled₁
      · exact ⟨[], nil_sublist _, by rw [hcalled₁, append_nil], hkept₁,
          fun hnormal => absurd hnormal hresult⟩
      · exact ⟨[m], singleton_sublist.mpr mem_cons_self, hcalled₁, hkept₁,
          fun hnormal => absurd hnormal hresult⟩

lemma Consistent.order_inj_waiting (hc : Consistent g events s) {a b : Fin n} (ha : s.Waiting a)
    (hb : s.Waiting b) (heq : s.order a = s.order b) : a = b :=
  hc.order_inj a b ⟨(hc.of_async a ha.1).1, by simp [ha.1]⟩
    ⟨(hc.of_async b hb.1).1, by simp [hb.1]⟩ heq

/-- The gathered modules by increasing order. -/
lemma moduleSortGathered_increasing (hc : Consistent g events s) {list : List (Fin n)}
    (hnodup : list.Nodup) (hwaiting : ∀ m ∈ list, s.Waiting m) (t : ModuleState n V)
    (horder : t.order = s.order) :
    (moduleSortGathered t list).Perm list ∧
      (moduleSortGathered t list).Pairwise fun a b => s.order a < s.order b := by
  have hperm : (moduleSortGathered t list).Perm list := perm_insertionSort _ list
  refine ⟨hperm, ?_⟩
  have hsorted : (moduleSortGathered t list).Pairwise fun a b => t.order a ≤ t.order b := by
    exact pairwise_insertionSort _ list
  have hne : (moduleSortGathered t list).Pairwise (· ≠ ·) := hperm.nodup_iff.mpr hnodup
  refine (hsorted.and hne).imp_of_mem fun {a b} ha hb h => ?_
  rw [horder] at h
  refine lt_of_le_of_ne h.1 fun heq => h.2 ?_
  exact hc.order_inj_waiting (hwaiting a (hperm.mem_iff.mp ha)) (hwaiting b (hperm.mem_iff.mp hb)) heq

/-! ## Fuel -/

lemma moduleGatherLoop_mono {fuel fuel' : ℕ} (hle : fuel ≤ fuel') {q q' : Gathering n V}
    (hrun : moduleGatherLoop g fuel q = some q') : moduleGatherLoop g fuel' q = some q' := by
  induction fuel generalizing fuel' q with
  | zero => cases hrun
  | succ fuel ih =>
    obtain ⟨fuel', rfl⟩ : ∃ k, fuel' = k + 1 := ⟨fuel' - 1, by omega⟩
    rw [moduleGatherLoop] at hrun ⊢
    cases hwork : q.work with
    | nil =>
      simp only [hwork] at hrun ⊢
      exact hrun
    | cons module work =>
      simp only [hwork] at hrun ⊢
      exact ih (by omega) hrun

lemma specGatherParents_mono {gather gather' : Fin n → Ancestors n → Option (Ancestors n)}
    (hgather : ∀ m q q', gather m q = some q' → gather' m q = some q') {parents : List (Fin n)}
    {q q' : Ancestors n} (hrun : specGatherParents g s gather parents q = some q') :
    specGatherParents g s gather' parents q = some q' := by
  induction parents generalizing q with
  | nil => exact hrun
  | cons m parents ih =>
    rw [specGatherParents] at hrun ⊢
    by_cases hnew : m ∉ q.execList ∧ s.errored (s.moduleCycleRoot m) = false
    · rw [if_pos hnew] at hrun ⊢
      by_cases hassert : s.status m = .evaluatingAsync ∧ s.errored m = false ∧
          (s.records m).asyncPending ∧ 0 < q.pending m
      · rw [if_pos hassert] at hrun ⊢
        by_cases hzero : update q.pending m (q.pending m - 1) m = 0
        · rw [if_pos hzero] at hrun ⊢
          by_cases htla : g.hasTopLevelAwait m = true
          · rw [if_pos htla] at hrun ⊢
            exact ih hrun
          · rw [if_neg htla] at hrun ⊢
            obtain ⟨q₁, hq₁, hrest⟩ := bind_eq_some_iff.mp hrun
            rw [hgather _ _ _ hq₁, bind_some]
            exact ih hrest
        · rw [if_neg hzero] at hrun ⊢
          exact ih hrun
      · rw [if_neg hassert] at hrun
        cases hrun
    · rw [if_neg hnew] at hrun ⊢
      exact ih hrun

lemma specGatherAvailableAncestors_mono {fuel fuel' : ℕ} (hle : fuel ≤ fuel') {m : Fin n}
    {q q' : Ancestors n} (hrun : specGatherAvailableAncestors g s fuel m q = some q') :
    specGatherAvailableAncestors g s fuel' m q = some q' := by
  induction fuel generalizing fuel' m q q' with
  | zero => cases hrun
  | succ fuel ih =>
    obtain ⟨fuel', rfl⟩ : ∃ k, fuel' = k + 1 := ⟨fuel' - 1, by omega⟩
    exact specGatherParents_mono (fun _ _ _ h => ih (by omega) h) hrun

/-! ## A module that finishes asynchronously -/

/-- In every run, when the body of `index` fulfils: the worklist gathers the modules that the
edition's recursion gathers (`spec`) and leaves the same pending dependencies, and nothing else
changed; so does every order of the visits; and the gathered modules then run by increasing
`[[AsyncEvaluationOrder]]`, but for those that have ended when their turn comes. -/
theorem ModuleRun.gather_eq [Inhabited V] {script : ℕ → Result V}
    (run : ModuleRun g script events .normal s) {index : Fin n}
    {before after : List (Fin n × Option V)} (hr : s.reactions = before ++ (index, none) :: after)
    (hstatus : s.status index ≠ .evaluated) :
    let s₀ := { s with reactions := before ++ after }
    let t := moduleFinish s₀ index
    ∃ list spec fuel₀, (∀ fuel, fuel₀ ≤ fuel →
        specGatherAvailableAncestors g t fuel index ⟨t.pending, []⟩ = some spec ∧
        moduleGatherAvailableAncestors g fuel t index =
          some (list, t.withPending spec.pending) ∧
        moduleAsyncFulfilled g script fuel s₀ index = moduleRunAllGathered g script fuel
          (moduleSortGathered (t.withPending spec.pending) list) (t.withPending spec.pending)) ∧
      list.Perm spec.execList ∧ list.Nodup ∧
      (∀ c, GatherVisits g t ⟨t.pending, ∅, t.parents index⟩ c → c.visits = 0 →
        c.released = list.toFinset ∧ c.left = spec.pending) ∧
      (moduleSortGathered (t.withPending spec.pending) list).Perm list ∧
      (moduleSortGathered (t.withPending spec.pending) list).Pairwise
        (fun a b => t.order a < t.order b) ∧
      ∀ fuel result s', moduleAsyncFulfilled g script fuel s₀ index = some (result, s') →
        ∃ ran : List (Fin n),
          ran.Sublist (moduleSortGathered (t.withPending spec.pending) list) ∧
          s'.called = s.called ++ ran ∧
          (result = .normal → ∀ m ∈ list, m ∉ ran → s'.status m = .evaluated) := by
  intro s₀ t
  obtain ⟨h₀, hcalled⟩ : Idle g events s₀ ∧ index ∈ s.called := run.idle.takeReaction hr
  have hasync : s₀.status index = .evaluatingAsync := (h₀.called_status hcalled).resolve_left hstatus
  have b : Finishes s₀ t index := moduleFinish_finishes s₀ index
  have hquiet : Quiet s₀ t := moduleFinish_quiet s₀ index
  have hc := h₀.consistent.finishes b hasync hcalled
  have hno : ∀ y, t.status y ≠ .evaluating := by
    intro y hy
    have hyi : y ≠ index := by
      rintro rfl
      rw [b.status_self] at hy
      cases hy
    exact h₀.no_stack y ((b.status_ne y hyi).symm.trans hy)
  have hstart := Gathers.start h₀ b hquiet hasync hcalled
  have hfirst : Gathering.countdown t ⟨t, [], [index]⟩ [] = ⟨t.pending, ∅, t.parents index⟩ := by
    unfold Gathering.countdown
    simp
  -- The worklist.
  obtain ⟨q, hloop⟩ := @moduleGatherLoop_ends _ _ g (n + 2) ⟨t, [], [index]⟩ (by
    have hcard : t.ungathered.card ≤ n := by simpa using Finset.card_le_univ t.ungathered
    simp only [length_singleton]
    omega)
  obtain ⟨hg, hwork⟩ := hstart.loop hc hno hloop
  have hvisits := (hstart.loop_visits hc hno hloop).1
  rw [hfirst] at hvisits
  have hend : (q.countdown t []).visits = 0 := by
    unfold Gathering.countdown
    rw [hwork]
    rfl
  -- The recursion.
  obtain ⟨q', hspec, hg', hwork', -, hvisits'⟩ :=
    Gathers.recursion hc hno (n + 2) _ index [] (hstart.unfold rfl) rfl (by
      show n < n + 2 + 0
      omega)
  rw [← Gathering.countdown_unfold (q := ⟨t, [], [index]⟩) rfl, hfirst] at hvisits'
  have hend' : (q'.countdown t []).visits = 0 := by
    unfold Gathering.countdown
    rw [hwork']
    rfl
  obtain ⟨hreleased, hleft⟩ := Countdown.unique hvisits hvisits' rfl hend hend'
  have htable := Gathers.table (fun y => (hquiet.gathered y).trans (h₀.gathered y)) hloop hg
  have hpending : q.state.pending = q'.ancestors.pending := hleft
  have hgathers : ∀ fuel, n + 2 ≤ fuel → moduleGatherAvailableAncestors g fuel t index =
      some (q.list.reverse, t.withPending q'.ancestors.pending) := by
    intro fuel hfuel
    rw [moduleGatherAvailableAncestors, moduleGatherLoop_mono hfuel hloop, map_some, htable,
      hpending]
  have hfulfilled : ∀ fuel, n + 2 ≤ fuel → moduleAsyncFulfilled g script fuel s₀ index =
      moduleRunAllGathered g script fuel
        (moduleSortGathered (t.withPending q'.ancestors.pending) q.list.reverse)
        (t.withPending q'.ancestors.pending) := by
    intro fuel hfuel
    rw [moduleAsyncFulfilled, if_neg hstatus, hgathers fuel hfuel]
  have hnodup : q.list.reverse.Nodup := nodup_reverse.mpr hg.nodup
  obtain ⟨hperm, hincreasing⟩ := moduleSortGathered_increasing hc hnodup
    (fun m hm => (hg.listed m (mem_reverse.mp hm)).1)
    (t.withPending q'.ancestors.pending) rfl
  refine ⟨q.list.reverse, q'.ancestors, n + 2, fun fuel hfuel => ⟨?_, hgathers fuel hfuel,
    hfulfilled fuel hfuel⟩, ?_, hnodup, fun c hc hc' => ?_, hperm, hincreasing,
    fun fuel result s' hrun => ?_⟩
  · exact specGatherAvailableAncestors_mono hfuel hspec
  · refine (reverse_perm _).trans (List.Perm.trans ?_ (reverse_perm _).symm)
    exact perm_of_nodup_nodup_toFinset_eq hg.nodup hg'.nodup hreleased
  · obtain ⟨hreleased', hleft'⟩ := Countdown.unique hc hvisits rfl hc' hend
    refine ⟨hreleased'.trans ?_, hleft'.trans hpending⟩
    exact toFinset_reverse.symm
  · rw [moduleAsyncFulfilled, if_neg hstatus] at hrun
    cases hgather : moduleGatherAvailableAncestors g fuel t index with
    | none =>
      rw [hgather] at hrun
      cases hrun
    | some out =>
    -- Any fuel that suffices has the same result.
    have hout : out = (q.list.reverse, t.withPending q'.ancestors.pending) := by
      obtain ⟨q₁, hloop₁, rfl⟩ := map_eq_some_iff.mp hgather
      have hsame := moduleGatherLoop_mono (Nat.le_max_left fuel (n + 2)) hloop₁
      rw [moduleGatherLoop_mono (Nat.le_max_right fuel (n + 2)) hloop, some.injEq] at hsame
      rw [← hsame, htable, hpending]
    rw [hgather, hout] at hrun
    obtain ⟨ran, hsub, hcalls, -, hended⟩ := moduleRunAllGathered_called hrun
    refine ⟨ran, hsub, ?_, fun hnormal m hm => hended hnormal m (hperm.mem_iff.mpr hm)⟩
    rw [hcalls]
    exact congrArg (· ++ ran) (called_congr b.calls)

/-- The body of the shared module fulfils. -/
theorem ModuleRun.gather_eq_diamond :
    ∃ s : ModuleState 4 ℕ, ModuleRun diamondOverOne (fun _ => .normal) [.evaluate 0] .normal s ∧
      s.reactions = [(3, none)] ∧ ∃ (list : List (Fin 4)) (spec : Ancestors 4) (fuel₀ : ℕ),
        (∀ fuel, fuel₀ ≤ fuel →
          specGatherAvailableAncestors diamondOverOne (moduleFinish { s with reactions := [] } 3)
            fuel 3 ⟨(moduleFinish { s with reactions := [] } 3).pending, []⟩ = some spec) ∧
        list.Perm spec.execList := by
  obtain ⟨s, run, hcheck⟩ := exists_moduleRuns diamondOverOne (fun _ => .normal) 40 [.evaluate 0]
    (.initial 4 ℕ) (fun s => decide (s.reactions = [(3, none)]) && s.status 3 != .evaluated)
    (by decide +kernel)
  rw [Bool.and_eq_true, decide_eq_true_eq, bne_iff_ne] at hcheck
  obtain ⟨list, spec, fuel₀, hends, hperm, -⟩ :=
    @ModuleRun.gather_eq _ _ _ _ _ _ _ run 3 [] [] hcheck.1 hcheck.2
  exact ⟨s, run, hcheck.1, list, spec, fuel₀, fun fuel hfuel => (hends fuel hfuel).1, hperm⟩

end Oseo.ModuleEvaluation
