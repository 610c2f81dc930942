import Oseo.ModuleEvaluation.Driver

/-!
# The frame loop computes the recursion

* the helpers of the driver are the steps of the edition's text (`moduleAfterRequest_eq`,
  `moduleAfterRequests_eq`);
* a frame loop started on a freshly entered module does what the nested call does and
  hands over to the frame below (`walkResult_inner`);
* the recursion never runs out of calls (`specInner_isSome`), so Evaluate by frames and
  Evaluate by recursion end with the same result in the same state.
-/

namespace Oseo.ModuleEvaluation

open Prod (mk)
open List

variable {n : ℕ} {V : Type} {g : ModuleGraph n} {script : ℕ → Result V}

/-! ## The helpers -/

lemma modulePush_eq_specBegin (s : ModuleState n V) (index : ℕ) (m : Fin n) :
    modulePush s index m = specBegin s index m := rfl

lemma modulePop_eq_specEndCycle (m : Fin n) (stack : List (Fin n)) (s : ModuleState n V) :
    modulePop m stack s = specEndCycle m stack s := by
  induction stack generalizing s with
  | nil => rfl
  | cons member rest ih =>
    simp only [modulePop, specEndCycle]
    split
    · rfl
    · exact ih _

/-- Replacing a record by itself changes nothing. -/
lemma update_id (s : ModuleState n V) (i : Fin n) (f : ModuleRecord n V → ModuleRecord n V)
    (h : f (s.records i) = s.records i) : s.update i f = s := by
  have : Function.update s.records i (f (s.records i)) = s.records := by
    rw [h, Function.update_eq_self]
  simp only [ModuleState.update, this]

lemma update_congr (s : ModuleState n V) (i : Fin n)
    {f f' : ModuleRecord n V → ModuleRecord n V} (h : f (s.records i) = f' (s.records i)) :
    s.update i f = s.update i f' := by
  simp only [ModuleState.update, h]

lemma moduleAfterRequest_eq (s : ModuleState n V) (m required : Fin n) :
    moduleAfterRequest s m required = specAfterInner s m required := by
  have hwait : ∀ (s : ModuleState n V) (required : Fin n),
      (if (s.records required).asyncPending then
        ((.normal : Result V), moduleAddAsyncParent (s.update m fun r =>
          { r with
            pendingAsyncDependencies := (r.pendingAsyncDependencies + 1) % sizeLimit })
          required m)
      else (.normal, s)) = (.normal, specWait s m required) := by
    intro s required
    unfold specWait moduleAddAsyncParent
    split <;> rfl
  unfold moduleAfterRequest specAfterInner
  by_cases hev : (s.records required).status = .evaluating
  · simp only [hev, if_true, hwait]
    split
    · next hlt =>
      congr 2
      refine update_congr s m ?_
      rw [min_eq_right hlt.le]
    · next hle =>
      -- The record keeps its own ancestor index, so the update is the identity.
      rw [update_id s m]
      rw [min_eq_left (not_lt.mp hle)]
  · simp only [hev, if_false, hwait]

lemma moduleAfterRequests_eq (s : ModuleState n V) (m : Fin n) :
    moduleAfterRequests g script s m = specEnd g script s m := by
  have hpop : ∀ s : ModuleState n V,
      ((.normal : Result V), modulePopCycle s m)
        = if (s.records m).dfsAncestorIndex = (s.records m).dfsIndex then
            (.normal, specEndCycle m s.stack s)
          else (.normal, s) := by
    intro s
    unfold modulePopCycle
    split
    · rw [modulePop_eq_specEndCycle]
    · rfl
  unfold moduleAfterRequests specEnd specExecute
  simp only [hpop]
  by_cases hw : 0 < (s.records m).pendingAsyncDependencies ∨ g.hasTopLevelAwait m
  · simp only [hw, if_true]
    by_cases hp : (s.records m).pendingAsyncDependencies = 0
    · simp only [ModuleState.update_records_self, hp, if_true]
      generalize moduleExecuteAsync script _ m = out
      rcases out with ⟨_ | error | _, s'⟩ <;> rfl
    · simp only [ModuleState.update_records_self, hp, if_false]
  · simp only [hw, if_false]
    rcases moduleCallEvaluator script s m with ⟨_ | error | _, s'⟩ <;> rfl

/-! ## Induction over the walk -/

lemma specInner_of_not_linked (calls : ℕ) {s : ModuleState n V} (index : ℕ) {m : Fin n}
    (hst : (s.records m).status ≠ .linked) :
    specInner g script calls s index m = some (specVisited s m, s, index) := by
  cases calls <;> simp [specInner, hst]

/-- What a nested call does after its request loop. -/
def specAfterLoop (g : ModuleGraph n) (script : ℕ → Result V) (m : Fin n) :
    Result V → ModuleState n V → Result V × ModuleState n V
  | .normal, s => specEnd g script s m
  | result, s => (result, s)

/-- The induction rule of the walk: `inner` speaks of a nested call, `loop` of a request
loop that has `done` behind it and `rest` before it. -/
lemma specInner_rule
    (inner : ModuleState n V → ℕ → Fin n → Result V → ModuleState n V → ℕ → Prop)
    (loop : Fin n → List (Fin n) → List (Fin n) → ModuleState n V → ℕ → Result V →
      ModuleState n V → ℕ → Prop)
    (visited : ∀ s index m, (s.records m).status ≠ .linked →
      inner s index m (specVisited s m) s index)
    (enter : ∀ s index m result s' index', (s.records m).status = .linked →
      loop m [] (g.requested m) (specBegin s index m) (index + 1) result s' index' →
      inner s index m (specAfterLoop g script m result s').1
        (specAfterLoop g script m result s').2 index')
    (nil : ∀ m done s index, loop m done [] s index .normal s index)
    (stop : ∀ m done required rest s index result s₁ index₁,
      inner s index required result s₁ index₁ → result ≠ .normal →
      loop m done (required :: rest) s index result s₁ index₁)
    (fail : ∀ m done required rest s index s₁ index₁ result s₂,
      inner s index required .normal s₁ index₁ →
      specAfterInner s₁ m required = (result, s₂) → result ≠ .normal →
      loop m done (required :: rest) s index result s₂ index₁)
    (next : ∀ m done required rest s index s₁ index₁ s₂ result s' index',
      inner s index required .normal s₁ index₁ →
      specAfterInner s₁ m required = (.normal, s₂) →
      loop m (done ++ [required]) rest s₂ index₁ result s' index' →
      loop m done (required :: rest) s index result s' index')
    (calls : ℕ) :
    ∀ s index m result s' index',
      specInner g script calls s index m = some (result, s', index') →
      inner s index m result s' index' := by
  induction calls with
  | zero =>
    intro s index m result s' index' h
    by_cases hst : (s.records m).status = .linked
    · simp [specInner, hst] at h
    · rw [specInner_of_not_linked 0 index hst, Option.some.injEq, mk.injEq,
        mk.injEq] at h
      obtain ⟨rfl, rfl, rfl⟩ := h
      exact visited s index m hst
  | succ calls ih =>
    have hloop : ∀ (m : Fin n) (rest done : List (Fin n)) s index result s' index',
        specRequests (specInner g script calls) m rest s index = some (result, s', index') →
        loop m done rest s index result s' index' := by
      intro m rest
      induction rest with
      | nil =>
        intro done s index result s' index' h
        rw [specRequests, Option.some.injEq, mk.injEq, mk.injEq] at h
        obtain ⟨rfl, rfl, rfl⟩ := h
        exact nil m done s index
      | cons required rest ihr =>
        intro done s index result s' index' h
        rw [specRequests] at h
        cases hin : specInner g script calls s index required with
        | none => simp [hin] at h
        | some out =>
          obtain ⟨result₁, s₁, index₁⟩ := out
          have hinner := ih s index required result₁ s₁ index₁ hin
          have hstop : result₁ ≠ .normal → result₁ = result ∧ s₁ = s' ∧ index₁ = index' := by
            intro hne
            cases result₁ with
            | normal => exact absurd rfl hne
            | throw error => simpa [hin] using h
            | failure => simpa [hin] using h
          by_cases hne : result₁ = .normal
          · subst hne
            simp only [hin] at h
            rcases hsa : specAfterInner s₁ m required with ⟨result₂, s₂⟩
            by_cases hne₂ : result₂ = .normal
            · subst hne₂
              simp only [hsa] at h
              exact next m done required rest s index s₁ index₁ s₂ result s' index' hinner hsa
                (ihr _ _ _ _ _ _ h)
            · have : result₂ = result ∧ s₂ = s' ∧ index₁ = index' := by
                cases result₂ with
                | normal => exact absurd rfl hne₂
                | throw error => simpa [hsa] using h
                | failure => simpa [hsa] using h
              obtain ⟨rfl, rfl, rfl⟩ := this
              exact fail m done required rest s index s₁ index₁ result₂ s₂ hinner hsa hne₂
          · obtain ⟨rfl, rfl, rfl⟩ := hstop hne
            exact stop m done required rest s index result₁ s₁ index₁ hinner hne
    intro s index m result s' index' h
    by_cases hst : (s.records m).status = .linked
    · simp only [specInner, hst, if_true] at h
      cases hout : specRequests (specInner g script calls) m (g.requested m)
          (specBegin s index m) (index + 1) with
      | none => simp [hout] at h
      | some out =>
        obtain ⟨result₁, s₁, index₁⟩ := out
        have henter := enter s index m result₁ s₁ index₁ hst (hloop m _ [] _ _ _ _ _ hout)
        have : (specAfterLoop g script m result₁ s₁).1 = result ∧
            (specAfterLoop g script m result₁ s₁).2 = s' ∧ index₁ = index' := by
          cases result₁ <;> simpa [hout, specAfterLoop] using h
        obtain ⟨rfl, rfl, rfl⟩ := this
        exact henter
    · rw [specInner_of_not_linked (calls + 1) index hst, Option.some.injEq, mk.injEq,
        mk.injEq] at h
      obtain ⟨rfl, rfl, rfl⟩ := h
      exact visited s index m hst

/-- An invariant of the walk: entering a module, step 11.c and steps 12 through 17 keep
it, so a nested call keeps it. -/
lemma specInner_invariant (P : ModuleState n V → Prop)
    (hbegin : ∀ s index m, (s.records m).status = .linked → P s → P (specBegin s index m))
    (hafter : ∀ s m required, P s → P (specAfterInner s m required).2)
    (hend : ∀ s m, P s → P (specEnd g script s m).2)
    {calls : ℕ} {s s' : ModuleState n V} {index index' : ℕ} {m : Fin n} {result : Result V}
    (h : specInner g script calls s index m = some (result, s', index')) (hP : P s) : P s' := by
  refine specInner_rule (fun s _ _ _ s' _ => P s → P s')
    (fun _ _ _ s _ _ s' _ => P s → P s') ?_ ?_ ?_ ?_ ?_ ?_ calls s index m result s'
    index' h hP
  · exact fun _ _ _ _ => id
  · intro s index m result s' index' hst ih hP
    have hP' := ih (hbegin s index m hst hP)
    cases result with
    | normal => exact hend s' m hP'
    | throw error => exact hP'
    | failure => exact hP'
  · exact fun _ _ _ _ => id
  · exact fun _ _ _ _ _ _ _ _ _ ih _ => ih
  · intro m done required rest s index s₁ index₁ result s₂ ih hsa _ hP
    have := hafter s₁ m required (ih hP)
    rwa [hsa] at this
  · intro m done required rest s index s₁ index₁ s₂ result s' index' ih hsa ihr hP
    have := hafter s₁ m required (ih hP)
    rw [hsa] at this
    exact ihr this

/-! ## The frame loop -/

/-- What a frame loop returns, without its frames. -/
def walkResult (g : ModuleGraph n) (script : ℕ → Result V) (fuel : ℕ) (s : ModuleState n V)
    (frames : List (ModuleFrame n)) (index : ℕ) : Option (Result V × ModuleState n V) :=
  (moduleFrameLoop g script fuel ⟨s, frames, index⟩).map fun (result, w) => (result, w.state)

/-- A loop that has done its part: it goes on with `frames`, or it has stopped. -/
def walkAfter (g : ModuleGraph n) (script : ℕ → Result V) (fuel : ℕ)
    (frames : List (ModuleFrame n)) :
    Result V × ModuleState n V × ℕ → Option (Result V × ModuleState n V)
  | (.normal, s, index) => walkResult g script fuel s frames index
  | (result, s, _) => some (result, s)

lemma walkAfter_abrupt {result : Result V} (fuel : ℕ) (frames : List (ModuleFrame n))
    (s : ModuleState n V) (index : ℕ) (hne : result ≠ .normal) :
    walkAfter g script fuel frames (result, s, index) = some (result, s) := by
  cases result with
  | normal => exact absurd rfl hne
  | throw error => rfl
  | failure => rfl

lemma walkResult_succ (fuel : ℕ) (s : ModuleState n V) (frame : ModuleFrame n)
    (rest : List (ModuleFrame n)) (index : ℕ) :
    walkResult g script (fuel + 1) s (frame :: rest) index
      = match moduleFrameStep g script ⟨s, frame :: rest, index⟩ frame rest with
        | (.normal, w) => walkResult g script fuel w.state w.frames w.dfsIndex
        | (result, w) => some (result, w.state) := by
  simp only [walkResult, moduleFrameLoop]
  rcases moduleFrameStep g script ⟨s, frame :: rest, index⟩ frame rest with
    ⟨_ | error | _, w⟩ <;> rfl

/-- A frame past its last request finishes its module. -/
lemma walkResult_end (fuel : ℕ) (s : ModuleState n V) (m : Fin n) (position : ℕ)
    (rest : List (ModuleFrame n)) (index : ℕ) (h : (g.requested m).length ≤ position)
    (entered : Bool) :
    walkResult g script (fuel + 1) s (⟨m, position, entered⟩ :: rest) index
      = walkAfter g script fuel rest
          ((specEnd g script s m).1, (specEnd g script s m).2, index) := by
  rw [walkResult_succ]
  simp only [moduleFrameStep, getElem?_eq_none h, moduleAfterRequests_eq]
  rcases specEnd g script s m with ⟨_ | error | _, s'⟩ <;> rfl

/-- A frame whose request is evaluated takes step 7.b and moves on. -/
lemma walkResult_resume (fuel : ℕ) (s : ModuleState n V) (m required : Fin n) (position : ℕ)
    (rest : List (ModuleFrame n)) (index : ℕ)
    (h : (g.requested m)[position]? = some required) :
    walkResult g script (fuel + 1) s (⟨m, position, true⟩ :: rest) index
      = walkAfter g script fuel (⟨m, position + 1, false⟩ :: rest)
          ((specAfterInner s m required).1, (specAfterInner s m required).2, index) := by
  rw [walkResult_succ]
  simp only [moduleFrameStep, h, if_true, moduleAfterRequest_eq]
  rcases specAfterInner s m required with ⟨_ | error | _, s'⟩ <;> rfl

/-- A module that is not linked: the nested call and the driver's entry agree. -/
lemma moduleEnter_of_not_linked {s : ModuleState n V} (index : ℕ) {m : Fin n}
    (hst : (s.records m).status ≠ .linked) (frames : List (ModuleFrame n)) :
    moduleEnter ⟨s, frames, index⟩ m = (specVisited s m, .skipped, ⟨s, frames, index⟩) := by
  unfold moduleEnter specVisited
  cases hst' : (s.records m).status with
  | linked => exact absurd hst' hst
  | evaluating => simp [hst']
  | evaluatingAsync => by_cases herr : (s.records m).errored <;> simp [hst', herr]
  | evaluated => by_cases herr : (s.records m).errored <;> simp [hst', herr]

/-- A request to a module that is not linked takes step 7.b at once, or throws. -/
lemma walkResult_skip (fuel : ℕ) (s : ModuleState n V) (m required : Fin n) (position : ℕ)
    (rest : List (ModuleFrame n)) (index : ℕ)
    (h : (g.requested m)[position]? = some required)
    (hst : (s.records required).status ≠ .linked) :
    walkResult g script (fuel + 1) s (⟨m, position, false⟩ :: rest) index
      = match specVisited s required with
        | .normal =>
          walkAfter g script fuel (⟨m, position + 1, false⟩ :: rest)
            ((specAfterInner s m required).1, (specAfterInner s m required).2, index)
        | result => some (result, s) := by
  rw [walkResult_succ]
  simp only [moduleFrameStep, h, moduleEnter_of_not_linked index hst, moduleAfterRequest_eq,
    Bool.false_eq_true, if_false]
  cases specVisited s required with
  | normal => rcases specAfterInner s m required with ⟨_ | error | _, s'⟩ <;> rfl
  | throw error => rfl
  | failure => rfl

/-- A position behind some elements. -/
lemma getElem?_of_append {α : Type} {l done rest : List α} {a : α} (h : l = done ++ a :: rest) :
    l[done.length]? = some a := by
  rw [h, getElem?_append_right le_rfl, Nat.sub_self]
  rfl

/-- Some number of iterations takes a frame through one request. -/
lemma walkResult_request {s s₁ : ModuleState n V} {index index₁ position : ℕ} (m : Fin n)
    {required : Fin n} {result : Result V}
    (hinner : if (s.records required).status = .linked then
        ∃ k, ∀ fuel frames, walkResult g script (k + fuel) (specBegin s index required)
          (⟨required, 0, false⟩ :: frames) (index + 1) =
            walkAfter g script fuel frames (result, s₁, index₁)
      else result = specVisited s required ∧ s₁ = s ∧ index₁ = index)
    (hget : (g.requested m)[position]? = some required) :
    ∃ k, ∀ fuel frames,
      (result = .normal → walkResult g script (k + fuel) s (⟨m, position, false⟩ :: frames) index =
        walkAfter g script fuel (⟨m, position + 1, false⟩ :: frames)
          ((specAfterInner s₁ m required).1, (specAfterInner s₁ m required).2, index₁)) ∧
      (result ≠ .normal → walkResult g script (k + fuel) s (⟨m, position, false⟩ :: frames) index =
        some (result, s₁)) := by
  by_cases hst : (s.records required).status = .linked
  · -- The request enters its module: the nested frame runs first.
    rw [if_pos hst] at hinner
    obtain ⟨k, hk⟩ := hinner
    have henter : ∀ fuel frames,
        walkResult g script (fuel + 1) s (⟨m, position, false⟩ :: frames) index
          = walkResult g script fuel (specBegin s index required)
              (⟨required, 0, false⟩ :: ⟨m, position, true⟩ :: frames) (index + 1) := by
      intro fuel frames
      rw [walkResult_succ]
      simp [moduleFrameStep, hget, moduleEnter, hst, modulePush_eq_specBegin]
    refine ⟨k + 1 + 1, fun fuel frames => ?_⟩
    rw [show k + 1 + 1 + fuel = k + (fuel + 1) + 1 by omega, henter, hk]
    refine ⟨?_, walkAfter_abrupt (fuel + 1) _ s₁ index₁⟩
    rintro rfl
    exact walkResult_resume _ _ _ _ _ _ _ hget
  · -- The request is skipped: step 7.b follows in the same iteration.
    rw [if_neg hst] at hinner
    obtain ⟨rfl, rfl, rfl⟩ := hinner
    refine ⟨1, fun fuel frames => ?_⟩
    rw [Nat.add_comm, walkResult_skip _ _ _ _ _ _ _ hget hst]
    cases specVisited s₁ required with
    | normal => exact ⟨fun _ => rfl, fun hne => absurd rfl hne⟩
    | _ => exact ⟨nofun, fun _ => rfl⟩

/-- Some number of iterations runs a freshly entered module to the frame below it, with
the nested call's result. -/
theorem walkResult_inner {calls : ℕ} {s s' : ModuleState n V} {index index' : ℕ} {m : Fin n}
    {result : Result V} (hst : (s.records m).status = .linked)
    (h : specInner g script calls s index m = some (result, s', index')) :
    ∃ k, ∀ fuel frames,
      walkResult g script (k + fuel) (specBegin s index m) (⟨m, 0, false⟩ :: frames)
        (index + 1) = walkAfter g script fuel frames (result, s', index') := by
  -- A call of a module that is not linked does nothing. A request loop takes the frame through
  -- the requests it has before it.
  have hrule := specInner_rule
    (fun s index m result s' index' => if (s.records m).status = .linked then
        ∃ k, ∀ fuel frames, walkResult g script (k + fuel) (specBegin s index m)
          (⟨m, 0, false⟩ :: frames) (index + 1) = walkAfter g script fuel frames (result, s', index')
      else result = specVisited s m ∧ s' = s ∧ index' = index)
    (fun m done rest s index result s' index' => g.requested m = done ++ rest →
      ∃ k, ∀ fuel frames, walkResult g script (k + fuel) s (⟨m, done.length, false⟩ :: frames) index =
        walkAfter g script fuel (⟨m, (g.requested m).length, false⟩ :: frames) (result, s', index'))
    (g := g) ?_ ?_ ?_ ?_ ?_ ?_ calls s index m result s' index' h
  · rwa [if_pos hst] at hrule
  · intro s index m hst
    rw [if_neg hst]
    exact ⟨rfl, rfl, rfl⟩
  · intro s index m result s' index' hst hloop
    rw [if_pos hst]
    obtain ⟨k, hk⟩ := hloop rfl
    cases result with
    | normal =>
      refine ⟨k + 1, fun fuel frames => ?_⟩
      rw [show k + 1 + fuel = k + (fuel + 1) by omega]
      exact (hk _ _).trans (walkResult_end fuel s' m _ frames index' le_rfl false)
    | throw error => exact ⟨k, hk⟩
    | failure => exact ⟨k, hk⟩
  · intro m done s index hdone
    refine ⟨0, fun fuel frames => ?_⟩
    rw [hdone, append_nil, Nat.zero_add]
    rfl
  · intro m done required rest s index result s₁ index₁ hinner hne hdone
    obtain ⟨k, hk⟩ := walkResult_request m hinner (getElem?_of_append hdone)
    refine ⟨k, fun fuel frames => ?_⟩
    rw [(hk fuel frames).2 hne, walkAfter_abrupt fuel _ s₁ index₁ hne]
  · intro m done required rest s index s₁ index₁ result s₂ hinner hsa hne hdone
    obtain ⟨k, hk⟩ := walkResult_request m hinner (getElem?_of_append hdone)
    refine ⟨k, fun fuel frames => ?_⟩
    rw [(hk fuel frames).1 rfl, hsa, walkAfter_abrupt fuel _ s₂ index₁ hne,
      walkAfter_abrupt fuel _ s₂ index₁ hne]
  · intro m done required rest s index s₁ index₁ s₂ result s' index' hinner hsa hloop hdone
    obtain ⟨k, hk⟩ := walkResult_request m hinner (getElem?_of_append hdone)
    obtain ⟨k', hk'⟩ := hloop (by rw [hdone, append_assoc]; rfl)
    refine ⟨k + k', fun fuel frames => ?_⟩
    rw [Nat.add_assoc, (hk _ frames).1 rfl, hsa, ← hk', length_append]
    rfl

/-! ## The recursion ends -/

/-- The modules still linked. -/
def ModuleState.linkedModules (s : ModuleState n V) : Finset (Fin n) :=
  Finset.univ.filter fun i => (s.records i).status = .linked

lemma mem_linkedModules {s : ModuleState n V} {i : Fin n} :
    i ∈ s.linkedModules ↔ (s.records i).status = .linked := by
  simp [ModuleState.linkedModules]

/-- An update that links no module again. -/
lemma linkedModules_update_subset (s : ModuleState n V) (i : Fin n)
    {f : ModuleRecord n V → ModuleRecord n V}
    (h : (f (s.records i)).status = .linked → (s.records i).status = .linked) :
    (s.update i f).linkedModules ⊆ s.linkedModules := by
  intro j hj
  rw [mem_linkedModules] at hj ⊢
  by_cases hji : j = i
  · subst hji
    rw [ModuleState.update_records_self] at hj
    exact h hj
  · rwa [s.update_records_of_ne f hji] at hj

lemma linkedModules_specWait (s : ModuleState n V) (m required : Fin n) :
    (specWait s m required).linkedModules ⊆ s.linkedModules := by
  unfold specWait
  split
  · exact (linkedModules_update_subset _ _ id).trans (linkedModules_update_subset _ _ id)
  · exact subset_rfl

lemma linkedModules_specAfterInner (s : ModuleState n V) (m required : Fin n) :
    (specAfterInner s m required).2.linkedModules ⊆ s.linkedModules := by
  unfold specAfterInner
  split
  · exact (linkedModules_specWait _ _ _).trans (linkedModules_update_subset _ _ id)
  · dsimp only
    split
    · exact subset_rfl
    · exact linkedModules_specWait _ _ _

lemma linkedModules_specEndCycle (m : Fin n) (stack : List (Fin n)) (s : ModuleState n V) :
    (specEndCycle m stack s).linkedModules ⊆ s.linkedModules := by
  induction stack generalizing s with
  | nil => exact subset_rfl
  | cons member rest ih =>
    have hup : (s.update member fun r =>
        { r with
          status :=
            if r.asyncEvaluationOrder = asyncUnset then .evaluated else .evaluatingAsync
          cycleRoot := some m }).linkedModules ⊆ s.linkedModules := by
      refine linkedModules_update_subset s member fun h => ?_
      split at h <;> cases h
    rw [specEndCycle]
    split
    · exact hup
    · exact (ih _).trans hup

lemma records_moduleCallEvaluator (s : ModuleState n V) (m : Fin n) :
    (moduleCallEvaluator script s m).2.records = s.records := rfl

lemma records_moduleExecuteAsync (s : ModuleState n V) (m : Fin n) :
    (moduleExecuteAsync script s m).2.records = s.records := by
  unfold moduleExecuteAsync moduleCallEvaluator
  cases script s.calls.length <;> rfl

lemma linkedModules_congr {s s' : ModuleState n V} (h : s'.records = s.records) :
    s'.linkedModules = s.linkedModules := by
  simp only [ModuleState.linkedModules, h]

lemma linkedModules_specExecute (s : ModuleState n V) (m : Fin n) :
    (specExecute g script s m).2.linkedModules ⊆ s.linkedModules := by
  have hup : ∀ order, ({ s with asyncEvaluationCount := order }.update m fun r =>
      { r with asyncEvaluationOrder := order }).linkedModules ⊆ s.linkedModules := by
    intro order
    refine (linkedModules_update_subset _ m id).trans (Eq.subset ?_)
    exact linkedModules_congr rfl
  unfold specExecute
  generalize (s.asyncEvaluationCount + 1) % sizeLimit = order
  dsimp only
  split
  · split
    · rw [linkedModules_congr (records_moduleExecuteAsync _ m)]
      exact hup order
    · exact hup order
  · rw [linkedModules_congr (records_moduleCallEvaluator s m)]

lemma linkedModules_specEnd (s : ModuleState n V) (m : Fin n) :
    (specEnd g script s m).2.linkedModules ⊆ s.linkedModules := by
  have hex := @linkedModules_specExecute _ _ g script s m
  unfold specEnd
  rcases heq : specExecute g script s m with ⟨_ | error | _, s'⟩ <;> rw [heq] at hex
  · dsimp only at hex ⊢
    split
    · exact (linkedModules_specEndCycle _ _ _).trans hex
    · exact hex
  · exact hex
  · exact hex

/-- Entering a linked module leaves one linked module fewer. -/
lemma linkedModules_specBegin {s : ModuleState n V} (index : ℕ) {m : Fin n}
    (hst : (s.records m).status = .linked) :
    (specBegin s index m).linkedModules ⊂ s.linkedModules := by
  have hrec : (specBegin s index m).linkedModules ⊆ s.linkedModules := by
    refine (Eq.subset (linkedModules_congr ?_)).trans
      (linkedModules_update_subset s m (f := fun r =>
        { r with
          status := .evaluating
          dfsIndex := index
          dfsAncestorIndex := index
          pendingAsyncDependencies := 0 }) (fun h => by cases h))
    rfl
  refine ⟨hrec, fun hsub => ?_⟩
  have hm := hsub (mem_linkedModules.mpr hst)
  rw [mem_linkedModules] at hm
  simp [specBegin] at hm

/-- A request loop whose nested calls all return, and link no module again. -/
lemma specRequests_isSome {calls : ℕ}
    (hinner : ∀ (s : ModuleState n V) (index : ℕ) (m : Fin n), s.linkedModules.card ≤ calls →
      ∃ result s' index', specInner g script calls s index m = some (result, s', index') ∧
        s'.linkedModules ⊆ s.linkedModules)
    (m : Fin n) (rest : List (Fin n)) :
    ∀ (s : ModuleState n V) (index : ℕ), s.linkedModules.card ≤ calls →
      ∃ result s' index',
        specRequests (specInner g script calls) m rest s index = some (result, s', index') ∧
        s'.linkedModules ⊆ s.linkedModules := by
  induction rest with
  | nil => exact fun s index _ => ⟨.normal, s, index, rfl, subset_rfl⟩
  | cons required rest ih =>
    intro s index hcard
    obtain ⟨result, s₁, index₁, hin, hsub⟩ := hinner s index required hcard
    rw [specRequests, hin]
    cases result with
    | normal =>
      have hafter := (linkedModules_specAfterInner s₁ m required).trans hsub
      rcases hsa : specAfterInner s₁ m required with ⟨_ | error | _, s₂⟩ <;>
        rw [hsa] at hafter
      · obtain ⟨result, s', index', hout, hsub'⟩ :=
          ih s₂ index₁ ((Finset.card_le_card hafter).trans hcard)
        exact ⟨result, s', index', by simpa only [hsa] using hout, hsub'.trans hafter⟩
      · exact ⟨.throw error, s₂, index₁, by simp only [hsa], hafter⟩
      · exact ⟨.failure, s₂, index₁, by simp only [hsa], hafter⟩
    | throw error => exact ⟨.throw error, s₁, index₁, rfl, hsub⟩
    | failure => exact ⟨.failure, s₁, index₁, rfl, hsub⟩

/-- As many nested calls as there are linked modules are enough, and a call links no
module again. -/
theorem specInner_isSome (calls : ℕ) :
    ∀ (s : ModuleState n V) (index : ℕ) (m : Fin n), s.linkedModules.card ≤ calls →
      ∃ result s' index', specInner g script calls s index m = some (result, s', index') ∧
        s'.linkedModules ⊆ s.linkedModules := by
  induction calls with
  | zero =>
    intro s index m hcard
    have hst : (s.records m).status ≠ .linked := by
      intro hst
      have : 0 < s.linkedModules.card := Finset.card_pos.mpr ⟨m, mem_linkedModules.mpr hst⟩
      omega
    exact ⟨_, _, _, specInner_of_not_linked 0 index hst, subset_rfl⟩
  | succ calls ih =>
    intro s index m hcard
    by_cases hst : (s.records m).status = .linked
    · have hbegin := linkedModules_specBegin index hst
      have hlt := Finset.card_lt_card hbegin
      obtain ⟨result, s₁, index₁, hout, hsub⟩ :=
        specRequests_isSome ih m (g.requested m) (specBegin s index m) (index + 1) (by omega)
      have hsub' := hsub.trans hbegin.subset
      simp only [specInner, hst, if_true, hout]
      cases result with
      | normal =>
        exact ⟨(specEnd g script s₁ m).1, (specEnd g script s₁ m).2, index₁, rfl,
          (linkedModules_specEnd s₁ m).trans hsub'⟩
      | throw error => exact ⟨.throw error, s₁, index₁, rfl, hsub'⟩
      | failure => exact ⟨.failure, s₁, index₁, rfl, hsub'⟩
    · exact ⟨_, _, _, specInner_of_not_linked (calls + 1) index hst, subset_rfl⟩

/-! ## The stack -/

lemma specWait_stack (s : ModuleState n V) (m required : Fin n) :
    (specWait s m required).stack = s.stack := by
  unfold specWait
  split <;> rfl

lemma specAfterInner_stack (s : ModuleState n V) (m required : Fin n) :
    (specAfterInner s m required).2.stack = s.stack := by
  unfold specAfterInner
  split
  · exact specWait_stack _ _ _
  · dsimp only
    split
    · rfl
    · exact specWait_stack _ _ _

lemma specExecute_stack (s : ModuleState n V) (m : Fin n) :
    (specExecute g script s m).2.stack = s.stack := by
  unfold specExecute moduleExecuteAsync moduleCallEvaluator
  dsimp only
  split
  · split
    · simp only [ModuleState.update_calls]
      cases script s.calls.length <;> rfl
    · rfl
  · rfl

/-- Ending a cycle pops at most down to its root. -/
lemma specEndCycle_stack (m : Fin n) (above below : List (Fin n)) (s : ModuleState n V) :
    below <:+ (specEndCycle m (above ++ m :: below) s).stack := by
  induction above generalizing s with
  | nil => simp [specEndCycle]
  | cons member above ih =>
    rw [cons_append, specEndCycle]
    split
    · exact (suffix_cons m below).trans (suffix_append above (m :: below))
    · exact ih _

lemma specEnd_stack {s : ModuleState n V} {m : Fin n} {below : List (Fin n)}
    (h : m :: below <:+ s.stack) :
    below <:+ (specEnd g script s m).2.stack ∧
      ((specEnd g script s m).1 ≠ .normal → m :: below <:+ (specEnd g script s m).2.stack) := by
  have hst := @specExecute_stack _ _ g script s m
  unfold specEnd
  rcases heq : specExecute g script s m with ⟨_ | error | _, s'⟩ <;>
    rw [heq] at hst <;> dsimp only at hst ⊢
  · split
    · refine ⟨?_, fun hne => absurd rfl hne⟩
      obtain ⟨above, habove⟩ := h
      rw [hst, ← habove]
      exact specEndCycle_stack m above below s'
    · exact ⟨hst ▸ (suffix_cons m below).trans h, fun hne => absurd rfl hne⟩
  · exact ⟨hst ▸ (suffix_cons m below).trans h, fun _ => hst ▸ h⟩
  · exact ⟨hst ▸ (suffix_cons m below).trans h, fun _ => hst ▸ h⟩

/-- A nested call leaves the stack below it alone, and a module whose call is abrupt is
still on the stack. -/
lemma specInner_stack {calls : ℕ} {s s' : ModuleState n V} {index index' : ℕ} {m : Fin n}
    {result : Result V} (h : specInner g script calls s index m = some (result, s', index')) :
    s.stack <:+ s'.stack ∧
      ((s.records m).status = .linked → result ≠ .normal → m :: s.stack <:+ s'.stack) := by
  refine specInner_rule
    (fun s _ m result s' _ => s.stack <:+ s'.stack ∧
      ((s.records m).status = .linked → result ≠ .normal → m :: s.stack <:+ s'.stack))
    (fun _ _ _ s _ _ s' _ => s.stack <:+ s'.stack) ?_ ?_ ?_ ?_ ?_ ?_ calls s index m
    result s' index' h
  · exact fun s _ m hst => ⟨suffix_rfl, fun hst' => absurd hst' hst⟩
  · intro s index m result s' index' _ ih
    have hm : m :: s.stack <:+ s'.stack := ih
    cases result with
    | normal => exact ⟨(specEnd_stack hm).1, fun _ => (specEnd_stack hm).2⟩
    | throw error => exact ⟨(suffix_cons _ _).trans hm, fun _ _ => hm⟩
    | failure => exact ⟨(suffix_cons _ _).trans hm, fun _ _ => hm⟩
  · exact fun _ _ _ _ => suffix_rfl
  · exact fun _ _ _ _ _ _ _ _ _ ih _ => ih.1
  · intro m done required rest s index s₁ index₁ result s₂ ih hsa _
    have := specAfterInner_stack s₁ m required
    rw [hsa] at this
    exact this ▸ ih.1
  · intro m done required rest s index s₁ index₁ s₂ result s' index' ih hsa ihr
    have := specAfterInner_stack s₁ m required
    rw [hsa] at this
    exact (this ▸ ih.1).trans ihr

/-! ## Evaluate -/

/-- The handler's pass over the stack marks exactly the modules on it. -/
lemma moduleFailStack_eq (error : V) (stack : List (Fin n)) (s : ModuleState n V) :
    moduleFailStack error stack s
      = { s with
          records := fun m =>
            if m ∈ stack then
              { s.records m with
                status := .evaluated, errored := true, evaluationError := error }
            else s.records m } := by
  induction stack generalizing s with
  | nil => simp [moduleFailStack]
  | cons member rest ih =>
    rw [moduleFailStack, ih]
    simp only [ModuleState.update]
    congr 1
    funext m
    by_cases hm : m = member
    · subst hm
      simp
    · simp [hm]

/-- The driver's conclusion is the edition's, once an abrupt walk has left its root on the
stack or with an error. -/
lemma moduleEvaluateRecord_conclude (m : Fin n) (error : V) (s : ModuleState n V)
    (h : m ∈ s.stack ∨ (s.records m).errored) :
    ((.normal : Result V),
      moduleSettleCapability
        ({ moduleFailStack error s.stack s with stack := [] }.update m fun r =>
          if r.errored then r else { r with errored := true, evaluationError := error })
        m false)
      = specConclude m (.throw error, s) := by
  rw [moduleFailStack_eq, update_id]
  · rfl
  · dsimp only
    split
    · simp
    · next hm => rw [if_pos (h.resolve_left hm)]

/-- A loop that has ended ends in the same way with more iterations. -/
lemma moduleFrameLoop_mono {fuel : ℕ} {w : Walk n V} {out : Result V × Walk n V}
    (h : moduleFrameLoop g script fuel w = some out) (more : ℕ) :
    moduleFrameLoop g script (fuel + more) w = some out := by
  induction fuel generalizing w with
  | zero => simp [moduleFrameLoop] at h
  | succ fuel ih =>
    rw [show fuel + 1 + more = fuel + more + 1 by omega, moduleFrameLoop]
    rw [moduleFrameLoop] at h
    cases hf : w.frames with
    | nil => simpa [hf] using h
    | cons frame rest =>
      simp only [hf] at h ⊢
      rcases hstep : moduleFrameStep g script w frame rest with ⟨_ | error | _, w'⟩ <;>
        simp only [hstep] at h ⊢
      · exact ih h
      · exact h
      · exact h

/-- InnerModuleEvaluation by frames is the recursion. -/
lemma moduleInnerEvaluation_eq (s : ModuleState n V) (m : Fin n) :
    ∃ result s' index', specInner g script n s 0 m = some (result, s', index') ∧
      ∃ fuel₀, ∀ fuel, fuel₀ ≤ fuel →
        moduleInnerEvaluation g script fuel s m = some (result, s') := by
  have hcard : s.linkedModules.card ≤ n := by
    simpa using Finset.card_le_univ s.linkedModules
  obtain ⟨result, s', index', hin, -⟩ := @specInner_isSome _ _ g script n s 0 m
    hcard
  refine ⟨result, s', index', hin, ?_⟩
  by_cases hst : (s.records m).status = .linked
  · obtain ⟨k, hk⟩ := walkResult_inner hst hin
    refine ⟨k + 1, fun fuel hfuel => ?_⟩
    obtain ⟨more, rfl⟩ := Nat.exists_eq_add_of_le hfuel
    have hrun := hk (more + 1) []
    rw [show k + (more + 1) = k + 1 + more by omega] at hrun
    simp only [moduleInnerEvaluation, moduleEnter, hst, reduceCtorEq, or_self, if_false]
    refine hrun.trans ?_
    cases result <;> rfl
  · rw [specInner_of_not_linked n 0 hst, Option.some.injEq, mk.injEq, mk.injEq] at hin
    obtain ⟨rfl, rfl, rfl⟩ := hin
    refine ⟨1, fun fuel hfuel => ?_⟩
    obtain ⟨more, rfl⟩ := Nat.exists_eq_add_of_le' hfuel
    rw [moduleInnerEvaluation, moduleEnter_of_not_linked 0 hst]
    cases specVisited s m <;> rfl

/-- Evaluate by frames is Evaluate by recursion, outside any other Evaluate call. -/
lemma moduleEvaluate_eq (s : ModuleState n V) (hev : s.evaluating = false) (m : Fin n) :
    ∃ out, specEvaluate g script s m = some out ∧
      ∃ fuel₀, ∀ fuel, fuel₀ ≤ fuel → moduleEvaluate g script fuel s m = some out := by
  unfold specEvaluate moduleEvaluate specEvaluateModule moduleEvaluateRecord
  generalize s.evaluationTarget m = m
  by_cases hcap : (s.records m).topLevelCapability.isPromise
  · exact ⟨_, if_pos hcap, 0, fun _ _ => if_pos hcap⟩
  · simp only [hcap, hev, Bool.false_eq_true, if_false]
    set s₀ : ModuleState n V :=
      { s.update m fun r => { r with topLevelCapability := .pending } with
        stack := [], evaluating := true } with hs₀
    obtain ⟨result, s', index', hin, fuel₀, hrun⟩ :=
      @moduleInnerEvaluation_eq _ _ g script s₀ m
    refine ⟨_, by rw [hin]; rfl, fuel₀, fun fuel hfuel => ?_⟩
    rw [hrun fuel hfuel]
    cases result with
    | normal =>
      simp only [specConclude]
      split <;> rfl
    | throw error =>
      -- The walk is abrupt, so its root is on the stack, or it was errored to begin with.
      have hroot : m ∈ s'.stack ∨ (s'.records m).errored := by
        by_cases hst : (s₀.records m).status = .linked
        · have hsuf := (specInner_stack hin).2 hst (by simp)
          exact Or.inl (hsuf.subset mem_cons_self)
        · right
          rw [specInner_of_not_linked n 0 hst, Option.some.injEq, mk.injEq,
            mk.injEq] at hin
          obtain ⟨hres, rfl, -⟩ := hin
          unfold specVisited at hres
          split at hres
          · next herr => exact herr.2
          · cases hres
      dsimp only
      rw [← moduleEvaluateRecord_conclude m error { s' with evaluating := false } hroot]
    | failure => rfl

section
variable {fuel : ℕ} {s : ModuleState n V} {m : Fin n} {out : Result V × ModuleState n V}

lemma moduleInnerEvaluation_mono (h : moduleInnerEvaluation g script fuel s m = some out)
    (more : ℕ) : moduleInnerEvaluation g script (fuel + more) s m = some out := by
  unfold moduleInnerEvaluation at h ⊢
  generalize moduleEnter ⟨s, [], 0⟩ m = entered at h ⊢
  rcases entered with ⟨_ | error | _, visit, w⟩
  · obtain ⟨end', hloop, hout⟩ := Option.map_eq_some_iff.mp h
    exact Option.map_eq_some_iff.mpr ⟨end', moduleFrameLoop_mono hloop more, hout⟩
  · exact h
  · exact h

lemma moduleEvaluate_mono (h : moduleEvaluate g script fuel s m = some out)
    (more : ℕ) : moduleEvaluate g script (fuel + more) s m = some out := by
  unfold moduleEvaluate moduleEvaluateRecord at h ⊢
  split at h
  · next hcap => rwa [if_pos hcap]
  · next hcap =>
    rw [if_neg hcap]
    split at h
    · next hev => rwa [if_pos hev]
    · next hev =>
      rw [if_neg hev]
      dsimp only at h ⊢
      split at h
      · cases h
      · next hin => rwa [moduleInnerEvaluation_mono hin more]

/-- Whatever fuel the driver ends with, it ends as the recursion does. -/
lemma specEvaluate_of_moduleEvaluate (hev : s.evaluating = false)
    (h : moduleEvaluate g script fuel s m = some out) : specEvaluate g script s m = some out := by
  obtain ⟨out', hspec, fuel₀, hrun⟩ := @moduleEvaluate_eq _ _ g script s hev m
  have hmore := moduleEvaluate_mono h fuel₀
  rw [hrun (fuel + fuel₀) (Nat.le_add_left _ _)] at hmore
  rw [hspec, hmore]

end

end Oseo.ModuleEvaluation
