import Oseo.ModuleEvaluation.InnerTheorems

/-!
# What Evaluate keeps

The invariant between jobs, and that an Evaluate call keeps it, whether its walk ends
normally or fails the modules left on the stack.
-/

namespace Oseo.ModuleEvaluation

open List

variable {n : ℕ} {V : Type} {g : ModuleGraph n} {script : ℕ → Result V}
  {events : List (ModuleEvent n V)} {s s' : ModuleState n V}

/-! ## Between jobs -/

/-- The invariant between jobs, and between the turns of gathered modules: those of
`except` are about to run. -/
structure Settling (g : ModuleGraph n) (events : List (ModuleEvent n V)) (s : ModuleState n V)
    (except : List (Fin n)) : Prop where
  consistent : Consistent g events s
  counted : Counted s except
  evaluating : s.evaluating = false
  no_stack : ∀ m, s.status m ≠ .evaluating
  gathered : ∀ m, (s.records m).gathered = false
  reactions : ∀ x ∈ s.reactions.map Prod.fst, x ∈ s.called
  capability : ∀ m, s.status m = .linked → (s.records m).topLevelCapability.isPromise = false

/-- The invariant between jobs. -/
abbrev Idle (g : ModuleGraph n) (events : List (ModuleEvent n V)) (s : ModuleState n V) : Prop :=
  Settling g events s []

lemma Settling.stack {except : List (Fin n)} (h : Settling g events s except) :
    s.stack = [] := by
  rw [eq_nil_iff_forall_not_mem]
  exact fun m hm => h.no_stack m ((h.consistent.mem_stack m).mp hm)

lemma Consistent.initial [Inhabited V] (g : ModuleGraph n) :
    Consistent g [] (ModuleState.initial n V) := by
  have hstatus : ∀ m, (ModuleState.initial n V).status m = .linked := fun _ => rfl
  constructor
  case of_linked => exact fun _ _ => ⟨rfl, rfl, rfl, not_mem_nil⟩
  case of_stack => exact fun m hm => by simp [hstatus] at hm
  case of_async => exact fun m hm => by simp [hstatus] at hm
  case of_finished => exact fun _ _ => .inl rfl
  case root_off => exact fun m hm => by simp [ModuleState.Off, hstatus] at hm
  case root_waits => exact fun m hm => by simp [hstatus] at hm
  case edge => exact fun m hm => by simp [ModuleState.Off, hstatus] at hm
  case order_le => exact fun _ _ => le_refl _
  case order_inj => exact fun x _ hx => absurd rfl hx.1
  case threw => exact fun _ hm => by cases hm
  case entries_le =>
    intro m
    have : (ModuleState.initial n V).entries m = 0 :=
      Finset.sum_eq_zero fun x _ => count_nil
    omega
  case stack_nodup => exact nodup_nil
  case mem_stack =>
    exact fun m => ⟨fun hm => absurd hm not_mem_nil, fun hm => by simp [hstatus] at hm⟩
  case root_errored => exact fun _ hm => by cases hm
  case parent_status => exact fun _ _ hx => absurd rfl hx.1
  case parent_visited => exact fun _ _ hm => absurd hm not_mem_nil
  case parent_imports => exact fun _ _ hm => absurd hm not_mem_nil
  case parent_errored => exact fun _ _ hx => by cases hx
  case parent_stack => exact fun _ _ _ hm => absurd hm not_mem_nil
  case parent_order => exact fun _ _ hm => absurd hm not_mem_nil
  case called_nodup => exact nodup_nil
  case called_waits => exact fun _ hm => absurd hm not_mem_nil
  case calls_ready => exact fun _ hc => absurd hc not_mem_nil
  case calls_kept => exact .nil
  case errors_kept => exact fun _ hc => absurd hc not_mem_nil
  case count_le => exact Nat.zero_le _
  case no_underflow => rfl

lemma Idle.initial [Inhabited V] (g : ModuleGraph n) : Idle g [] (ModuleState.initial n V) where
  consistent := .initial g
  counted := fun m hm => by
    rcases hm with hm | hm
    · exact nomatch hm.1
    · exact nomatch hm
  evaluating := rfl
  no_stack := fun _ h => nomatch h
  gathered := fun _ => rfl
  reactions := fun _ hx => absurd hx not_mem_nil
  capability := fun _ _ => rfl

/-- A longer history explains no fewer errors. -/
lemma Consistent.history (h : Consistent g events s) (event : ModuleEvent n V) :
    Consistent g (events ++ [event]) s := by
  refine { h with threw := fun m hm => ?_ }
  obtain ⟨x, hx, hxt⟩ := h.threw m hm
  exact ⟨x, hx, hxt.imp id fun hev => mem_append_left _ hev⟩

/-! ## What a walk leaves alone -/

/-- No error, no capability, and no mark of GatherAvailableAncestors, changes. -/
structure Untouched (s s' : ModuleState n V) : Prop where
  errored : ∀ y, s'.errored y = s.errored y
  evaluationError : ∀ y, s'.evaluationError y = s.evaluationError y
  gathered : ∀ y, (s'.records y).gathered = (s.records y).gathered
  capability : ∀ y, (s'.records y).topLevelCapability = (s.records y).topLevelCapability

lemma Untouched.of_records (h : s'.records = s.records) : Untouched s s' :=
  ⟨fun y => by rw [ModuleState.errored, h], fun y => by rw [ModuleState.evaluationError, h],
    fun y => by rw [h], fun y => by rw [h]⟩

lemma Untouched.trans {s'' : ModuleState n V} (h : Untouched s s') (h' : Untouched s' s'') :
    Untouched s s'' :=
  ⟨fun y => (h'.errored y).trans (h.errored y),
    fun y => (h'.evaluationError y).trans (h.evaluationError y),
    fun y => (h'.gathered y).trans (h.gathered y),
    fun y => (h'.capability y).trans (h.capability y)⟩

lemma Untouched.update (s : ModuleState n V) (m : Fin n)
    {f : ModuleRecord n V → ModuleRecord n V} (h₁ : ∀ r, (f r).errored = r.errored := by intro; rfl)
    (h₂ : ∀ r, (f r).evaluationError = r.evaluationError := by intro; rfl)
    (h₃ : ∀ r, (f r).gathered = r.gathered := by intro; rfl)
    (h₄ : ∀ r, (f r).topLevelCapability = r.topLevelCapability := by intro; rfl) :
    Untouched s (s.update m f) :=
  ⟨update_field (·.errored) s m (h₁ _), update_field (·.evaluationError) s m (h₂ _),
    update_field (·.gathered) s m (h₃ _), update_field (·.topLevelCapability) s m (h₄ _)⟩

lemma untouched_specWait (s : ModuleState n V) (m x : Fin n) :
    Untouched s (specWait s m x) := by
  unfold specWait
  split
  · exact (Untouched.update s m).trans (.update _ x)
  · exact .of_records rfl

lemma untouched_specAfterInner (s : ModuleState n V) (m r : Fin n) :
    Untouched s (specAfterInner s m r).2 := by
  unfold specAfterInner
  split
  · exact (Untouched.update s m).trans (untouched_specWait _ _ _)
  · dsimp only
    split
    · exact .of_records rfl
    · exact untouched_specWait _ _ _

lemma untouched_specEndCycle (m : Fin n) (stack : List (Fin n)) (s : ModuleState n V) :
    Untouched s (specEndCycle m stack s) := by
  induction stack generalizing s with
  | nil => exact .of_records rfl
  | cons member rest ih =>
    have hup := Untouched.update s member (f := .leave m)
    rw [specEndCycle]
    split
    · exact hup.trans (.of_records rfl)
    · exact hup.trans (ih _)

lemma untouched_specExecute (s : ModuleState n V) (m : Fin n) :
    Untouched s (specExecute g script s m).2 := by
  have ho : Untouched s (takeOrder s m) :=
    ⟨(takeOrder_orders s m).errored, (takeOrder_orders s m).evaluationError,
      update_field (·.gathered) _ m rfl, update_field (·.topLevelCapability) _ m rfl⟩
  rcases @specExecute_cases _ _ g script s m with ⟨-, hex⟩ | ⟨-, -, ⟨_, bc⟩, -⟩ | ⟨-, -, bc⟩
  · rw [hex]
    exact ho
  · exact ho.trans (.of_records bc.records)
  · exact .of_records bc.records

lemma specEnd_cases (s : ModuleState n V) (m : Fin n) :
    (specEnd g script s m).2 = (specExecute g script s m).2 ∨
      ∃ stack, (specEnd g script s m).2 = specEndCycle m stack (specExecute g script s m).2 := by
  unfold specEnd
  rcases specExecute g script s m with ⟨_ | error | _, s₁⟩
  · dsimp only
    split
    · exact .inr ⟨_, rfl⟩
    · exact .inl rfl
  · exact .inl rfl
  · exact .inl rfl

/-- Every reaction attached so far belongs to a called module. -/
def ReactionsCalled (s : ModuleState n V) : Prop :=
  ∀ x ∈ s.reactions.map Prod.fst, x ∈ s.called

lemma ReactionsCalled.congr (h : ReactionsCalled s) (hr : s'.reactions = s.reactions)
    (hc : s'.calls = s.calls) : ReactionsCalled s' := by
  intro x hx
  rw [hr] at hx
  rw [called_congr hc]
  exact h x hx

lemma ReactionsCalled.callEvaluator (h : ReactionsCalled s) (m : Fin n) :
    ReactionsCalled (moduleCallEvaluator script s m).2 := by
  intro x hx
  rw [(moduleCallEvaluator_calls s m).called]
  exact mem_append_left _ (h x hx)

lemma ReactionsCalled.executeAsync (h : ReactionsCalled s) (m : Fin n) :
    ReactionsCalled (moduleExecuteAsync script s m).2 := by
  obtain ⟨⟨result, bc⟩, -⟩ := @moduleExecuteAsync_calls _ _ script s m
  have hreact : ∀ x ∈ (moduleExecuteAsync script s m).2.reactions.map Prod.fst,
      x ∈ s.reactions.map Prod.fst ∨ x = m := by
    intro x hx
    unfold moduleExecuteAsync moduleCallEvaluator at hx
    cases hres : script s.calls.length <;> simp [hres] at hx ⊢ <;> tauto
  intro x hx
  rw [bc.called, mem_append, mem_singleton]
  exact (hreact x hx).imp (h x) id

lemma specWait_reactions (s : ModuleState n V) (m x : Fin n) :
    (specWait s m x).reactions = s.reactions ∧ (specWait s m x).calls = s.calls := by
  unfold specWait
  split <;> exact ⟨rfl, rfl⟩

lemma specEndCycle_reactions (m : Fin n) (stack : List (Fin n)) (s : ModuleState n V) :
    (specEndCycle m stack s).reactions = s.reactions ∧
      (specEndCycle m stack s).calls = s.calls := by
  induction stack generalizing s with
  | nil => exact ⟨rfl, rfl⟩
  | cons member rest ih =>
    rw [specEndCycle]
    split
    · exact ⟨rfl, rfl⟩
    · exact ih _

lemma specAfterInner_reactions (s : ModuleState n V) (m r : Fin n) :
    (specAfterInner s m r).2.reactions = s.reactions ∧
      (specAfterInner s m r).2.calls = s.calls := by
  unfold specAfterInner
  split
  · exact specWait_reactions _ m r
  · dsimp only
    split
    · exact ⟨rfl, rfl⟩
    · exact specWait_reactions s m _

lemma ReactionsCalled.execute (h : ReactionsCalled s) (m : Fin n) :
    ReactionsCalled (specExecute g script s m).2 := by
  have ho : ReactionsCalled (takeOrder s m) := h.congr rfl rfl
  have hif : specExecute g script s m
      = if 0 < s.pending m ∨ g.hasTopLevelAwait m then
          if (takeOrder s m).pending m = 0 then moduleExecuteAsync script (takeOrder s m) m
          else (.normal, takeOrder s m)
        else moduleCallEvaluator script s m := rfl
  rw [hif]
  split
  · split
    · exact ho.executeAsync m
    · exact ho
  · exact h.callEvaluator m

/-- The calls made since `s` find the errors of `s`. -/
def CallsKept (s s' : ModuleState n V) : Prop :=
  ∀ c ∈ s'.calls, c ∈ s.calls ∨ ErrorsKept s.records c.records

lemma CallsKept.refl (s : ModuleState n V) : CallsKept s s := fun _ hc => .inl hc

lemma CallsKept.congr {t : ModuleState n V} (h : CallsKept s t) (hc : s'.calls = t.calls) :
    CallsKept s s' := fun c hc' => h c (hc ▸ hc')

lemma CallsKept.trans {s'' : ModuleState n V} (h : CallsKept s s') (h' : CallsKept s' s'')
    (hkept : ErrorsKept s.records s'.records) : CallsKept s s'' := by
  intro c hc
  rcases h' c hc with hc | hc
  · exact h c hc
  · refine .inr fun y hy => ?_
    have h₁ := hkept y hy
    have h₂ := hc y h₁.1
    exact ⟨h₂.1, h₂.2.trans h₁.2⟩

lemma Untouched.kept (h : Untouched s s') : ErrorsKept s.records s'.records := fun y hy =>
  ⟨(h.errored y).trans hy, h.evaluationError y⟩

lemma Calls.callsKept {t : ModuleState n V} {m : Fin n} {result : Result V} (b : Calls t s' m result)
    (h : CallsKept s t) (hkept : ErrorsKept s.records t.records) : CallsKept s s' := by
  intro c hc
  rw [b.calls, mem_append, mem_singleton] at hc
  rcases hc with hc | rfl
  · exact h c hc
  · exact .inr hkept

lemma CallsKept.execute {t : ModuleState n V} (h : CallsKept s t)
    (hkept : ErrorsKept s.records t.records) (m : Fin n) :
    CallsKept s (specExecute g script t m).2 := by
  have bo := takeOrder_orders t m
  have hkept' : ErrorsKept s.records (takeOrder t m).records := fun y hy =>
    ⟨(bo.errored y).trans (hkept y hy).1, (bo.evaluationError y).trans (hkept y hy).2⟩
  rcases @specExecute_cases _ _ g script t m with ⟨-, hex⟩ | ⟨-, -, ⟨_, bc⟩, -⟩ | ⟨-, -, bc⟩
  · rw [hex]
    exact h.congr rfl
  · exact bc.callsKept (h.congr rfl) hkept'
  · exact bc.callsKept h hkept

section
variable {calls index index' : ℕ} {m : Fin n} {result : Result V}
  (h : specInner g script calls s index m = some (result, s', index'))
include h

/-- A walk changes no error, marks no module as gathered, and attaches reactions to called
modules only. -/
lemma specInner_untouched
    (hreact : ReactionsCalled s) : Untouched s s' ∧ ReactionsCalled s' ∧ CallsKept s s' := by
  refine specInner_invariant (fun t => Untouched s t ∧ ReactionsCalled t ∧ CallsKept s t) ?_ ?_ ?_
    h ⟨.of_records rfl, hreact, .refl s⟩
  · intro t i m hst ⟨h₁, h₂, h₃⟩
    have b := specBegin_begins i hst
    refine ⟨h₁.trans ⟨b.errored, b.evaluationError, ?_, ?_⟩, h₂.congr rfl rfl, h₃.congr rfl⟩ <;>
      intro y
    all_goals
      by_cases hy : y = m
      · simp [hy, specBegin]
      · simp only [specBegin]
        rw [t.update_records_of_ne _ hy]
  · intro t m r ⟨h₁, h₂, h₃⟩
    obtain ⟨hr, hc⟩ := specAfterInner_reactions t m r
    exact ⟨h₁.trans (untouched_specAfterInner t m r), h₂.congr hr hc, h₃.congr hc⟩
  · intro t m ⟨h₁, h₂, h₃⟩
    have h₄ := h₁.trans (@untouched_specExecute _ _ g script t m)
    have h₅ := @ReactionsCalled.execute _ _ g script t h₂ m
    have h₆ := @CallsKept.execute _ _ g script s t h₃ h₁.kept m
    rcases @specEnd_cases _ _ g script t m with he | ⟨stack, he⟩ <;> rw [he]
    · exact ⟨h₄, h₅, h₆⟩
    · obtain ⟨hr, hc⟩ := specEndCycle_reactions m stack (specExecute g script t m).2
      exact ⟨h₄.trans (untouched_specEndCycle m stack _), h₅.congr hr hc, h₆.congr hc⟩

/-- The evaluators a walk calls are those of modules it has entered. -/
lemma specInner_called :
    (∀ y ∈ s'.called, y ∈ s.called ∨ s.status y = .linked) ∧
      ∀ y, s'.status y = .linked → s.status y = .linked := by
  have hsub : ∀ {s s' : ModuleState n V}, s'.linkedModules ⊆ s.linkedModules →
      ∀ y, s'.status y = .linked → s.status y = .linked := fun hsub y hy =>
    mem_linkedModules.mp (hsub (mem_linkedModules.mpr hy))
  have hafter : ∀ (s : ModuleState n V) (m r : Fin n),
      (specAfterInner s m r).2.called = s.called := fun s m r =>
    called_congr (specAfterInner_reactions s m r).2
  have hend : ∀ (s : ModuleState n V) (m : Fin n), ∀ y ∈ (specEnd g script s m).2.called,
      y ∈ s.called ∨ y = m := by
    intro s m y hy
    have hex : y ∈ (specExecute g script s m).2.called := by
      rcases @specEnd_cases _ _ g script s m with he | ⟨stack, he⟩ <;> rw [he] at hy
      · exact hy
      · rwa [called_congr (specEndCycle_reactions m stack _).2] at hy
    rcases @specExecute_cases _ _ g script s m with ⟨-, he⟩ | ⟨-, -, ⟨_, bc⟩, -⟩ | ⟨-, -, bc⟩
    · rw [he] at hex
      exact .inl hex
    · rw [bc.called, mem_append, mem_singleton] at hex
      exact hex
    · rw [bc.called, mem_append, mem_singleton] at hex
      exact hex
  refine specInner_rule
    (fun s _ _ _ s' _ => (∀ y ∈ s'.called, y ∈ s.called ∨ s.status y = .linked) ∧
      ∀ y, s'.status y = .linked → s.status y = .linked)
    (fun _ _ _ s _ _ s' _ => (∀ y ∈ s'.called, y ∈ s.called ∨ s.status y = .linked) ∧
      ∀ y, s'.status y = .linked → s.status y = .linked)
    ?_ ?_ ?_ ?_ ?_ ?_ calls s index m result s' index' h
  · exact fun s _ _ _ => ⟨fun _ hy => .inl hy, fun _ hy => hy⟩
  · intro s index m result s' index' hst ⟨h₁, h₂⟩
    have hbegin := hsub (linkedModules_specBegin index hst).subset
    have h₃ : (∀ y ∈ s'.called, y ∈ s.called ∨ s.status y = .linked) ∧
        ∀ y, s'.status y = .linked → s.status y = .linked :=
      ⟨fun y hy => (h₁ y hy).imp id (hbegin y), fun y hy => hbegin y (h₂ y hy)⟩
    cases result with
    | normal =>
      refine ⟨fun y hy => ?_, fun y hy => h₃.2 y (hsub (linkedModules_specEnd s' m) y hy)⟩
      rcases hend s' m y hy with hy | rfl
      · exact h₃.1 y hy
      · exact .inr hst
    | throw error => exact h₃
    | failure => exact h₃
  · exact fun _ _ s _ => ⟨fun _ hy => .inl hy, fun _ hy => hy⟩
  · exact fun _ _ _ _ _ _ _ _ _ ih _ => ih
  · intro m done r rest s index s₁ index₁ result s₂ ⟨h₁, h₂⟩ hsa _
    have hs₂ : s₂ = (specAfterInner s₁ m r).2 := by rw [hsa]
    subst hs₂
    exact ⟨fun y hy => h₁ y (hafter s₁ m r ▸ hy),
      fun y hy => h₂ y (hsub (linkedModules_specAfterInner s₁ m r) y hy)⟩
  · intro m done r rest s index s₁ index₁ s₂ result s' index' ⟨h₁, h₂⟩ hsa ⟨h₃, h₄⟩
    have hs₂ : s₂ = (specAfterInner s₁ m r).2 := by rw [hsa]
    subst hs₂
    have hl := hsub (linkedModules_specAfterInner s₁ m r)
    refine ⟨fun y hy => ?_, fun y hy => h₂ y (hl y (h₄ y hy))⟩
    rcases h₃ y hy with hy | hy
    · exact h₁ y (hafter s₁ m r ▸ hy)
    · exact .inr (h₂ y (hl y hy))

end

/-! ## Evaluate -/

/-- Nothing on the stack, nothing on the path. -/
lemma OnPath.nil (hs : ∀ m, s.status m ≠ .evaluating) (hstack : s.stack = []) :
    OnPath g s [] 0 := by
  constructor
  case path_stack => exact fun f hf => absurd hf not_mem_nil
  case path_index => exact .nil
  case path_done => exact fun f hf => absurd hf not_mem_nil
  case stack_index =>
    rw [hstack]
    exact .nil
  case parents_low => exact fun x _ hx => absurd hx (hs x)
  all_goals exact fun w hw => absurd hw (hs w)

/-- A walk that has returned from its first activation has emptied the stack. -/
lemma OnPath.no_stack {index : ℕ} (h : OnPath g s [] index) (m : Fin n) :
    s.status m ≠ .evaluating := by
  intro hm
  obtain ⟨f, hf, -⟩ := h.up m hm
  exact not_mem_nil hf

/-- The first activation always closes its cycle. -/
lemma Returned.not_nil {m : Fin n} {index : ℕ} : ¬Returned g s [] m index := by
  intro h
  obtain ⟨u, hu, hui, -⟩ := h.onPath.low m (h.onPath.path_stack _ mem_cons_self)
  obtain ⟨f, hf, hle, -⟩ := h.onPath.up u hu
  rw [mem_singleton] at hf
  rw [hf, hui] at hle
  exact absurd h.low (not_lt.mpr hle)

/-- The modules left on the stack fail. -/
lemma specFail_fails (s : ModuleState n V) (error : V) :
    Fails s
      { s with
        records := fun m =>
          if m ∈ s.stack then
            { s.records m with
              status := .evaluated, errored := true, evaluationError := error }
          else s.records m
        stack := [] } (· ∈ s.stack) error := by
  constructor
  case status_mem => exact fun m hm => congrArg ModuleRecord.status (if_pos hm)
  case status_ne => exact fun m hm => congrArg ModuleRecord.status (if_neg hm)
  case errored_mem => exact fun m hm => congrArg ModuleRecord.errored (if_pos hm)
  case errored_ne => exact fun m hm => congrArg ModuleRecord.errored (if_neg hm)
  case error_mem => exact fun m hm => congrArg ModuleRecord.evaluationError (if_pos hm)
  case error_ne => exact fun m hm => congrArg ModuleRecord.evaluationError (if_neg hm)
  case order_ne => exact fun m hm => congrArg ModuleRecord.asyncEvaluationOrder (if_neg hm)
  case cycleRoot => intro m; dsimp only [ModuleState.cycleRoot]; split <;> rfl
  case order_set => intro m; dsimp only [ModuleState.order]; split <;> rfl
  case parents => intro m; dsimp only [ModuleState.parents]; split <;> rfl
  case pending => intro m; dsimp only [ModuleState.pending]; split <;> rfl
  case stack_sublist => exact nil_sublist _
  case mem_stack =>
    exact fun m => ⟨fun hm => absurd hm not_mem_nil, fun hm => absurd hm.1 hm.2⟩
  all_goals rfl

/-- A capability is neutral. -/
lemma settleCapability_field {α : Type} (F : ModuleRecord n V → α)
    (hF : ∀ r c, F { r with topLevelCapability := c } = F r) (s : ModuleState n V) (i : Fin n)
    (fulfilled : Bool) (y : Fin n) :
    F ((moduleSettleCapability s i fulfilled).records y) = F (s.records y) := by
  refine update_field F s i ?_ y
  split
  · exact hF _ _
  · exact hF _ _
  · rfl

lemma settleCapability_neutral (s : ModuleState n V) (i : Fin n) (fulfilled : Bool) :
    Neutral s (moduleSettleCapability s i fulfilled) where
  status := settleCapability_field (·.status) (fun _ _ => rfl) s i fulfilled
  errored := settleCapability_field (·.errored) (fun _ _ => rfl) s i fulfilled
  evaluationError := settleCapability_field (·.evaluationError) (fun _ _ => rfl) s i fulfilled
  cycleRoot := settleCapability_field (·.cycleRoot) (fun _ _ => rfl) s i fulfilled
  order := settleCapability_field (·.asyncEvaluationOrder) (fun _ _ => rfl) s i fulfilled
  parents := settleCapability_field (·.asyncParents) (fun _ _ => rfl) s i fulfilled
  stack := rfl
  calls := rfl
  count := rfl
  underflow := rfl

/-- A change that is neutral, and that leaves the counters and the marks, keeps the
invariant between jobs. -/
lemma Settling.neutral {except : List (Fin n)} (h : Settling g events s except)
    (b : Neutral s s')
    (hpending : ∀ y, s'.pending y = s.pending y)
    (hgathered : ∀ y, (s'.records y).gathered = (s.records y).gathered)
    (hev : s'.evaluating = s.evaluating) (hreact : ∀ x ∈ s'.reactions, x ∈ s.reactions)
    (hcap : ∀ y, s.status y = .linked →
      (s'.records y).topLevelCapability.isPromise = (s.records y).topLevelCapability.isPromise) :
    Settling g events s' except where
  consistent := h.consistent.neutral b
  counted := h.counted.congr b.status b.errored b.cycleRoot hpending b.parents fun y _ _ => by
    rw [ModuleState.Unfinished, ModuleState.Unfinished, b.order, b.status]
  evaluating := hev.trans h.evaluating
  no_stack := fun m => by rw [b.status]; exact h.no_stack m
  gathered := fun m => (hgathered m).trans (h.gathered m)
  reactions := fun x hx => by
    rw [called_congr b.calls]
    refine h.reactions x ?_
    obtain ⟨p, hp, rfl⟩ := mem_map.mp hx
    exact mem_map_of_mem (hreact p hp)
  capability := fun m hm => by
    rw [b.status] at hm
    exact (hcap m hm).trans (h.capability m hm)

lemma settleCapability_isPromise (s : ModuleState n V) (i : Fin n) (fulfilled : Bool)
    (y : Fin n) : ((moduleSettleCapability s i fulfilled).records y).topLevelCapability.isPromise
      = (s.records y).topLevelCapability.isPromise := by
  refine update_field (fun r => r.topLevelCapability.isPromise) s i ?_ y
  split
  · next h => rw [h]; rfl
  · next h => rw [h]; rfl
  · rfl

lemma Settling.settleCapability {except : List (Fin n)} (h : Settling g events s except)
    (i : Fin n) (fulfilled : Bool) :
    Settling g events (moduleSettleCapability s i fulfilled) except :=
  h.neutral (settleCapability_neutral s i fulfilled)
    (settleCapability_field (·.pendingAsyncDependencies) (fun _ _ => rfl) s i fulfilled)
    (settleCapability_field (·.gathered) (fun _ _ => rfl) s i fulfilled) rfl (fun _ hx => hx)
    fun y _ => settleCapability_isPromise s i fulfilled y

/-- While its cycle root has no error, a module imports none with an error. -/
lemma Idle.root_errored_of_imports (h : Idle g events s) {m e : Fin n} (hm : s.Off m)
    (hme : g.Imports m e) (he : s.errored e = true) :
    s.errored (s.moduleCycleRoot m) = true := by
  by_contra herr
  have hstep : s.errored (s.moduleCycleRoot e) = false ∧ s.Off e := by
    clear he
    induction hme with
    | refl => exact ⟨by simpa using herr, hm⟩
    | @tail b c _ hbc ih =>
      have hb : s.errored b = false := by
        by_contra hb
        have := h.consistent.root_errored b (by simpa using hb)
        rw [ih.1] at this
        cases this
      have hedge := h.consistent.edge b ih.2 hb c hbc
      have hroot : s.errored (s.moduleCycleRoot c) = false ∧ s.Off (s.moduleCycleRoot c) := by
        rcases hedge with he | he | ⟨-, he, -⟩
        · rw [he]
          exact ⟨ih.1, (h.consistent.root_off b ih.2).1⟩
        · exact ⟨he.2, .inr he.1⟩
        · exact ⟨(h.consistent.of_async _ he).2, .inl he⟩
      refine ⟨hroot.1, ?_⟩
      by_contra hoff
      rw [h.consistent.not_off_of_none hoff] at hroot
      exact hoff hroot.2
  have := h.consistent.root_errored e he
  rw [hstep.1] at this
  cases this

/-- What a job leaves behind. It calls no module whose cycle root had an error. -/
structure JobPost (g : ModuleGraph n) (events : List (ModuleEvent n V)) (s : ModuleState n V)
    (result : Result V) (s' : ModuleState n V) : Prop where
  consistent : Consistent g events s'
  idle : result = .normal → Idle g events s'
  kept : ErrorsKept s.records s'.records
  linked : ∀ m, s'.status m = .linked → s.status m = .linked
  called : ∀ m ∈ s'.called, m ∈ s.called ∨ s.errored (s.moduleCycleRoot m) = false
  calls : CallsKept s s'

/-- What an Evaluate call of `m` leaves behind. -/
structure EvaluatePost (g : ModuleGraph n) (events : List (ModuleEvent n V))
    (s : ModuleState n V) (m : Fin n) (result : Result V) (s' : ModuleState n V) : Prop extends
    JobPost g events s result s' where
  errored : result = .normal → s.status m = .linked → (∃ e, g.Imports m e ∧ s.errored e = true) →
    s'.errored m = true

/-- The end of an Evaluate call whose walk ended normally. -/
lemma evaluatePost_normal {m : Fin n} {s₁ s₂ : ModuleState n V}
    (hlinked : ∀ m, s₂.status m = .linked → s.status m = .linked)
    (hcalled : ∀ m ∈ s₂.called, m ∈ s.called ∨ s.errored (s.moduleCycleRoot m) = false)
    (hcalls : CallsKept s s₂) (hkept : ErrorsKept s.records s₂.records) (hidle : Idle g events s₂)
    (hroot : s.status m = .linked →
      s₂.status m ≠ .linked ∧ s₂.moduleCycleRoot m = m ∧ s₂.errored m = false)
    {t : Fin n} (hs' : s₁ = s₂ ∨ s₁ = moduleSettleCapability s₂ t true) :
    EvaluatePost g events s m .normal s₁ := by
  have hidle₁ : Idle g events s₁ := by
    rcases hs' with rfl | rfl
    · exact hidle
    · exact hidle.settleCapability t true
  have hkept₁ : ErrorsKept s.records s₁.records := by
    rcases hs' with rfl | rfl
    · exact hkept
    · have b := settleCapability_neutral s₂ t true
      intro y hy
      exact ⟨(b.errored y).trans (hkept y hy).1, (b.evaluationError y).trans (hkept y hy).2⟩
  refine ⟨⟨hidle₁.consistent, fun _ => hidle₁, hkept₁, ?_, ?_, ?_⟩, fun _ hl ⟨e, hme, he⟩ => ?_⟩
  · rcases hs' with rfl | rfl
    · exact hlinked
    · intro y hy
      rw [(settleCapability_neutral s₂ t true).status] at hy
      exact hlinked y hy
  · rcases hs' with rfl | rfl <;> exact hcalled
  · rcases hs' with rfl | rfl <;> exact hcalls
  obtain ⟨hm, hr, herr⟩ := hroot hl
  have hoff : s₂.Off m := by
    have := hidle.no_stack m
    rw [ModuleState.Off]
    cases hst : s₂.status m <;> simp_all
  have := hidle.root_errored_of_imports hoff hme (hkept e he).1
  rw [hr, herr] at this
  cases this

/-- The stack fails with the error that ended the walk. -/
lemma failClosed_stack {error : V} {x : Fin n} (hc : Consistent g events s)
    (hx : s.Threw events x error) (himp : ∀ w, s.status w = .evaluating → g.Imports w x) :
    FailClosed g events s (· ∈ s.stack) error := by
  constructor
  case status => exact fun m hm => .inl ((hc.mem_stack m).mp hm)
  case stack => exact fun m _ _ y hy => (hc.mem_stack y).mpr hy
  case parents =>
    intro y hy p hp
    exact .inl ((hc.mem_stack p).mpr (hc.parent_stack y p ((hc.mem_stack y).mp hy) hp))
  case root =>
    intro m hm
    rw [moduleCycleRoot_of_none (hc.of_stack m ((hc.mem_stack m).mp hm)).1]
    exact .inl hm
  case threw => exact fun m hm => ⟨x, himp m ((hc.mem_stack m).mp hm), hx⟩

/-- A walk from an idle table, and what it leaves on the table. -/
lemma Idle.walk (h : Idle g events s) {t : Fin n} {s₁ s₂ : ModuleState n V} {result : Result V}
    {index : ℕ}
    (hs₁ : s₁ = { s.update t fun r => { r with topLevelCapability := .pending } with
      stack := [], evaluating := true })
    (hin : specInner g script n s₁ 0 t = some (result, s₂, index)) :
    InnerPost g events s₁ [] t result s₂ index ∧ ErrorsKept s.records s₂.records ∧
      (∀ m, (s₂.records m).gathered = false) ∧ ReactionsCalled s₂ ∧
      (∀ m, s₂.status m = .linked → s.status m = .linked ∧
        (m ≠ t → (s₂.records m).topLevelCapability.isPromise = false)) ∧
      (∀ m, s₁.status m = s.status m) ∧
      (∀ m ∈ s₂.called, m ∈ s.called ∨ s.errored (s.moduleCycleRoot m) = false) ∧
      CallsKept s s₂ := by
  have hfield : ∀ {α : Type} (F : ModuleRecord n V → α),
      (∀ r, F { r with topLevelCapability := .pending } = F r) →
      ∀ y, F (s₁.records y) = F (s.records y) := by
    intro α F hF y
    rw [hs₁]
    exact update_field F s t (f := fun r => { r with topLevelCapability := .pending }) (hF _) y
  have hstatus : ∀ m, s₁.status m = s.status m := hfield (·.status) fun _ => rfl
  have hb : Neutral s s₁ := by
    refine ⟨hstatus, hfield (·.errored) fun _ => rfl, hfield (·.evaluationError) fun _ => rfl,
      hfield (·.cycleRoot) fun _ => rfl, hfield (·.asyncEvaluationOrder) fun _ => rfl,
      hfield (·.asyncParents) fun _ => rfl, ?_, ?_, ?_, ?_⟩
    · rw [h.stack, hs₁]
    all_goals rw [hs₁]; rfl
  have hpending : ∀ m, s₁.pending m = s.pending m :=
    hfield (·.pendingAsyncDependencies) fun _ => rfl
  have hreact : ReactionsCalled s₁ :=
    .congr (s := s) h.reactions (by rw [hs₁]; rfl) hb.calls
  have hcount : Counted s₁ [] :=
    h.counted.congr hb.status hb.errored hb.cycleRoot hpending hb.parents fun y _ _ => by
      rw [ModuleState.Unfinished, ModuleState.Unfinished, hb.order, hb.status]
  have hno : ∀ m, s₁.status m ≠ .evaluating := fun m => by
    rw [hstatus]
    exact h.no_stack m
  have hpost := specInner_post hin (h.consistent.neutral hb) hcount
    (.nil hno (hb.stack.trans h.stack)) (fun f hf => absurd hf not_mem_nil)
    (fun f hf => by cases hf)
  obtain ⟨hun, hreact₂, hcalls⟩ := specInner_untouched hin hreact
  have hkept₁ : ErrorsKept s.records s₁.records := fun y hy =>
    ⟨(hb.errored y).trans hy, hb.evaluationError y⟩
  obtain ⟨hcalled, hlinked⟩ := specInner_called hin
  refine ⟨hpost, ?_, ?_, hreact₂, ?_, hstatus, ?_,
    .trans ((CallsKept.refl s).congr hb.calls) hcalls hkept₁⟩
  · intro y hy
    exact ⟨((hun.errored y).trans (hb.errored y)).trans hy,
      (hun.evaluationError y).trans (hb.evaluationError y)⟩
  · exact fun m => ((hun.gathered m).trans (hfield (·.gathered) (fun _ => rfl) m)).trans
      (h.gathered m)
  · intro m hm
    have hm₁ := (hstatus m).symm.trans (hlinked m hm)
    refine ⟨hm₁, fun hmt => ?_⟩
    have hrec : s₁.records m = s.records m := by
      rw [hs₁]
      exact s.update_records_of_ne (fun r => { r with topLevelCapability := .pending }) hmt
    rw [hun.capability, hrec]
    exact h.capability m hm₁
  · intro m hm
    rcases hcalled m hm with hm | hm
    · rw [called_congr hb.calls] at hm
      exact .inl hm
    · rw [hstatus] at hm
      have hl := h.consistent.of_linked m hm
      rw [moduleCycleRoot_of_none hl.2.1]
      exact .inr hl.2.2.1

/-- An Evaluate call keeps the invariant between jobs. -/
lemma Idle.evaluate (h : Idle g events s) {fuel : ℕ} {m : Fin n} {result : Result V}
    (hrun : moduleEvaluate g script fuel s m = some (result, s')) :
    EvaluatePost g events s m result s' := by
  have hspec := specEvaluate_of_moduleEvaluate h.evaluating hrun
  rw [specEvaluate] at hspec
  have htarget : s.status m = .linked → s.evaluationTarget m = m := by
    intro hm
    rw [ModuleState.status] at hm
    simp [ModuleState.evaluationTarget, hm]
  generalize s.evaluationTarget m = t at hspec htarget
  rw [specEvaluateModule] at hspec
  split at hspec
  · -- The capability of an earlier call is returned.
    next hcap =>
    rw [Option.some.injEq, Prod.mk.injEq] at hspec
    obtain ⟨rfl, rfl⟩ := hspec
    refine ⟨⟨h.consistent, fun _ => h, fun _ hy => ⟨hy, rfl⟩, fun _ hy => hy,
      fun _ hy => .inl hy, .refl s⟩, fun _ hl _ => ?_⟩
    rw [htarget hl, h.capability m hl] at hcap
    cases hcap
  · dsimp only at hspec
    obtain ⟨⟨result₂, s₂, index⟩, hin, hconc⟩ := Option.map_eq_some_iff.mp hspec
    obtain ⟨hpost, hkept, hgathered, hreact, hcap, hstatus, hcalled, hcalls⟩ := h.walk rfl hin
    set s₃ : ModuleState n V := { s₂ with evaluating := false } with hs₃
    have hb : Neutral s₂ s₃ := ⟨fun _ => rfl, fun _ => rfl, fun _ => rfl, fun _ => rfl,
      fun _ => rfl, fun _ => rfl, rfl, rfl, rfl, rfl⟩
    cases result₂ with
    | normal =>
      obtain ⟨hc, hcount, -, hpath⟩ := hpost
      obtain ⟨hpath, hlinked, hroot⟩ := hpath.resolve_right Returned.not_nil
      have hidle : Idle g events s₃ :=
        ⟨hc.neutral hb, hcount.records rfl, rfl, hpath.no_stack, hgathered, hreact,
          fun y hy => (hcap y hy).2 (by rintro rfl; exact hlinked hy)⟩
      have hkept₃ : ErrorsKept s.records s₃.records := hkept
      have hlinked₃ : ∀ y, s₃.status y = .linked → s.status y = .linked := fun y hy => (hcap y hy).1
      have hend : result = .normal ∧ (s' = s₃ ∨ s' = moduleSettleCapability s₃ t true) := by
        rw [specConclude] at hconc
        split at hconc <;> rw [Prod.mk.injEq] at hconc
        · exact ⟨hconc.1.symm, .inr hconc.2.symm⟩
        · exact ⟨hconc.1.symm, .inl hconc.2.symm⟩
      obtain ⟨rfl, hs'⟩ := hend
      refine evaluatePost_normal hlinked₃ hcalled (hcalls.congr rfl) hkept₃ hidle (fun hl => ?_) hs'
      have ht := htarget hl
      subst ht
      exact ⟨hlinked, hroot ((hstatus _).trans hl)⟩
    | throw error =>
      obtain ⟨hc, hcount, x, hx, himp⟩ := hpost
      have hc₃ := hc.neutral hb
      have hcount₃ : Counted s₃ [] := hcount.records rfl
      have hb' := specFail_fails s₃ error
      have d := failClosed_stack hc₃ hx himp
      rw [specConclude, Prod.mk.injEq] at hconc
      obtain ⟨rfl, rfl⟩ := hconc
      set s₄ : ModuleState n V :=
        { s₃ with
          records := fun m =>
            if m ∈ s₃.stack then
              { s₃.records m with status := .evaluated, errored := true, evaluationError := error }
            else s₃.records m
          stack := [] } with hs₄
      have hkept₄ : ErrorsKept s.records s₄.records := by
        intro y hy
        have h₁ := hkept y hy
        have h₂ := hb'.kept hc₃ d y h₁.1
        exact ⟨h₂.1, h₂.2.trans h₁.2⟩
      have hroot : s.status t = .linked → t ∈ s₃.stack := fun hl =>
        ((specInner_stack hin).2 ((hstatus t).trans hl) (by simp)).subset mem_cons_self
      have hidle : Idle g events s₄ := by
        refine ⟨hc₃.fails hb' d, hcount₃.fails hc₃ hb' d, rfl, ?_, ?_, hreact, ?_⟩
        · intro y hy
          by_cases hys : y ∈ s₃.stack
          · simp [hb'.status_mem y hys] at hy
          · rw [hb'.status_ne y hys] at hy
            exact hys ((hc₃.mem_stack y).mpr hy)
        · intro y
          refine .trans ?_ (hgathered y)
          rw [hs₄]
          dsimp only
          split <;> rfl
        · intro y hy
          have hys : y ∉ s₃.stack := fun hys => by simp [hb'.status_mem y hys] at hy
          rw [hb'.status_ne y hys] at hy
          have hrec : s₄.records y = s₃.records y := if_neg hys
          rw [hrec]
          refine (hcap y hy).2 ?_
          rintro rfl
          exact hys (hroot (hcap y hy).1)
      refine ⟨⟨?_, ?_, ?_, ?_, hcalled, hcalls.congr rfl⟩, ?_⟩
      · exact (hidle.settleCapability t false).consistent
      · exact fun _ => hidle.settleCapability t false
      · have bs := settleCapability_neutral s₄ t false
        intro y hy
        exact ⟨(bs.errored y).trans (hkept₄ y hy).1, (bs.evaluationError y).trans (hkept₄ y hy).2⟩
      · intro y hy
        rw [(settleCapability_neutral s₄ t false).status] at hy
        have hys : y ∉ s₃.stack := fun hys => by simp [hb'.status_mem y hys] at hy
        rw [hb'.status_ne y hys] at hy
        exact (hcap y hy).1
      · intro _ hl _
        have ht := htarget hl
        subst ht
        rw [(settleCapability_neutral s₄ _ false).errored]
        exact hb'.errored_mem _ (hroot hl)
    | failure =>
      rw [specConclude, Prod.mk.injEq] at hconc
      obtain ⟨rfl, rfl⟩ := hconc
      exact ⟨⟨.neutral hpost hb, (fun hr => by cases hr), hkept,
        fun y hy => (hcap y hy).1, hcalled, hcalls.congr rfl⟩, fun hr => by cases hr⟩

end Oseo.ModuleEvaluation
