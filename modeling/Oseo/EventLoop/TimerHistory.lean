import Mathlib.Data.List.Basic

/-!
# Histories of timers

What a sequence of operations says of every timer: whether it is scheduled, was cleared or ran,
and its deadline. `TimerAnswers` is the result an operation has to have.
-/

namespace Oseo.EventLoop

open Function
open List

/-- What became of a timer. -/
inductive TimerStatus
  | absent
  | scheduled
  | cleared
  | ran
deriving DecidableEq

/-- One operation with its result. Timers are named by their creation order. -/
inductive TimerEvent (D : Type)
  | create (order deadline id : ℕ)
  | failed (error : String)
  | clear (handle : Option D) (order : Option ℕ)
  | cancel (order : Option ℕ)
  | peek (deadline : Option ℕ)
  | look
  | turn (clock : ℕ) (order : Option ℕ)

/-- What a sequence of operations says of every timer. -/
structure TimerHistory where
  status : ℕ → TimerStatus
  deadline : ℕ → ℕ
  id : ℕ → ℕ
  /-- The clock of the last turn. -/
  clock : ℕ

/-- The order of timers: by deadline, and then by creation. -/
def TimerHistory.Before (h : TimerHistory) (o o' : ℕ) : Prop :=
  h.deadline o < h.deadline o' ∨ h.deadline o = h.deadline o' ∧ o < o'

/-- The history in which a timer has another status. -/
def TimerHistory.setStatus (h : TimerHistory) (o : ℕ) (status : TimerStatus) : TimerHistory :=
  { h with status := Function.update h.status o status }

/-- The history in which a timer is cleared, unless it ran. -/
def TimerHistory.clear (h : TimerHistory) (o : ℕ) : TimerHistory :=
  if h.status o = .scheduled then h.setStatus o .cleared else h

/-- The history with one more timer. -/
def TimerHistory.create (h : TimerHistory) (o deadline id : ℕ) : TimerHistory where
  status := Function.update h.status o .scheduled
  deadline := Function.update h.deadline o deadline
  id := Function.update h.id o id
  clock := h.clock

section
variable {D : Type}

/-- One operation. -/
def timerStep (h : TimerHistory) : TimerEvent D → TimerHistory
  | .create order deadline id => h.create order deadline id
  | .clear _ (some o) => h.clear o
  | .cancel (some o) => h.clear o
  | .turn clock (some o) => { h.setStatus o .ran with clock := clock }
  | .turn clock none => { h with clock := clock }
  | _ => h

/-- The history before the first operation. -/
def TimerHistory.start : TimerHistory := ⟨fun _ => .absent, fun _ => 0, fun _ => 0, 0⟩

/-- What a sequence of operations says of every timer. -/
def timersAfter (events : List (TimerEvent D)) : TimerHistory :=
  events.foldl timerStep TimerHistory.start

/-- The result an operation has to have. A turn runs the first scheduled timer, which is due
and comes after every timer that ran before. No deadline is before the clock of a past turn. -/
def TimerAnswers [DecidableEq D] (number : ℕ → D) (h : TimerHistory) : TimerEvent D → Prop
  | .create order deadline _ => h.clock ≤ deadline ∧ ∀ o, h.status o ≠ .absent → o < order
  | .clear handle (some o) =>
    (h.status o = .scheduled ∨ h.status o = .cleared) ∧ h.id o ≠ 0 ∧
      handle = some (number (h.id o))
  | .clear handle none =>
    ∀ o, h.status o = .scheduled → h.id o ≠ 0 → handle ≠ some (number (h.id o))
  | .peek (some deadline) => ∃ o, h.status o = .scheduled ∧ h.deadline o = deadline ∧
      ∀ o', h.status o' = .scheduled → o' = o ∨ h.Before o o'
  | .peek none => ∀ o, h.status o ≠ .scheduled
  | .turn clock (some o) => h.clock ≤ clock ∧ h.status o = .scheduled ∧ h.deadline o ≤ clock ∧
      (∀ o', h.status o' = .scheduled → o' = o ∨ h.Before o o') ∧
      ∀ o', h.status o' = .ran → h.Before o' o
  | .turn clock none => h.clock ≤ clock ∧ ∀ o, h.status o ≠ .scheduled
  | _ => True

end

variable {h : TimerHistory}

/-! ## Lemmas on histories -/

lemma TimerHistory.Before.trans {o o' o'' : ℕ} (h₁ : h.Before o o') (h₂ : h.Before o' o'') :
    h.Before o o'' := by
  unfold TimerHistory.Before at *
  omega

lemma TimerHistory.Before.irrefl {o : ℕ} : ¬h.Before o o := by
  unfold TimerHistory.Before
  omega

section
variable (h : TimerHistory)

lemma TimerHistory.create_of_ne {o o' deadline id : ℕ} (ho : o' ≠ o) :
    (h.create o deadline id).status o' = h.status o' ∧
      (h.create o deadline id).deadline o' = h.deadline o' ∧
      (h.create o deadline id).id o' = h.id o' :=
  ⟨update_of_ne ho _ _, update_of_ne ho _ _, update_of_ne ho _ _⟩

lemma TimerHistory.create_self (o deadline id : ℕ) :
    (h.create o deadline id).status o = .scheduled ∧
      (h.create o deadline id).deadline o = deadline ∧ (h.create o deadline id).id o = id :=
  ⟨update_self o _ h.status, update_self o _ h.deadline,
    update_self o _ h.id⟩

lemma TimerHistory.clear_of_ne {o o' : ℕ} (ho : o' ≠ o) :
    (h.clear o).status o' = h.status o' := by
  unfold TimerHistory.clear
  split
  · exact update_of_ne ho _ _
  · rfl

lemma TimerHistory.clear_self (o : ℕ) :
    (h.clear o).status o = if h.status o = .scheduled then .cleared else h.status o := by
  unfold TimerHistory.clear
  split
  · exact update_self o _ h.status
  · rfl

@[simp] lemma TimerHistory.clear_deadline (o : ℕ) :
    (h.clear o).deadline = h.deadline := by
  unfold TimerHistory.clear
  split <;> rfl

@[simp] lemma TimerHistory.clear_clock (o : ℕ) :
    (h.clear o).clock = h.clock := by
  unfold TimerHistory.clear
  split <;> rfl

@[simp] lemma TimerHistory.clear_id (o : ℕ) : (h.clear o).id = h.id := by
  unfold TimerHistory.clear
  split <;> rfl

end

/-- Clearing a timer makes no other status than cleared. -/
lemma TimerHistory.clear_status {h : TimerHistory} {o o' : ℕ} {status : TimerStatus}
    (hst : (h.clear o).status o' = status) (hne : status ≠ .cleared) : h.status o' = status := by
  by_cases ho : o' = o
  · subst ho
    rw [h.clear_self] at hst
    split at hst
    · exact absurd hst.symm hne
    · exact hst
  · rwa [h.clear_of_ne ho] at hst

section
variable {D : Type}

lemma timersAfter_concat (past : List (TimerEvent D)) (event : TimerEvent D) :
    timersAfter (past ++ [event]) = timerStep (timersAfter past) event := by
  unfold timersAfter
  rw [foldl_append, foldl_cons, foldl_nil]

variable [DecidableEq D] {number : ℕ → D}

/-! ## What a sequence of operations does to a timer -/

/-- The timer that an operation runs. -/
def TimerEvent.ran : TimerEvent D → Option ℕ
  | .turn _ o => o
  | _ => none

/-- Every operation of a sequence has its result. -/
def AllAnswer (number : ℕ → D) : TimerHistory → List (TimerEvent D) → Prop
  | _, [] => True
  | h, event :: rest => TimerAnswers number h event ∧ AllAnswer number (timerStep h event) rest

/-- A timer that ran or was cleared. -/
def TimerStatus.Done (status : TimerStatus) : Prop := status = .cleared ∨ status = .ran

lemma allAnswer_of_forall {past rest : List (TimerEvent D)}
    (hall : ∀ before event after, past ++ rest = before ++ event :: after →
      TimerAnswers number (timersAfter before) event) :
    AllAnswer number (timersAfter past) rest := by
  induction rest generalizing past with
  | nil => trivial
  | cons event rest ih =>
    refine ⟨hall past event rest rfl, ?_⟩
    rw [← timersAfter_concat]
    apply ih
    rw [append_assoc, singleton_append]
    exact hall

section
variable {event : TimerEvent D} (hanswers : TimerAnswers number h event)
include hanswers

/-- What one operation changes of a timer: it is created, cleared or run, or stays as it is. -/
lemma timerStep_status (o : ℕ) :
    (timerStep h event).status o = h.status o ∨
      h.status o = .absent ∧ (timerStep h event).status o = .scheduled ∨
      h.status o = .scheduled ∧ ((timerStep h event).status o).Done := by
  have hclear : ∀ o', (h.clear o').status o = h.status o ∨
      h.status o = .scheduled ∧ ((h.clear o').status o).Done := by
    intro o'
    by_cases ho : o = o'
    · subst ho
      rw [h.clear_self]
      by_cases hst : h.status o = .scheduled
      · rw [if_pos hst]
        exact .inr ⟨hst, .inl rfl⟩
      · rw [if_neg hst]
        exact .inl rfl
    · exact .inl (h.clear_of_ne ho)
  cases event with
  | create order deadline id =>
    by_cases ho : o = order
    · subst ho
      refine .inr (.inl ⟨?_, (h.create_self o deadline id).1⟩)
      -- A created timer has an order above those of the others.
      by_contra hne
      exact Nat.lt_irrefl o (hanswers.2 o hne)
    · exact .inl (h.create_of_ne ho).1
  | clear handle found =>
    cases found with
    | none => exact .inl rfl
    | some o' => exact (hclear o').imp_right .inr
  | cancel found =>
    cases found with
    | none => exact .inl rfl
    | some o' => exact (hclear o').imp_right .inr
  | turn clock found =>
    cases found with
    | none => exact .inl rfl
    | some o' =>
      by_cases ho : o = o'
      · subst ho
        exact .inr (.inr ⟨hanswers.2.1, .inr (update_self o _ h.status)⟩)
      · exact .inl (update_of_ne ho _ h.status)
  | failed => exact .inl rfl
  | peek => exact .inl rfl
  | look => exact .inl rfl

lemma timerStep_done {o : ℕ}
    (ho : (h.status o).Done) : (timerStep h event).status o = h.status o := by
  rcases timerStep_status hanswers o with hst | ⟨hst, -⟩ | ⟨hst, -⟩
  · exact hst
  all_goals
    rw [hst] at ho
    exact absurd ho (by simp [TimerStatus.Done])

/-- The timer that an operation runs was scheduled, and ran then. -/
lemma timerStep_ran {o : ℕ}
    (ho : event.ran = some o) :
    h.status o = .scheduled ∧ (timerStep h event).status o = .ran ∧
      ∀ o', h.status o' = .scheduled → o' = o ∨ h.Before o o' := by
  cases event with
  | turn clock found =>
    obtain rfl : found = some o := ho
    exact ⟨hanswers.2.1, update_self o _ h.status, hanswers.2.2.2.1⟩
  | create => cases ho
  | failed => cases ho
  | clear => cases ho
  | cancel => cases ho
  | peek => cases ho
  | look => cases ho

end

section
variable {rest : List (TimerEvent D)} (hall : AllAnswer number h rest)
include hall

/-- A timer that ran or was cleared does not run. -/
lemma not_ran_of_done {o : ℕ}
    (ho : (h.status o).Done) : o ∉ rest.filterMap TimerEvent.ran := by
  induction rest generalizing h with
  | nil => simp
  | cons event rest ih =>
    rw [mem_filterMap]
    intro ⟨event', hmem, hran⟩
    rcases mem_cons.mp hmem with rfl | hmem
    · rw [(timerStep_ran hall.1 hran).1] at ho
      exact absurd ho (by simp [TimerStatus.Done])
    · apply ih hall.2
      · rwa [timerStep_done hall.1 ho]
      · exact mem_filterMap.mpr ⟨event', hmem, hran⟩

/-- No timer runs twice. -/
lemma ran_nodup :
    (rest.filterMap TimerEvent.ran).Nodup := by
  induction rest generalizing h with
  | nil => exact nodup_nil
  | cons event rest ih =>
    cases hran : event.ran with
    | none =>
      rw [filterMap_cons_none hran]
      exact ih hall.2
    | some o =>
      rw [filterMap_cons_some hran, nodup_cons]
      refine ⟨not_ran_of_done hall.2 (.inr ?_), ih hall.2⟩
      exact (timerStep_ran hall.1 hran).2.1

/-- A timer has run exactly when an operation ran it. -/
lemma ran_iff (o : ℕ) :
    (rest.foldl timerStep h).status o = .ran ↔
      h.status o = .ran ∨ o ∈ rest.filterMap TimerEvent.ran := by
  induction rest generalizing h with
  | nil => simp
  | cons event rest ih =>
    rw [foldl_cons, ih hall.2]
    cases hran : event.ran with
    | none =>
      rw [filterMap_cons_none hran]
      -- An operation that runs no timer gives none that status.
      have hsame : (timerStep h event).status o = .ran ↔ h.status o = .ran := by
        constructor
        · intro hst
          cases event with
          | create order deadline id =>
            by_cases ho : o = order
            · subst ho
              rw [show (timerStep h (.create o deadline id)).status o = .scheduled from
                (h.create_self o deadline id).1] at hst
              cases hst
            · rwa [show (timerStep h (.create order deadline id)).status o = h.status o from
                (h.create_of_ne ho).1] at hst
          | clear handle found =>
            cases found with
            | none => exact hst
            | some o' => exact TimerHistory.clear_status hst (by decide)
          | cancel found =>
            cases found with
            | none => exact hst
            | some o' => exact TimerHistory.clear_status hst (by decide)
          | turn clock found =>
            obtain rfl : found = none := hran
            exact hst
          | failed => exact hst
          | peek => exact hst
          | look => exact hst
        · intro hst
          rw [timerStep_done hall.1 (Or.inr hst), hst]
      rw [hsame]
    | some o' =>
      rw [filterMap_cons_some hran, mem_cons]
      obtain ⟨hst, hst', -⟩ := timerStep_ran hall.1 hran
      by_cases ho : o = o'
      · subst ho
        simp [hst']
      · have hsame : (timerStep h event).status o = h.status o := by
          cases event with
          | turn clock found =>
            obtain rfl : found = some o' := hran
            exact update_of_ne ho _ h.status
          | create => cases hran
          | failed => cases hran
          | clear => cases hran
          | cancel => cases hran
          | peek => cases hran
          | look => cases hran
        rw [hsame]
        simp [ho]

end

/-- What one operation leaves as it is: the deadlines of the timers there are, and the order of
the past. -/
lemma timerStep_deadline {event : TimerEvent D} (hanswers : TimerAnswers number h event) {o : ℕ}
    (ho : h.status o ≠ .absent) :
    (timerStep h event).deadline o = h.deadline o ∧ h.clock ≤ (timerStep h event).clock := by
  cases event with
  | create order deadline id =>
    have hne : o ≠ order := Nat.ne_of_lt (hanswers.2 o ho)
    exact ⟨(h.create_of_ne hne).2.1, Nat.le_refl _⟩
  | clear handle found =>
    cases found with
    | none => exact ⟨rfl, Nat.le_refl _⟩
    | some o' => exact ⟨congrFun (h.clear_deadline o') o, Nat.le_of_eq (h.clear_clock o').symm⟩
  | cancel found =>
    cases found with
    | none => exact ⟨rfl, Nat.le_refl _⟩
    | some o' => exact ⟨congrFun (h.clear_deadline o') o, Nat.le_of_eq (h.clear_clock o').symm⟩
  | turn clock found =>
    cases found with
    | none => exact ⟨rfl, hanswers.1⟩
    | some o' => exact ⟨rfl, hanswers.1⟩
  | failed => exact ⟨rfl, Nat.le_refl _⟩
  | peek => exact ⟨rfl, Nat.le_refl _⟩
  | look => exact ⟨rfl, Nat.le_refl _⟩

/-- A new timer does not come before one that is due. -/
lemma before_of_timerStep {event : TimerEvent D} (hanswers : TimerAnswers number h event)
    {o o' : ℕ} (ho : h.status o = .scheduled) (hdue : h.deadline o ≤ h.clock)
    (ho' : (timerStep h event).status o' = .scheduled)
    (hlt : (timerStep h event).Before o' o) : h.status o' = .scheduled ∧ h.Before o' o := by
  have hexists : h.status o ≠ .absent := by
    rw [ho]
    decide
  have hdeadline := (timerStep_deadline hanswers hexists).1
  rcases timerStep_status hanswers o' with hst | ⟨hst, -⟩ | ⟨-, hdone⟩
  · rw [hst] at ho'
    refine ⟨ho', ?_⟩
    have hdeadline' := (timerStep_deadline hanswers (o := o') (by rw [ho']; decide)).1
    unfold TimerHistory.Before at hlt ⊢
    rwa [hdeadline, hdeadline'] at hlt
  · cases event with
    | create order deadline id =>
      by_cases hoo : o' = order
      · subst hoo
        have hge := hanswers.1
        have hlater := hanswers.2 o hexists
        unfold TimerHistory.Before at hlt
        rw [hdeadline, show (timerStep h (.create o' deadline id)).deadline o' = deadline from
          (h.create_self o' deadline id).2.1] at hlt
        omega
      · rw [show (timerStep h (.create order deadline id)).status o' = h.status o' from
          (h.create_of_ne hoo).1, hst] at ho'
        cases ho'
    | clear handle found =>
      cases found with
      | none => cases hst.symm.trans ho'
      | some o'' => cases hst.symm.trans (TimerHistory.clear_status ho' (by decide))
    | cancel found =>
      cases found with
      | none => cases hst.symm.trans ho'
      | some o'' => cases hst.symm.trans (TimerHistory.clear_status ho' (by decide))
    | turn clock found =>
      cases found with
      | none => cases hst.symm.trans ho'
      | some o'' =>
        by_cases hoo : o' = o''
        · subst hoo
          cases hst.symm.trans hanswers.2.1
        · cases hst.symm.trans ((update_of_ne hoo _ h.status).symm.trans ho')
    | failed => cases hst.symm.trans ho'
    | peek => cases hst.symm.trans ho'
    | look => cases hst.symm.trans ho'
  · rw [ho'] at hdone
    exact absurd hdone (by simp [TimerStatus.Done])

/-- A timer that ran or was cleared stays so. -/
lemma foldl_done {rest : List (TimerEvent D)} (hall : AllAnswer number h rest) {o : ℕ}
    (ho : (h.status o).Done) : (rest.foldl timerStep h).status o = h.status o := by
  induction rest generalizing h with
  | nil => rfl
  | cons event rest ih =>
    have hsame := timerStep_done hall.1 ho
    rw [foldl_cons, ih hall.2 (by rwa [hsame]), hsame]

/-- What runs before a timer that is due was scheduled before it already. -/
lemma ran_ahead {rest : List (TimerEvent D)} (hall : AllAnswer number h rest) {o : ℕ}
    (ho : h.status o = .scheduled) (hdue : h.deadline o ≤ h.clock)
    (hend : (rest.foldl timerStep h).status o = .scheduled) :
    ∀ o' ∈ rest.filterMap TimerEvent.ran, h.status o' = .scheduled ∧ h.Before o' o := by
  induction rest generalizing h with
  | nil => simp
  | cons event rest ih =>
    have hexists : h.status o ≠ .absent := by
      rw [ho]
      decide
    -- It is scheduled after the operation too, or it would not be at the end.
    have hkeep : (timerStep h event).status o = .scheduled := by
      rcases timerStep_status hall.1 o with hst | ⟨hst, -⟩ | ⟨-, hst⟩
      · rw [hst, ho]
      · exact absurd hst hexists
      · rw [foldl_cons, foldl_done hall.2 hst] at hend
        exact hend
    obtain ⟨hdeadline, hclock⟩ := timerStep_deadline hall.1 hexists
    intro o' ho'
    rw [mem_filterMap] at ho'
    obtain ⟨event', hmem, hran⟩ := ho'
    rcases mem_cons.mp hmem with rfl | hmem
    · obtain ⟨hst, hst', hfirst⟩ := timerStep_ran hall.1 hran
      refine ⟨hst, (hfirst o ho).resolve_left fun heq => ?_⟩
      rw [heq, hst'] at hkeep
      cases hkeep
    · obtain ⟨hst, hlt⟩ := ih hall.2 hkeep (by omega) hend o'
        (mem_filterMap.mpr ⟨event', hmem, hran⟩)
      exact before_of_timerStep hall.1 ho hdue hst hlt

end

end Oseo.EventLoop
