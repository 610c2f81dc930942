import Oseo.EventLoop.TimerTheorems

/-!
# Timer turns and runs

A turn waits for the first live timer and runs it when it is due. It ends as soon as the clock
shows its deadline.
-/

namespace Oseo.EventLoop

open Option
open Oseo.Library

section

open Prod (mk)

variable {F D : Type} {s s' : TimerQueue F} {h : TimerHistory} {queue : List TimerRef}

/-! ## Creating timers -/

lemma deadlineAfter_ge {base delay : ℕ} (hbase : base < 2 ^ 64) :
    base ≤ deadlineAfter base delay := by
  unfold deadlineAfter
  split <;> omega

/-- Writing a new timer behind the address `r`. -/
lemma writes_setTimer {r : TimerRef} {f : Timer F → Timer F} {deadline id : ℕ}
    (horder : (f (s.timer r)).order = s.nextTimerOrder)
    (hdeadline : (f (s.timer r)).deadline = deadline) (hid : (f (s.timer r)).id = id)
    (hlive : (f (s.timer r)).canceled = false) (nextId : ℕ) :
    Writes s
      { s.setTimer r f with
        nextTimerId := nextId
        nextTimerOrder := s.nextTimerOrder + 1 } r deadline id := by
  have hself : (s.setTimer r f).timer r = f (s.timer r) := by simp
  constructor
  case timerOrder => exact (congrArg Timer.order hself).trans horder
  case timerDeadline => exact (congrArg Timer.deadline hself).trans hdeadline
  case timerId => exact (congrArg Timer.id hself).trans hid
  case canceled => exact (congrArg Timer.canceled hself).trans hlive
  case others =>
    intro x hx
    exact (setTimer_timer s r f x).trans (if_neg hx)
  all_goals rfl

/-- `setTimeout` ends, with an error or a new timer. -/
lemma setTimeout_tracks (ht : s.Tracks h queue) {env : SetTimeoutEnvironment}
    (hfresh : ∀ r, env.timer = some r → r ∉ queue) (callback : F) (arguments : List F) :
    ∃ result, setTimeout s callback arguments env = some result ∧
      (∀ e, result.1 = .error e → result.2.Tracks h queue) ∧
      ∀ id, result.1 = .ok id → ∃ r queue', env.timer = some r ∧
        result.2.order r = s.nextTimerOrder ∧ h.clock ≤ (result.2.timer r).deadline ∧
        result.2.Tracks (h.create s.nextTimerOrder (result.2.timer r).deadline id) queue' := by
  unfold setTimeout
  by_cases hcallable : env.callable = false
  · exact ⟨_, if_pos hcallable, fun _ _ => ht, nofun⟩
  rw [if_neg hcallable]
  cases hdelay : env.delay with
  | error e => exact ⟨_, rfl, fun _ _ => ht, nofun⟩
  | ok number =>
    cases hclock : clockStart s env.clock with
    | error e => exact ⟨_, rfl, fun _ _ => ht, nofun⟩
    | ok s₁ =>
      obtain ⟨ht₁, hstarted, -, -, horder, hid⟩ := clockStart_tracks ht hclock
      cases hargs : env.argumentsError with
      | some e => exact ⟨_, rfl, fun _ _ => ht₁, nofun⟩
      | none =>
        cases htimer : env.timer with
        | none => exact ⟨_, rfl, fun _ _ => ht₁, nofun⟩
        | some r =>
          have hwrites := @writes_setTimer _ s₁ r (fun _ =>
              { next := none
                callback := some callback
                arguments := arguments
                waiter := none
                deadline := deadlineAfter s₁.clockMilliseconds (timerDelay number)
                id := s₁.nextTimerId
                order := s₁.nextTimerOrder
                canceled := false })
            _ _ rfl rfl rfl rfl (s₁.nextTimerId + 1)
          have hr := hfresh r htimer
          cases hpublish : env.publishError with
          | some e => exact ⟨_, rfl, fun _ _ => ht₁.write hr hwrites, nofun⟩
          | none =>
            obtain ⟨s₂, queue', hlink, ht₂, hdeadline₂, horder₂, hid₂⟩ :=
              ht₁.create hr hwrites hstarted (deadlineAfter_ge ht₁.clock.1)
            refine ⟨(.ok s₁.nextTimerId, s₂), ?_, nofun, fun id hok => ?_⟩
            · exact congrArg (Option.map fun s => (Except.ok s₁.nextTimerId, s)) hlink
            · cases hok
              have hge := @deadlineAfter_ge _ (timerDelay number) ht₁.clock.1
              refine ⟨r, queue', rfl, horder₂.trans horder, ?_⟩
              rw [hdeadline₂, ← horder]
              exact ⟨Nat.le_trans ht₁.seen hge, ht₂⟩

lemma atomicsDeadline_ge {base : ℕ} (hbase : base < 2 ^ 64) (timeout : ℚ) :
    base ≤ atomicsDeadline base timeout :=
  deadlineAfter_ge hbase

/-- A waiter's timeout ends, with an error or a new timer. -/
lemma atomicsAddTimeout_tracks (ht : s.Tracks h queue) {timer : Option TimerRef}
    (hfresh : ∀ r, timer = some r → r ∉ queue) (waiter : F) (timeout : ℚ) (inCluster : Bool)
    (reading : ClockReading) (publishError : Option String) :
    ∃ result, atomicsAddTimeout s waiter timeout inCluster reading timer publishError =
        some result ∧
      (∀ e, result.1 = .error e → result.2.Tracks h queue) ∧
      ∀ r, result.1 = .ok r → ∃ queue', timer = some r ∧
        result.2.order r = s.nextTimerOrder ∧ h.clock ≤ (result.2.timer r).deadline ∧
        result.2.Tracks (h.create s.nextTimerOrder (result.2.timer r).deadline 0) queue' := by
  unfold atomicsAddTimeout
  cases hclock : clockNow s reading with
  | error e => exact ⟨_, rfl, fun _ _ => ht, nofun⟩
  | ok read =>
    obtain ⟨now, s₁⟩ := read
    obtain ⟨ht₁, hstarted, -, -, horder, -, hnow, hlt⟩ := clockNow_tracks ht hclock
    cases htimer : timer with
    | none => exact ⟨_, rfl, fun _ _ => ht₁, nofun⟩
    | some r =>
      have hr := hfresh r htimer
      -- The deadline is the saturated one, or a millisecond later in a cluster.
      obtain ⟨deadline, hdeadline, hge⟩ : ∃ deadline,
          deadline = (if inCluster = true ∧ atomicsDeadline now timeout < 2 ^ 64 - 1 then
            atomicsDeadline now timeout + 1 else atomicsDeadline now timeout) ∧
          s₁.clockMilliseconds ≤ deadline := by
        refine ⟨_, rfl, ?_⟩
        have hbase := atomicsDeadline_ge hlt timeout
        split <;> omega
      have hwrites := @writes_setTimer _ s₁ r (fun _ =>
          { next := none
            callback := none
            arguments := []
            waiter := some waiter
            deadline := deadline
            id := 0
            order := s₁.nextTimerOrder
            canceled := false })
        _ _ rfl rfl rfl rfl s₁.nextTimerId
      simp only [← hdeadline]
      cases hpublish : publishError with
      | some e => exact ⟨_, rfl, fun _ _ => ht₁.write hr hwrites, nofun⟩
      | none =>
        obtain ⟨s₂, queue', hlink, ht₂, hdeadline₂, horder₂, -⟩ :=
          ht₁.create hr hwrites hstarted hge
        refine ⟨(.ok r, s₂), ?_, nofun, fun r' hok => ?_⟩
        · exact congrArg (Option.map fun s => (Except.ok r, s)) hlink
        · cases hok
          refine ⟨queue', rfl, horder₂.trans horder, ?_⟩
          rw [hdeadline₂, ← horder]
          exact ⟨Nat.le_trans ht₁.seen hge, ht₂⟩

/-! ## Waiting for a timer -/

/-- A wait ends at an empty queue, or at a live timer that is due. -/
lemma waitForDueTimer_tracks {wakeups : List Wakeup} {result : Except String Unit}
    (ht : s.Tracks h queue) (hrun : waitForDueTimer wakeups s = some (result, s')) :
    ∃ queue', s'.Tracks h queue' ∧ (result = .ok () → ∀ r, s'.timerHead = some r →
      (s'.timer r).canceled = false ∧ (s'.timer r).deadline ≤ s'.clockMilliseconds) := by
  induction wakeups generalizing s queue
  all_goals
    obtain ⟨s₁, queue₁, hunlink, ht₁, hlive, -⟩ := unlinkCanceled_tracks ht ht.length_le
    unfold waitForDueTimer at hrun
    simp only [hunlink] at hrun
    cases hhead : s₁.timerHead
  case nil.none | cons.none =>
    simp only [hhead, some.injEq, mk.injEq] at hrun
    obtain ⟨-, rfl⟩ := hrun
    exact ⟨queue₁, ht₁, fun _ r hr => by rw [hhead] at hr; cases hr⟩
  case nil.some => simp [hhead] at hrun
  case cons.some wakeup wakeups ih r =>
    simp only [hhead] at hrun
    cases hclock : clockNow s₁ wakeup.reading with
    | error e =>
      simp only [hclock, some.injEq, mk.injEq] at hrun
      obtain ⟨rfl, rfl⟩ := hrun
      exact ⟨queue₁, ht₁, nofun⟩
    | ok read =>
      obtain ⟨now, s₂⟩ := read
      obtain ⟨ht₂, hstarted, htimer, hhead₂, -, -, hnow, hlt⟩ := clockNow_tracks ht₁ hclock
      simp only [hclock] at hrun
      by_cases hdue : (s₂.timer r).deadline ≤ now
      · simp only [hdue, if_true, some.injEq, mk.injEq] at hrun
        obtain ⟨-, rfl⟩ := hrun
        refine ⟨queue₁, ?_, fun _ r' hr' => ?_⟩
        · refine ht₂.withClock (fun h => h) hnow (fun hun => ?_) ⟨hlt, ht₂.clock.2⟩
          rw [hstarted] at hun
          cases hun
        · have hrr : r = r' := some.inj ((hhead₂.trans hhead).symm.trans hr')
          subst hrr
          exact ⟨by rw [htimer]; exact hlive r hhead, hdue⟩
      · simp only [hdue, if_false] at hrun
        cases hwait : wakeup.waitError with
        | some e =>
          simp only [hwait, some.injEq, mk.injEq] at hrun
          obtain ⟨rfl, rfl⟩ := hrun
          exact ⟨queue₁, ht₂, nofun⟩
        | none =>
          simp only [hwait] at hrun
          exact ih ht₂ hrun

/-- The first live timer is unlinked, if there is one. -/
lemma takeTimer_live {fuel : ℕ} {r : TimerRef} (hhead : s.timerHead = some r)
    (hlive : (s.timer r).canceled = false) :
    takeTimer fuel s = some (some r, unlinkHead s r) := by
  unfold takeTimer
  simp [hhead, hlive]

lemma takeTimer_empty {fuel : ℕ} (hhead : s.timerHead = none) :
    takeTimer fuel s = some (none, s) := by
  unfold takeTimer
  simp [hhead]

/-- A turn that ends notes its clock. -/
lemma TimerQueue.Tracks.seeClock (ht : s.Tracks h queue) :
    s.Tracks { h with clock := s.clockMilliseconds } queue :=
  { ht with seen := Nat.le_refl _ }

/-- A turn runs the first scheduled timer, which is due and comes after every one that ran. -/
lemma runTimerTurn_tracks (number : ℕ → D) [DecidableEq D] {wakeups : List Wakeup}
    {rootsError : Option String} {r : Option TimerRef} (ht : s.Tracks h queue)
    (hrun : runTimerTurn s wakeups rootsError = some (.ok r, s')) :
    ∃ queue', TimerAnswers number h (.turn s'.clockMilliseconds (r.map s'.order)) ∧
      s'.Tracks (timerStep (D := D) h (.turn s'.clockMilliseconds (r.map s'.order))) queue' := by
  unfold runTimerTurn at hrun
  cases hwait : waitForDueTimer wakeups s with
  | none => simp [hwait] at hrun
  | some result =>
    obtain ⟨result, s₁⟩ := result
    obtain ⟨queue₁, ht₁, hdue⟩ := waitForDueTimer_tracks ht hwait
    cases result with
    | error e => simp [hwait] at hrun
    | ok _ =>
      cases hroots : rootsError with
      | some e => simp [hwait, hroots] at hrun
      | none =>
        simp only [hwait, hroots] at hrun
        cases hhead : s₁.timerHead with
        | none =>
          rw [takeTimer_empty hhead, map_some, some.injEq, mk.injEq,
            Except.ok.injEq] at hrun
          obtain ⟨rfl, rfl⟩ := hrun
          exact ⟨queue₁, ⟨ht₁.seen, ht₁.none_scheduled hhead⟩, ht₁.seeClock⟩
        | some x =>
          obtain ⟨hlive, hdeadline⟩ := hdue rfl x hhead
          obtain ⟨rest, rfl⟩ := ht₁.head_cons hhead
          rw [takeTimer_live hhead hlive, map_some, some.injEq, mk.injEq,
            Except.ok.injEq] at hrun
          obtain ⟨rfl, rfl⟩ := hrun
          obtain ⟨hst, hfirst⟩ := ht₁.first hlive
          have hsame := unlinkHead_sameClock s₁ x
          have hpop := @TimerQueue.Tracks.pop _ s₁ h rest x .ran ht₁ (.inr ⟨rfl, hdeadline⟩)
          rw [map_some, hsame.timerOrder x, hsame.clock]
          refine ⟨rest, ⟨ht₁.seen, hst, ?_, hfirst, fun o ho => ?_⟩, hpop.seeClock⟩
          · rw [(ht₁.fields x List.mem_cons_self).1]
            exact hdeadline
          · exact ht₁.ranBefore o _ ho hst

/-- A turn that fails runs no timer. -/
lemma runTimerTurn_error {wakeups : List Wakeup} {rootsError : Option String} {e : String}
    (ht : s.Tracks h queue) (hrun : runTimerTurn s wakeups rootsError = some (.error e, s')) :
    ∃ queue', s'.Tracks h queue' := by
  unfold runTimerTurn at hrun
  cases hwait : waitForDueTimer wakeups s with
  | none => simp [hwait] at hrun
  | some result =>
    obtain ⟨result, s₁⟩ := result
    obtain ⟨queue₁, ht₁, -⟩ := waitForDueTimer_tracks ht hwait
    refine ⟨queue₁, ?_⟩
    cases result with
    | error e =>
      simp only [hwait, some.injEq, mk.injEq] at hrun
      exact hrun.2 ▸ ht₁
    | ok _ =>
      cases hroots : rootsError with
      | some e =>
        simp only [hwait, hroots, some.injEq, mk.injEq] at hrun
        exact hrun.2 ▸ ht₁
      | none =>
        simp only [hwait, hroots] at hrun
        cases htake : takeTimer s₁.nextTimerOrder s₁ <;> simp [htake] at hrun

/-! ## Progress -/

/-- A look at the clock, and the wait behind it, without a failure. -/
structure Wakeup.Succeeds (w : Wakeup) : Prop where
  start : ∃ origin, w.reading.start = some origin
  now : ∃ now, w.reading.now = some now
  wait : w.waitError = none

/-- The clock shows a deadline, counted from the origin. -/
def Wakeup.Shows (origin deadline : ℕ) (w : Wakeup) : Prop :=
  ∃ now, w.reading.now = some now ∧ deadline ≤ (now - origin) / 1000000

lemma clockNow_started {reading : ClockReading} {ns : Nanoseconds} (hs : s.clockStarted = true)
    (hnow : reading.now = some ns) :
    ∃ now, clockNow s reading = .ok (now, s) ∧ (ns - s.clockOrigin) / 1000000 ≤ now := by
  unfold clockNow clockStart
  rw [if_pos hs]
  simp only [hnow]
  refine ⟨_, rfl, ?_⟩
  split <;> split <;> omega

section
variable {wakeups : List Wakeup} {o : ℕ} (ht : s.Tracks h queue) (ho : h.status o = .scheduled)
  (hfirst : ∀ o', h.status o' = .scheduled → o' = o ∨ h.Before o o')
  (hsucceed : ∀ w ∈ wakeups, w.Succeeds)
  (hshow : ∃ w ∈ wakeups, w.Shows s.clockOrigin (h.deadline o))
include ht ho hfirst hsucceed hshow

/-- A wait whose clock shows the first deadline ends there. -/
lemma waitForDueTimer_shows :
    ∃ r s', waitForDueTimer wakeups s = some (.ok (), s') ∧ s'.timerHead = some r ∧
      (s'.timer r).canceled = false ∧ s'.order r = o := by
  induction wakeups generalizing s queue with
  | nil => simp at hshow
  | cons wakeup wakeups ih =>
    obtain ⟨s₁, queue₁, hunlink, ht₁, hlive, hsame⟩ := unlinkCanceled_tracks ht ht.length_le
    unfold waitForDueTimer
    simp only [hunlink]
    cases hhead : s₁.timerHead with
    | none => exact absurd ho (ht₁.none_scheduled hhead o)
    | some r =>
      obtain ⟨rest, rfl⟩ := ht₁.head_cons hhead
      -- The head is the first scheduled timer.
      have horder : s₁.order r = o := by
        obtain ⟨hst, hleast⟩ := ht₁.first (hlive r hhead)
        rcases hfirst _ hst with heq | hlt
        · exact heq
        · rcases hleast o ho with heq | hgt
          · exact heq.symm
          · exact absurd (hlt.trans hgt) TimerHistory.Before.irrefl
      have hdeadline : (s₁.timer r).deadline = h.deadline o := by
        rw [← horder]
        exact (ht₁.fields r List.mem_cons_self).1.symm
      have hstarted := ht₁.started (List.cons_ne_nil _ _)
      obtain ⟨ns, hnow⟩ := (hsucceed wakeup List.mem_cons_self).now
      obtain ⟨now, hclock, hge⟩ := clockNow_started hstarted hnow
      simp only [hclock]
      by_cases hdue : (s₁.timer r).deadline ≤ now
      · simp only [hdue, if_true]
        exact ⟨r, _, rfl, hhead, hlive r hhead, horder⟩
      · simp only [hdue, if_false, (hsucceed wakeup List.mem_cons_self).wait]
        refine ih ht₁ (fun w hw => hsucceed w (List.mem_cons_of_mem _ hw)) ?_
        obtain ⟨w, hw, hshows⟩ := hshow
        rw [hsame.origin]
        rcases List.mem_cons.mp hw with rfl | hw
        · obtain ⟨ns', hnow', hle⟩ := hshows
          rw [hnow, some.injEq] at hnow'
          subst hnow'
          rw [← hsame.origin] at hle
          omega
        · exact ⟨w, hw, hshows⟩

/-- A turn whose clock shows the deadline of the first scheduled timer runs it. -/
lemma runTimerTurn_runs :
    ∃ r s', runTimerTurn s wakeups none = some (.ok (some r), s') ∧ s'.order r = o := by
  obtain ⟨r, s₁, hwait, hhead, hlive, horder⟩ :=
    waitForDueTimer_shows ht ho hfirst hsucceed hshow
  refine ⟨r, unlinkHead s₁ r, ?_, ?_⟩
  · unfold runTimerTurn
    simp only [hwait, takeTimer_live hhead hlive, map_some]
  · rw [(unlinkHead_sameClock s₁ r).timerOrder, horder]

end

end

/-! ## Runs of the timer queue

Any sequence of operations on the timers. What a callback does, and the jobs behind it, is more
of the same, nested turns too, so it needs no step of its own.

* `TimerRunStep` is one operation with its result;
* `timerRun_correct` says that the queue stays sorted and that timers run once, in order, when
  they are due and unless they were cleared.
-/

variable {F D : Type} [DecidableEq D] {number : ℕ → D} {s s' : TimerQueue F} {h : TimerHistory}
  {queue : List TimerRef} {events : List (TimerEvent D)}

/-- The timers of a new context. -/
def TimerQueue.start (timer : TimerRef → Timer F) : TimerQueue F where
  timer := timer
  timerHead := none
  clockStarted := false
  clockOrigin := 0
  clockMilliseconds := 0
  nextTimerId := 1
  nextTimerOrder := 0

/-- A timer is on the queue. -/
def TimerQueue.Queued (s : TimerQueue F) (r : TimerRef) : Prop :=
  ∃ queue, Chain (fun x => (s.timer x).next) s.timerHead queue none ∧ r ∈ queue

/-- One operation. An allocated timer has an address of its own: the queue keeps its timers. -/
inductive TimerRunStep (number : ℕ → D) :
    TimerQueue F → TimerEvent D → TimerQueue F → Prop
  | setTimeout {s s' : TimerQueue F} {callback : F} {arguments : List F}
      {env : SetTimeoutEnvironment} {id : ℕ} {r : TimerRef}
      (fresh : ∀ r, env.timer = some r → ¬s.Queued r) (hr : env.timer = some r)
      (h : setTimeout s callback arguments env = some (.ok id, s')) :
      TimerRunStep number s (.create (s'.order r) (s'.timer r).deadline id) s'
  | setTimeoutFailed {s s' : TimerQueue F} {callback : F} {arguments : List F}
      {env : SetTimeoutEnvironment} {e : String}
      (fresh : ∀ r, env.timer = some r → ¬s.Queued r)
      (h : setTimeout s callback arguments env = some (.error e, s')) :
      TimerRunStep number s (.failed e) s'
  | waiterTimeout {s s' : TimerQueue F} {waiter : F} {timeout : ℚ} {inCluster : Bool}
      {reading : ClockReading} {timer : Option TimerRef} {publishError : Option String}
      {r : TimerRef} (fresh : ∀ r, timer = some r → ¬s.Queued r)
      (h : atomicsAddTimeout s waiter timeout inCluster reading timer publishError =
        some (.ok r, s')) :
      TimerRunStep number s (.create (s'.order r) (s'.timer r).deadline 0) s'
  | waiterTimeoutFailed {s s' : TimerQueue F} {waiter : F} {timeout : ℚ} {inCluster : Bool}
      {reading : ClockReading} {timer : Option TimerRef} {publishError : Option String}
      {e : String} (fresh : ∀ r, timer = some r → ¬s.Queued r)
      (h : atomicsAddTimeout s waiter timeout inCluster reading timer publishError =
        some (.error e, s')) :
      TimerRunStep number s (.failed e) s'
  | clearTimeout {s s' : TimerQueue F} {handle : Option D} {found : Option TimerRef}
      (h : clearTimeout number s handle = some (found, s')) :
      TimerRunStep number s (.clear handle (found.map s.order)) s'
  | cancel {s : TimerQueue F} {r : TimerRef} (queued : s.Queued r) :
      TimerRunStep number s (.cancel (some (s.order r))) (cancelTimer s r)
  | cancelTaken {s : TimerQueue F} {r : TimerRef} (taken : ¬s.Queued r) :
      TimerRunStep number s (.cancel none) (cancelTimer s r)
  | peek {s s' : TimerQueue F} {deadline : Option ℕ}
      (h : nextTimerDeadline s = some (deadline, s')) :
      TimerRunStep number s (.peek deadline) s'
  | look {s s' : TimerQueue F} {origin : Option Nanoseconds} (h : clockStart s origin = .ok s') :
      TimerRunStep number s .look s'
  | turn {s s' : TimerQueue F} {wakeups : List Wakeup} {rootsError : Option String}
      {r : Option TimerRef} (h : runTimerTurn s wakeups rootsError = some (.ok r, s')) :
      TimerRunStep number s (.turn s'.clockMilliseconds (r.map s'.order)) s'
  | turnFailed {s s' : TimerQueue F} {wakeups : List Wakeup} {rootsError : Option String}
      {e : String} (h : runTimerTurn s wakeups rootsError = some (.error e, s')) :
      TimerRunStep number s (.failed e) s'

lemma TimerQueue.Tracks.queued_iff (ht : s.Tracks h queue) {r : TimerRef} :
    s.Queued r ↔ r ∈ queue := by
  constructor
  · intro ⟨queue', hchain, hr⟩
    rwa [ht.chain.unique hchain]
  · exact fun hr => ⟨queue, ht.chain, hr⟩

lemma TimerQueue.start_tracks (timer : TimerRef → Timer F) :
    (TimerQueue.start timer).Tracks TimerHistory.start [] := by
  constructor
  case clock => exact ⟨Nat.two_pow_pos 64, Nat.two_pow_pos 64⟩
  case chain => rfl
  case sorted => exact List.Pairwise.nil
  all_goals simp [TimerHistory.start, TimerQueue.start]

/-- What was created has an order below the counter. -/
lemma TimerQueue.Tracks.created_lt (ht : s.Tracks h queue) {o : ℕ} (ho : h.status o ≠ .absent) :
    o < s.nextTimerOrder := by
  by_contra hge
  exact ho (ht.absent o (by omega))

/-- One operation keeps the invariant and has its result. -/
lemma TimerRunStep.tracks {event : TimerEvent D} (ht : s.Tracks h queue)
    (hstep : TimerRunStep number s event s') :
    TimerAnswers number h event ∧ ∃ queue', s'.Tracks (timerStep h event) queue' := by
  cases hstep with
  | setTimeout fresh hr hrun =>
    obtain ⟨result, hres, -, hok⟩ := setTimeout_tracks ht
      (fun r hr => ht.queued_iff.not.mp (fresh r hr)) _ _
    obtain rfl : _ = result := some.inj (hrun.symm.trans hres)
    obtain ⟨r', queue', hr', horder, hclock, ht'⟩ := hok _ rfl
    obtain rfl := some.inj (hr.symm.trans hr')
    rw [horder]
    exact ⟨⟨hclock, fun o => ht.created_lt⟩, queue', ht'⟩
  | setTimeoutFailed fresh hrun =>
    obtain ⟨result, hres, herror, -⟩ := setTimeout_tracks ht
      (fun r hr => ht.queued_iff.not.mp (fresh r hr)) _ _
    obtain rfl : _ = result := some.inj (hrun.symm.trans hres)
    exact ⟨trivial, queue, herror _ rfl⟩
  | waiterTimeout fresh hrun =>
    obtain ⟨result, hres, -, hok⟩ := atomicsAddTimeout_tracks ht
      (fun r hr => ht.queued_iff.not.mp (fresh r hr)) _ _ _ _ _
    obtain rfl : _ = result := some.inj (hrun.symm.trans hres)
    obtain ⟨queue', -, horder, hclock, ht'⟩ := hok _ rfl
    rw [horder]
    exact ⟨⟨hclock, fun o => ht.created_lt⟩, queue', ht'⟩
  | waiterTimeoutFailed fresh hrun =>
    obtain ⟨result, hres, herror, -⟩ := atomicsAddTimeout_tracks ht
      (fun r hr => ht.queued_iff.not.mp (fresh r hr)) _ _ _ _ _
    obtain rfl : _ = result := some.inj (hrun.symm.trans hres)
    exact ⟨trivial, queue, herror _ rfl⟩
  | @clearTimeout _ handle _ hrun =>
    obtain ⟨found, s₁, hres, hanswers, ht'⟩ := @clearTimeout_tracks F s h queue D _ number handle ht
    obtain ⟨rfl, rfl⟩ := Prod.mk.inj (some.inj (hrun.symm.trans hres))
    exact ⟨hanswers, queue, ht'⟩
  | cancel queued => exact ⟨trivial, queue, ht.cancel (ht.queued_iff.mp queued)⟩
  | cancelTaken taken =>
    exact ⟨trivial, queue, ht.setTimer_of_not_mem (ht.queued_iff.not.mp taken)⟩
  | peek hrun =>
    obtain ⟨deadline, s₁, queue', hres, hanswers, ht'⟩ := nextTimerDeadline_tracks number ht
    obtain ⟨rfl, rfl⟩ := Prod.mk.inj (some.inj (hrun.symm.trans hres))
    exact ⟨hanswers, queue', ht'⟩
  | look hrun => exact ⟨trivial, queue, (clockStart_tracks ht hrun).1⟩
  | turn hrun =>
    obtain ⟨queue', hanswers, ht'⟩ := runTimerTurn_tracks number ht hrun
    exact ⟨hanswers, queue', ht'⟩
  | turnFailed hrun => exact ⟨trivial, runTimerTurn_error ht hrun⟩

/-- Every run keeps the invariant, and every operation in it has its result. -/
lemma timerRun_tracks {timer : TimerRef → Timer F}
    (hrun : Steps (TimerRunStep number) (TimerQueue.start timer) events s) :
    (∃ queue, s.Tracks (timersAfter events) queue) ∧
      ∀ past event rest, events = past ++ event :: rest →
        TimerAnswers number (timersAfter past) event :=
  @Steps.invariant_each _ _ _ _ _ _ (fun past s => ∃ queue, s.Tracks (timersAfter past) queue)
    (fun past event => TimerAnswers number (timersAfter past) event) hrun
    ⟨[], TimerQueue.start_tracks timer⟩ (by
      intro past s event s' ⟨queue, ht⟩ hstep
      obtain ⟨hanswers, queue', ht'⟩ := hstep.tracks ht
      exact ⟨hanswers, queue', timersAfter_concat past event ▸ ht'⟩)

/-! ## What every run does -/

/-- The queue is sorted by deadline and creation, and its live timers are the scheduled ones. -/
structure TimerQueue.Describes (s : TimerQueue F) (h : TimerHistory) (queue : List TimerRef) :
    Prop where
  chain : Chain (fun r => (s.timer r).next) s.timerHead queue none
  nodup : queue.Nodup
  sorted : queue.Pairwise fun r r' => (s.timer r).deadline < (s.timer r').deadline ∨
    (s.timer r).deadline = (s.timer r').deadline ∧ (s.timer r).order < (s.timer r').order
  scheduled : ∀ o, h.status o = .scheduled ↔
    ∃ r ∈ queue, (s.timer r).order = o ∧ (s.timer r).canceled = false

/-- Every operation ends: a turn too, once its clock shows the first deadline. -/
structure TimerQueue.Progresses (number : ℕ → D) (s : TimerQueue F) (h : TimerHistory) :
    Prop where
  setTimeout : ∀ callback arguments env, (∀ r, env.timer = some r → ¬s.Queued r) →
    ∃ result, setTimeout s callback arguments env = some result
  waiterTimeout : ∀ waiter timeout inCluster reading timer publishError,
    (∀ r, timer = some r → ¬s.Queued r) →
      ∃ result, atomicsAddTimeout s waiter timeout inCluster reading timer publishError =
        some result
  clearTimeout : ∀ handle, ∃ result, clearTimeout number s handle = some result
  peek : ∃ result, nextTimerDeadline s = some result
  turn : ∀ o wakeups, h.status o = .scheduled →
    (∀ o', h.status o' = .scheduled → o' = o ∨ h.Before o o') →
    (∀ w ∈ wakeups, w.Succeeds) → (∃ w ∈ wakeups, w.Shows s.clockOrigin (h.deadline o)) →
      ∃ r s', runTimerTurn s wakeups none = some (.ok (some r), s') ∧ s'.order r = o

omit [DecidableEq D] in
lemma TimerQueue.Tracks.describes (ht : s.Tracks h queue) : s.Describes h queue where
  chain := ht.chain
  nodup := ht.nodup
  sorted := by
    refine ht.sorted.imp_of_mem fun {r r'} hr hr' hlt => ?_
    unfold TimerHistory.Before at hlt
    rwa [(ht.fields r hr).1, (ht.fields r' hr').1] at hlt
  scheduled o := by
    refine ⟨ht.scheduled o, fun ⟨r, hr, hro, hlive⟩ => ?_⟩
    rw [← hro, ht.status r hr, hlive]
    rfl

lemma TimerQueue.Tracks.progresses (ht : s.Tracks h queue) : s.Progresses number h where
  setTimeout callback arguments env fresh := by
    obtain ⟨result, hrun, -⟩ := setTimeout_tracks ht
      (fun r hr => ht.queued_iff.not.mp (fresh r hr)) callback arguments
    exact ⟨result, hrun⟩
  waiterTimeout waiter timeout inCluster reading timer publishError fresh := by
    obtain ⟨result, hrun, -⟩ := atomicsAddTimeout_tracks ht
      (fun r hr => ht.queued_iff.not.mp (fresh r hr)) waiter timeout inCluster reading publishError
    exact ⟨result, hrun⟩
  clearTimeout handle := by
    obtain ⟨found, s', hrun, -⟩ := @clearTimeout_tracks F s h queue D _ number handle ht
    exact ⟨_, hrun⟩
  peek := by
    obtain ⟨deadline, s', queue', hrun, -⟩ := nextTimerDeadline_tracks number ht
    exact ⟨_, hrun⟩
  turn _ _ := runTimerTurn_runs ht

/-- In every run the queue stays sorted, with the scheduled timers on it, and every operation
has its result: a turn runs the first scheduled timer, which is due and comes after all that ran.

* No timer runs twice, and a timer that was cleared never runs;
* when the queue is empty, every timer that was created ran or was cleared;
* a timer that is due runs, or is cleared, before more timers run than are scheduled before it;
* every operation ends, a turn as soon as its clock shows the first deadline. -/
theorem timerRun_correct {timer : TimerRef → Timer F}
    (hrun : Steps (TimerRunStep number) (TimerQueue.start timer) events s) :
    (∃ queue, s.Describes (timersAfter events) queue) ∧
      (∀ past event rest, events = past ++ event :: rest →
        TimerAnswers number (timersAfter past) event) ∧
      (events.filterMap TimerEvent.ran).Nodup ∧
      (∀ past o rest, events = past ++ rest → (timersAfter past).status o = .cleared →
        o ∉ rest.filterMap TimerEvent.ran) ∧
      (s.timerHead = none → ∀ o, (timersAfter events).status o ≠ .absent →
        (timersAfter events).status o = .cleared ∨ o ∈ events.filterMap TimerEvent.ran) ∧
      (∀ past o rest (ahead : List ℕ), events = past ++ rest → (timersAfter past).status o = .scheduled →
        (timersAfter past).deadline o ≤ (timersAfter past).clock →
        (∀ o', (timersAfter past).status o' = .scheduled → (timersAfter past).Before o' o →
          o' ∈ ahead) → ahead.length < (rest.filterMap TimerEvent.ran).length →
        (timersAfter events).status o ≠ .scheduled) ∧
      s.Progresses number (timersAfter events) := by
  obtain ⟨⟨queue, ht⟩, hanswers⟩ := timerRun_tracks hrun
  have hall : ∀ past rest, events = past ++ rest → AllAnswer number (timersAfter past) rest := by
    intro past rest heq
    apply allAnswer_of_forall
    rw [← heq]
    exact hanswers
  refine ⟨⟨queue, ht.describes⟩, hanswers, ran_nodup (hall [] events rfl), ?_, ?_, ?_,
    ht.progresses⟩
  · intro past o rest heq ho
    exact not_ran_of_done (hall past rest heq) (.inl ho)
  · intro hhead o ho
    have hran := ran_iff (hall [] events rfl) o
    cases hst : (timersAfter events).status o with
    | absent => exact absurd hst ho
    | scheduled => exact absurd hst (ht.none_scheduled hhead o)
    | cleared => exact .inl rfl
    | ran => exact .inr ((hran.mp hst).resolve_left (by simp [timersAfter, TimerHistory.start]))
  · intro past o rest ahead heq ho hdue hahead hlen hend
    have hfold : (rest.foldl timerStep (timersAfter past)).status o = .scheduled := by
      rw [heq] at hend
      unfold timersAfter at hend ⊢
      rwa [List.foldl_append] at hend
    have hran := ran_ahead (hall past rest heq) ho hdue hfold
    have hsub : rest.filterMap TimerEvent.ran ⊆ ahead := fun o' ho' =>
      hahead o' (hran o' ho').1 (hran o' ho').2
    have hle := (List.subperm_of_subset (ran_nodup (hall past rest heq)) hsub).length_le
    omega

/-- A blank timer. -/
def blankTimer : Timer ℕ :=
  { next := none
    callback := none
    arguments := []
    waiter := none
    deadline := 0
    id := 0
    order := 0
    canceled := false }

/-- A run in which a timer is set and runs when it is due; clearing it then finds nothing. -/
theorem timerRun_correct_ran : ∃ s : TimerQueue ℕ, ∃ queue, s.Describes (timersAfter
    [.create 0 0 1, .turn 7 (some 0), .clear (some 1) none, .turn 7 none]) queue := by
  have hset := @TimerRunStep.setTimeout ℕ ℕ _ id (TimerQueue.start fun _ => blankTimer) _ 0 []
    ⟨true, .ok .nan, some 0, none, some 3, none⟩ 1 3 (fun r _ ⟨queue, hchain, hr⟩ => by
      rw [hchain.unique (show Chain _ _ [] none from rfl)] at hr
      exact List.not_mem_nil hr) rfl rfl
  have hrun := (((Steps.single hset).snoc
    (@TimerRunStep.turn ℕ ℕ _ id _ _ [⟨⟨none, some 7000000⟩, none⟩] none (some 3) rfl)).snoc
    (@TimerRunStep.clearTimeout ℕ ℕ _ id _ _ (some 1) none rfl)).snoc
    (@TimerRunStep.turn ℕ ℕ _ id _ _ [] none none rfl)
  obtain ⟨⟨queue, hdescribes⟩, -⟩ := timerRun_correct hrun
  exact ⟨_, queue, hdescribes⟩

end Oseo.EventLoop
