import Oseo.EventLoop.TimerHistory
import Oseo.Library.LinkedChain
import Oseo.Library.Runs
import Mathlib.Data.Rat.Floor
import Mathlib.Data.List.Nodup

/-!
# Timers

The timer queue of `runtime_event_loop.c`: a linked list ordered by deadline and, within a
deadline, by creation. A timer turn unlinks the first live timer and runs its callback, which
may set and clear timers, and drive further turns itself.

* Function values, arguments and waiters are of any type `F`;
* `number` is the conversion of a timer identifier to a JavaScript number;
* what the host decides (clock readings, allocations) is a parameter;
* a loop along the queue is given as many turns as timers were created.

The counters of identifiers and of creation order have 64 bits, which no run uses up, and are
natural numbers here.
-/

namespace Oseo.EventLoop

/-- The address of a timer. -/
abbrev TimerRef := ℕ

/-- A reading of the host's monotonic clock, in nanoseconds. -/
abbrev Nanoseconds := Fin (2 ^ 64)

/-- A JavaScript number. -/
inductive NumberValue
  | nan
  | infinity (negative : Bool)
  | finite (value : ℚ)

/-- `OseoTimer`. A callback timer has a function and its arguments, a timeout of a waiter has
the waiter. -/
structure Timer (F : Type) where
  next : Option TimerRef
  callback : Option F
  arguments : List F
  waiter : Option F
  deadline : ℕ
  id : ℕ
  order : ℕ
  canceled : Bool

/-- The timers of a context, and its clock. -/
structure TimerQueue (F : Type) where
  timer : TimerRef → Timer F
  timerHead : Option TimerRef
  clockStarted : Bool
  clockOrigin : ℕ
  clockMilliseconds : ℕ
  nextTimerId : ℕ
  nextTimerOrder : ℕ

variable {F : Type}

/-- Writes one timer. -/
@[simps timerHead clockStarted clockOrigin clockMilliseconds nextTimerId nextTimerOrder]
def TimerQueue.setTimer (s : TimerQueue F) (r : TimerRef) (f : Timer F → Timer F) : TimerQueue F :=
  { s with timer := Function.update s.timer r (f (s.timer r)) }

/-! ## Deadlines -/

/-- `timer_delay`. -/
def timerDelay : NumberValue → ℕ
  | .finite delay =>
    if delay ≤ 0 then 0
    else if delay ≥ 2 ^ 32 - 1 then 2 ^ 32 - 1
    else ⌊delay⌋.toNat
  | _ => 0

/-- A deadline after a delay, at most `UINT64_MAX`. -/
def deadlineAfter (base delay : ℕ) : ℕ :=
  if 2 ^ 64 - 1 - base < delay then 2 ^ 64 - 1 else base + delay

/-- `atomics_deadline`. -/
def atomicsDeadline (base : ℕ) (timeout : ℚ) : ℕ :=
  let rounded := ⌈timeout⌉
  let delay := if rounded ≥ 18446744073709549568 then 2 ^ 64 - 1 else rounded.toNat
  deadlineAfter base delay

/-! ## The clock -/

/-- The clock readings of one look at the clock: the first starts it, if it was not started.
The reading is missing where the host fails. -/
structure ClockReading where
  start : Option Nanoseconds
  now : Option Nanoseconds

/-- The error of a clock that cannot be read. -/
def clockUnavailable : String := "The host monotonic clock is unavailable."

/-- `oseo_internal_clock_start`. -/
def clockStart (s : TimerQueue F) (origin : Option Nanoseconds) : Except String (TimerQueue F) :=
  if s.clockStarted then .ok s
  else
    match origin with
    | none => .error clockUnavailable
    | some origin =>
      .ok { s with clockOrigin := origin, clockStarted := true, clockMilliseconds := 0 }

/-- `oseo_internal_clock_now`. -/
def clockNow (s : TimerQueue F) (reading : ClockReading) : Except String (ℕ × TimerQueue F) :=
  match clockStart s reading.start with
  | .error e => .error e
  | .ok s =>
    match reading.now with
    | none => .error clockUnavailable
    | some now =>
      let elapsed := if now > s.clockOrigin then (now - s.clockOrigin) / 1000000 else 0
      .ok (if elapsed < s.clockMilliseconds then s.clockMilliseconds else elapsed, s)

/-! ## Creating timers -/

/-- Writes through a link: the head of the queue, or the `next` of a timer. -/
def TimerQueue.setLink (s : TimerQueue F) (previous target : Option TimerRef) : TimerQueue F :=
  match previous with
  | none => { s with timerHead := target }
  | some p => s.setTimer p fun timer => { timer with next := target }

/-- The walk of `timer_link`, behind the timer `previous`. -/
def timerLinkFrom (r : TimerRef) :
    ℕ → Option TimerRef → Option TimerRef → TimerQueue F → Option (TimerQueue F)
  | _, previous, none, s =>
    some ((s.setTimer r fun timer => { timer with next := none }).setLink previous (some r))
  | 0, _, some _, _ => none
  | fuel + 1, previous, some c, s =>
    let current := s.timer c
    let timer := s.timer r
    if current.deadline > timer.deadline ∨
        current.deadline = timer.deadline ∧ current.order > timer.order then
      some ((s.setTimer r fun timer => { timer with next := some c }).setLink previous (some r))
    else timerLinkFrom r fuel (some c) current.next s

/-- `timer_link`. -/
def timerLink (s : TimerQueue F) (r : TimerRef) : Option (TimerQueue F) :=
  timerLinkFrom r s.nextTimerOrder none s.timerHead s

/-- What the host and the conversion of the delay decide during a `setTimeout`: whether the
callback is callable, the delay as a number or the error of its conversion, the clock's origin,
the error of storing the arguments, the address of the timer, the error of its publication. -/
structure SetTimeoutEnvironment where
  callable : Bool
  delay : Except String NumberValue
  clock : Option Nanoseconds
  argumentsError : Option String
  timer : Option TimerRef
  publishError : Option String

/-- `oseo_set_timeout`: the identifier of the timer or the error, and the queue then. No result
where linking the timer does not end. -/
def setTimeout (s : TimerQueue F) (callback : F) (arguments : List F)
    (env : SetTimeoutEnvironment) : Option (Except String ℕ × TimerQueue F) :=
  if env.callable = false then
    some (.error "The timer callback is not a function.", s)
  else
    match env.delay with
    | .error e => some (.error e, s)
    | .ok number =>
      let delay := timerDelay number
      match clockStart s env.clock with
      | .error e => some (.error e, s)
      | .ok s =>
        match env.argumentsError, env.timer with
        | some e, _ => some (.error e, s)
        | none, none => some (.error "Timer allocation failed.", s)
        | none, some r =>
          let s := s.setTimer r fun _ =>
            { next := none
              callback := some callback
              arguments := arguments
              waiter := none
              deadline := deadlineAfter s.clockMilliseconds delay
              id := s.nextTimerId
              order := s.nextTimerOrder
              canceled := false }
          let id := s.nextTimerId
          let s :=
            { s with nextTimerId := s.nextTimerId + 1, nextTimerOrder := s.nextTimerOrder + 1 }
          match env.publishError with
          | some e => some (.error e, s)
          | none => (timerLink s r).map fun s => (.ok id, s)

/-- `oseo_internal_atomics_timeout_enqueue`. -/
def atomicsTimeoutEnqueue (s : TimerQueue F) (waiter : F) (deadline : ℕ) (timer : Option TimerRef)
    (publishError : Option String) : Option (Except String TimerRef × TimerQueue F) :=
  match timer with
  | none => some (.error "Timer allocation failed.", s)
  | some r =>
    let s := s.setTimer r fun _ =>
      { next := none
        callback := none
        arguments := []
        waiter := some waiter
        deadline := deadline
        id := 0
        order := s.nextTimerOrder
        canceled := false }
    let s := { s with nextTimerOrder := s.nextTimerOrder + 1 }
    match publishError with
    | some e => some (.error e, s)
    | none => (timerLink s r).map fun s => (.ok r, s)

/-- The part of `atomics_add_waiter` that gives a waiter with a finite timeout its timer. -/
def atomicsAddTimeout (s : TimerQueue F) (waiter : F) (timeout : ℚ) (inCluster : Bool)
    (reading : ClockReading) (timer : Option TimerRef) (publishError : Option String) :
    Option (Except String TimerRef × TimerQueue F) :=
  match clockNow s reading with
  | .error e => some (.error e, s)
  | .ok (now, s) =>
    let deadline := atomicsDeadline now timeout
    let deadline := if inCluster ∧ deadline < 2 ^ 64 - 1 then deadline + 1 else deadline
    atomicsTimeoutEnqueue s waiter deadline timer publishError

/-! ## Canceling timers -/

/-- The walk of `oseo_clear_timeout`: the timer it cancels. -/
def findTimeout {D : Type} [DecidableEq D] (number : ℕ → D) (s : TimerQueue F) (requested : D) :
    ℕ → Option TimerRef → Option (Option TimerRef)
  | _, none => some none
  | 0, some _ => none
  | fuel + 1, some c =>
    let timer := s.timer c
    if timer.id ≠ 0 ∧ number timer.id = requested then some (some c)
    else findTimeout number s requested fuel timer.next

/-- Marks a timer as canceled: what a resolved waiter does to its own timer. -/
def cancelTimer (s : TimerQueue F) (r : TimerRef) : TimerQueue F :=
  s.setTimer r fun timer => { timer with canceled := true }

/-- `oseo_clear_timeout`, with a number as its argument: the timer it cancels, and the queue
then. Another argument clears nothing. -/
def clearTimeout {D : Type} [DecidableEq D] (number : ℕ → D) (s : TimerQueue F)
    (handle : Option D) : Option (Option TimerRef × TimerQueue F) :=
  match handle with
  | none => some (none, s)
  | some requested =>
    (findTimeout number s requested s.nextTimerOrder s.timerHead).map fun found =>
      match found with
      | none => (none, s)
      | some r => (some r, cancelTimer s r)

/-! ## Timer turns -/

/-- Unlinks the timer at the head of the queue. -/
def unlinkHead (s : TimerQueue F) (r : TimerRef) : TimerQueue F :=
  let next := (s.timer r).next
  { s with timerHead := next }.setTimer r fun timer => { timer with next := none }

/-- Unlinks canceled timers at the head, as `wait_for_due_timer` and `next_timer_deadline` do. -/
def unlinkCanceled : ℕ → TimerQueue F → Option (TimerQueue F)
  | fuel, s =>
    match s.timerHead with
    | none => some s
    | some r =>
      if (s.timer r).canceled then
        match fuel with
        | 0 => none
        | fuel + 1 => unlinkCanceled fuel (unlinkHead s r)
      else some s

/-- `next_timer_deadline`: the earliest live deadline. -/
def nextTimerDeadline (s : TimerQueue F) : Option (Option ℕ × TimerQueue F) :=
  (unlinkCanceled s.nextTimerOrder s).map fun s =>
    (s.timerHead.map fun r => (s.timer r).deadline, s)

/-- One wait of a turn: a look at the clock, and whether the wait behind it fails. -/
structure Wakeup where
  reading : ClockReading
  waitError : Option String

/-- `wait_for_due_timer`. No result while it still waits. -/
def waitForDueTimer : List Wakeup → TimerQueue F → Option (Except String Unit × TimerQueue F)
  | wakeups, s =>
    match unlinkCanceled s.nextTimerOrder s with
    | none => none
    | some s =>
      match s.timerHead with
      | none => some (.ok (), s)
      | some r =>
        match wakeups with
        | [] => none
        | wakeup :: wakeups =>
          match clockNow s wakeup.reading with
          | .error e => some (.error e, s)
          | .ok (now, s) =>
            if (s.timer r).deadline ≤ now then some (.ok (), { s with clockMilliseconds := now })
            else
              match wakeup.waitError with
              | some e => some (.error e, s)
              | none => waitForDueTimer wakeups s

/-- The loop of `run_timer_turn` up to its callback: the timer whose job it runs. -/
def takeTimer : ℕ → TimerQueue F → Option (Option TimerRef × TimerQueue F)
  | fuel, s =>
    match s.timerHead with
    | none => some (none, s)
    | some r =>
      if (s.timer r).canceled then
        match fuel with
        | 0 => none
        | fuel + 1 => takeTimer fuel (unlinkHead s r)
      else some (some r, unlinkHead s r)

/-- `run_timer_turn` up to its callback: the timer whose callback or waiter timeout it runs, or
the error that ends it. What the callback and the jobs behind it do to the queue are operations
of their own. -/
def runTimerTurn (s : TimerQueue F) (wakeups : List Wakeup) (rootsError : Option String) :
    Option (Except String (Option TimerRef) × TimerQueue F) :=
  match waitForDueTimer wakeups s with
  | none => none
  | some (.error e, s) => some (.error e, s)
  | some (.ok (), s) =>
    match rootsError with
    | some e => some (.error e, s)
    | none => (takeTimer s.nextTimerOrder s).map fun (r, s) => (.ok r, s)

/-! ## The timer queue

The queue is sorted by deadline and creation, and its live timers are exactly those created and
neither run nor cleared. No timer that ran comes after one that is still scheduled.
-/

open List
open Oseo.Library

/-! ## The invariant -/

variable {s s' : TimerQueue F} {h : TimerHistory} {queue : List TimerRef}

/-- The creation order of a timer. -/
abbrev TimerQueue.order (s : TimerQueue F) (r : TimerRef) : ℕ := (s.timer r).order

/-- The queue agrees with the history. -/
structure TimerQueue.Tracks (s : TimerQueue F) (h : TimerHistory) (queue : List TimerRef) :
    Prop where
  chain : Chain (fun r => (s.timer r).next) s.timerHead queue none
  nodup : queue.Nodup
  sorted : queue.Pairwise fun r r' => h.Before (s.order r) (s.order r')
  orderLt : ∀ r ∈ queue, s.order r < s.nextTimerOrder
  status : ∀ r ∈ queue, h.status (s.order r) =
    if (s.timer r).canceled then .cleared else .scheduled
  fields : ∀ r ∈ queue, h.deadline (s.order r) = (s.timer r).deadline ∧
    h.id (s.order r) = (s.timer r).id
  scheduled : ∀ o, h.status o = .scheduled →
    ∃ r ∈ queue, s.order r = o ∧ (s.timer r).canceled = false
  absent : ∀ o, s.nextTimerOrder ≤ o → h.status o = .absent
  clock : s.clockMilliseconds < 2 ^ 64 ∧ s.clockOrigin < 2 ^ 64
  started : queue ≠ [] → s.clockStarted = true
  ranDue : ∀ o, h.status o = .ran → h.deadline o ≤ s.clockMilliseconds
  unstarted : s.clockStarted = false → s.clockMilliseconds = 0
  seen : h.clock ≤ s.clockMilliseconds
  ranBefore : ∀ o o', h.status o = .ran → h.status o' = .scheduled → h.Before o o'

section
variable (s) (r : TimerRef) (f : Timer F → Timer F)

@[simp] lemma setTimer_timer (x : TimerRef) :
    (s.setTimer r f).timer x = if x = r then f (s.timer r) else s.timer x :=
  Function.update_apply ..

end

/-- Every timer has a creation order of its own. -/
lemma TimerQueue.Tracks.orders_nodup (ht : s.Tracks h queue) : (queue.map s.order).Nodup := by
  rw [nodup_iff_pairwise_ne, pairwise_map]
  refine ht.sorted.imp fun {r r'} hlt heq => ?_
  rw [heq] at hlt
  exact TimerHistory.Before.irrefl hlt

/-- The queue is no longer than the counter of the creation orders. -/
lemma TimerQueue.Tracks.length_le (ht : s.Tracks h queue) : queue.length ≤ s.nextTimerOrder := by
  have hsub : queue.map s.order ⊆ range s.nextTimerOrder := by
    intro o ho
    obtain ⟨r, hr, rfl⟩ := mem_map.mp ho
    exact mem_range.mpr (ht.orderLt r hr)
  have hlen := (subperm_of_subset ht.orders_nodup hsub).length_le
  rwa [length_map, length_range] at hlen

/-- A change of the clock keeps the invariant, if the clock does not go back. -/
lemma TimerQueue.Tracks.withClock (ht : s.Tracks h queue) {started : Bool} {origin clock : ℕ}
    (hstarted : s.clockStarted = true → started = true)
    (hclock : s.clockMilliseconds ≤ clock) (hunstarted : started = false → clock = 0)
    (hlt : clock < 2 ^ 64 ∧ origin < 2 ^ 64) :
    TimerQueue.Tracks
      { s with clockStarted := started, clockOrigin := origin, clockMilliseconds := clock }
      h queue :=
  { ht with
    clock := hlt
    started := fun hne => hstarted (ht.started hne)
    ranDue := fun o ho => Nat.le_trans (ht.ranDue o ho) hclock
    unstarted := hunstarted
    seen := Nat.le_trans ht.seen hclock }

/-! ## The clock -/

lemma clockStart_tracks (ht : s.Tracks h queue) {origin : Option Nanoseconds}
    (hs : clockStart s origin = .ok s') :
    s'.Tracks h queue ∧ s'.clockStarted = true ∧ s'.timer = s.timer ∧
      s'.timerHead = s.timerHead ∧ s'.nextTimerOrder = s.nextTimerOrder ∧
      s'.nextTimerId = s.nextTimerId := by
  unfold clockStart at hs
  split at hs
  · next hstarted =>
    cases hs
    exact ⟨ht, hstarted, rfl, rfl, rfl, rfl⟩
  · next hstarted =>
    cases origin with
    | none => cases hs
    | some origin =>
      cases hs
      refine ⟨ht.withClock (fun _ => rfl) ?_ nofun ⟨by decide, origin.isLt⟩, rfl, rfl, rfl, rfl,
        rfl⟩
      rw [ht.unstarted (Bool.eq_false_iff.mpr hstarted)]

/-- A reading is no earlier than the cached time. -/
lemma clockNow_tracks (ht : s.Tracks h queue) {reading : ClockReading} {now : ℕ}
    (hs : clockNow s reading = .ok (now, s')) :
    s'.Tracks h queue ∧ s'.clockStarted = true ∧ s'.timer = s.timer ∧
      s'.timerHead = s.timerHead ∧ s'.nextTimerOrder = s.nextTimerOrder ∧
      s'.nextTimerId = s.nextTimerId ∧ s'.clockMilliseconds ≤ now ∧ now < 2 ^ 64 := by
  unfold clockNow at hs
  cases hstart : clockStart s reading.start with
  | error e => simp [hstart] at hs
  | ok s₁ =>
    obtain ⟨ht₁, hstarted, htimer, hhead, horder, hid⟩ := clockStart_tracks ht hstart
    simp only [hstart] at hs
    cases hnow : reading.now with
    | none => simp [hnow] at hs
    | some ns =>
      simp only [hnow, Except.ok.injEq, Prod.mk.injEq] at hs
      obtain ⟨hval, rfl⟩ := hs
      refine ⟨ht₁, hstarted, htimer, hhead, horder, hid, ?_⟩
      have hclock := ht₁.clock.1
      rw [← hval]
      split <;> split <;> omega

/-! ## Linking a timer -/

/-- What linking a timer between the timers `a` and `b` changes. -/
structure LinksIn (s s' : TimerQueue F) (a : List TimerRef) (r : TimerRef) (b : List TimerRef) :
    Prop where
  head : s'.timerHead = if lastOr none a = none then some r else s.timerHead
  timer : s'.timer r = { s.timer r with next := b.head? }
  others : ∀ x, x ≠ r → s'.timer x =
    { s.timer x with
      next := if lastOr none a = some x then some r else (s.timer x).next }
  started : s'.clockStarted = s.clockStarted
  origin : s'.clockOrigin = s.clockOrigin
  clock : s'.clockMilliseconds = s.clockMilliseconds
  id : s'.nextTimerId = s.nextTimerId
  order : s'.nextTimerOrder = s.nextTimerOrder

lemma setLink_linksIn {a b : List TimerRef} {r : TimerRef} (hr : r ∉ a) :
    LinksIn s ((s.setTimer r fun timer => { timer with next := b.head? }).setLink (lastOr none a)
      (some r)) a r b := by
  unfold TimerQueue.setLink
  cases hlast : lastOr none a with
  | none =>
    constructor
    case others =>
      intro x hx
      simp [hlast, hx]
    all_goals simp [hlast]
  | some p =>
    have hpr : p ≠ r := fun heq => hr (heq ▸ lastOr_mem hlast)
    constructor
    case others =>
      intro x hx
      by_cases hxp : x = p
      · simp [hlast, hxp, hpr]
      · simp [hlast, hx, hxp, Ne.symm hxp]
    all_goals simp [hlast, Ne.symm hpr]

/-- A timer that comes after the timer `r` in the queue. -/
def TimerQueue.After (s : TimerQueue F) (r x : TimerRef) : Prop :=
  (s.timer x).deadline > (s.timer r).deadline ∨
    (s.timer x).deadline = (s.timer r).deadline ∧ s.order x > s.order r

/-- The walk over the rest `b` of the queue stops at the first timer that comes after. -/
lemma timerLinkFrom_links {r : TimerRef} {a b : List TimerRef} {fuel : ℕ}
    (hchain : Chain (fun x => (s.timer x).next) s.timerHead (a ++ b) none)
    (hfuel : b.length ≤ fuel) (hr : r ∉ a ++ b) :
    ∃ s' b₁ b₂, timerLinkFrom r fuel (lastOr none a) b.head? s = some s' ∧ b = b₁ ++ b₂ ∧
      LinksIn s s' (a ++ b₁) r b₂ ∧ (∀ x ∈ b₁, ¬s.After r x) ∧
      ∀ x, b₂.head? = some x → s.After r x := by
  induction b generalizing a fuel with
  | nil =>
    refine ⟨(s.setTimer r fun timer => { timer with next := none }).setLink (lastOr none a)
      (some r), [], [], ?_, rfl, ?_, by simp, by simp⟩
    · cases fuel <;> rfl
    · rw [append_nil] at hr ⊢
      exact @setLink_linksIn _ s a [] r hr
  | cons c b ih =>
    obtain _ | fuel := fuel
    · cases hfuel
    have hnext : (s.timer c).next = b.head? := (chain_middle.mp hchain).2.head_eq
    rw [head?_cons, timerLinkFrom]
    by_cases hafter : s.After r c
    · refine ⟨_, [], c :: b, if_pos hafter, rfl, ?_, by simp, fun x hx => ?_⟩
      · rw [append_nil]
        exact @setLink_linksIn _ s a (c :: b) r fun hra => hr (mem_append_left _ hra)
      · rw [head?_cons, Option.some.injEq] at hx
        exact hx ▸ hafter
    · have hassoc : a ++ c :: b = (a ++ [c]) ++ b := by simp
      rw [hassoc] at hchain hr
      obtain ⟨s', b₁, b₂, hrun, hb, hlinks, hbefore, hfirst⟩ :=
        @ih (a ++ [c]) fuel hchain (by simpa using hfuel) hr
      refine ⟨s', c :: b₁, b₂, ?_, by rw [hb, cons_append], ?_, ?_, hfirst⟩
      · refine (if_neg hafter).trans ?_
        rw [hnext, ← lastOr_concat none a c]
        exact hrun
      · rw [append_assoc] at hlinks
        exact hlinks
      · intro x hx
        rcases mem_cons.mp hx with rfl | hx
        · exact hafter
        · exact hbefore x hx

/-- What writing a new timer changes, before it is linked. -/
structure Writes (s s' : TimerQueue F) (r : TimerRef) (deadline id : ℕ) : Prop where
  head : s'.timerHead = s.timerHead
  order : s'.nextTimerOrder = s.nextTimerOrder + 1
  timerOrder : s'.order r = s.nextTimerOrder
  timerDeadline : (s'.timer r).deadline = deadline
  timerId : (s'.timer r).id = id
  canceled : (s'.timer r).canceled = false
  others : ∀ x, x ≠ r → s'.timer x = s.timer x
  started : s'.clockStarted = s.clockStarted
  origin : s'.clockOrigin = s.clockOrigin
  clock : s'.clockMilliseconds = s.clockMilliseconds

section
variable {r : TimerRef} {deadline id : ℕ} (ht : s.Tracks h queue) (hr : r ∉ queue)
  (hw : Writes s s' r deadline id)
include ht hr hw

/-- A timer that was written and not linked changes nothing. -/
lemma TimerQueue.Tracks.write : s'.Tracks h queue := by
  have hsame : ∀ x ∈ queue, s'.timer x = s.timer x := fun x hx =>
    hw.others x fun hxr => hr (hxr ▸ hx)
  have horder : ∀ x ∈ queue, s'.order x = s.order x := fun x hx =>
    congrArg Timer.order (hsame x hx)
  constructor
  case chain =>
    rw [hw.head]
    refine ht.chain.congr fun x hx => ?_
    rw [hsame x hx]
  case nodup => exact ht.nodup
  case sorted =>
    refine ht.sorted.imp_of_mem fun {x y} hx hy hlt => ?_
    rw [horder x hx, horder y hy]
    exact hlt
  case orderLt =>
    intro x hx
    have := ht.orderLt x hx
    rw [horder x hx, hw.order]
    omega
  case status =>
    intro x hx
    rw [horder x hx, hsame x hx]
    exact ht.status x hx
  case fields =>
    intro x hx
    rw [horder x hx, hsame x hx]
    exact ht.fields x hx
  case scheduled =>
    intro o ho
    obtain ⟨x, hx, hxo, hcanceled⟩ := ht.scheduled o ho
    exact ⟨x, hx, by rw [horder x hx, hxo], by rw [hsame x hx, hcanceled]⟩
  case absent =>
    intro o ho
    rw [hw.order] at ho
    exact ht.absent o (by omega)
  case clock =>
    rw [hw.clock, hw.origin]
    exact ht.clock
  case started => rw [hw.started]; exact ht.started
  case ranDue => rw [hw.clock]; exact ht.ranDue
  case unstarted => rw [hw.started, hw.clock]; exact ht.unstarted
  case seen => rw [hw.clock]; exact ht.seen
  case ranBefore => exact ht.ranBefore

/-- Creating a timer keeps the invariant: its deadline is no earlier than the cached time, so
it comes after every timer that ran. -/
lemma TimerQueue.Tracks.create (hstarted : s.clockStarted = true)
    (hdue : s.clockMilliseconds ≤ deadline) :
    ∃ s'' queue', timerLink s' r = some s'' ∧
      s''.Tracks (h.create s.nextTimerOrder deadline id) queue' ∧
      (s''.timer r).deadline = deadline ∧ s''.order r = s.nextTimerOrder ∧
      (s''.timer r).id = id := by
  have ht' := ht.write hr hw
  obtain ⟨s'', b₁, b₂, hrun, hqueue, hlinks, hbefore, hfirst⟩ :=
    @timerLinkFrom_links _ s' r [] queue s'.nextTimerOrder ht'.chain ht'.length_le hr
  rw [nil_append] at hlinks
  subst hqueue
  have hfresh : ∀ x ∈ b₁ ++ b₂, s'.order x < s.nextTimerOrder := by
    intro x hx
    have horder : s'.order x = s.order x :=
      congrArg Timer.order (hw.others x fun hxr => hr (hxr ▸ hx))
    rw [horder]
    exact ht.orderLt x hx
  have hkeep : ∀ x ∈ b₁ ++ b₂, s''.order x = s'.order x ∧
      (s''.timer x).deadline = (s'.timer x).deadline ∧ (s''.timer x).id = (s'.timer x).id ∧
      (s''.timer x).canceled = (s'.timer x).canceled := by
    intro x hx
    have hother := hlinks.others x fun hxr => hr (hxr ▸ hx)
    exact ⟨(congrArg Timer.order hother).trans rfl, (congrArg Timer.deadline hother).trans rfl,
      (congrArg Timer.id hother).trans rfl, (congrArg Timer.canceled hother).trans rfl⟩
  have hnew : s''.order r = s.nextTimerOrder ∧ (s''.timer r).deadline = deadline ∧
      (s''.timer r).id = id ∧ (s''.timer r).canceled = false := by
    exact ⟨(congrArg Timer.order hlinks.timer).trans hw.timerOrder,
      (congrArg Timer.deadline hlinks.timer).trans hw.timerDeadline,
      (congrArg Timer.id hlinks.timer).trans hw.timerId,
      (congrArg Timer.canceled hlinks.timer).trans hw.canceled⟩
  have hhist := h.create_self s.nextTimerOrder deadline id
  have hhist' : ∀ o, o ≠ s.nextTimerOrder → _ := fun o ho =>
    @TimerHistory.create_of_ne h s.nextTimerOrder o deadline id ho
  have hran : ∀ o, (h.create s.nextTimerOrder deadline id).status o = .ran →
      o ≠ s.nextTimerOrder ∧ h.status o = .ran := by
    intro o ho
    by_cases heq : o = s.nextTimerOrder
    · rw [heq, hhist.1] at ho
      cases ho
    · rw [(hhist' o heq).1] at ho
      exact ⟨heq, ho⟩
  -- What is known of a queued timer, in the new history.
  have hqueued : ∀ x ∈ b₁ ++ b₂,
      (h.create s.nextTimerOrder deadline id).status (s''.order x) = h.status (s'.order x) ∧
      (h.create s.nextTimerOrder deadline id).deadline (s''.order x) = (s'.timer x).deadline ∧
      (h.create s.nextTimerOrder deadline id).id (s''.order x) = (s'.timer x).id := by
    intro x hx
    have hne : s'.order x ≠ s.nextTimerOrder := Nat.ne_of_lt (hfresh x hx)
    obtain ⟨h₁, h₂, h₃⟩ := hhist' _ hne
    rw [(hkeep x hx).1, h₁, h₂, h₃]
    exact ⟨rfl, ht'.fields x hx⟩
  have hlink : timerLink s' r = some s'' := by
    unfold timerLink
    rw [ht'.chain.head_eq]
    exact hrun
  refine ⟨s'', b₁ ++ r :: b₂, hlink, ?_, hnew.2.1, hnew.1, hnew.2.2.1⟩
  have hmem : ∀ x, x ∈ b₁ ++ r :: b₂ ↔ x = r ∨ x ∈ b₁ ++ b₂ := by
    intro x
    rw [mem_append, mem_cons, mem_append]
    tauto
  have hafter : ∀ x ∈ b₂, s'.After r x := by
    intro x hx
    cases b₂ with
    | nil => exact absurd hx not_mem_nil
    | cons y b₂ =>
      have hy := hfirst y rfl
      rcases mem_cons.mp hx with rfl | hx
      · exact hy
      · have hsorted := (pairwise_cons.mp (pairwise_append.mp ht'.sorted).2.1).1 x hx
        unfold TimerHistory.Before at hsorted
        rw [(ht'.fields y (by simp)).1, (ht'.fields x (by simp [hx])).1] at hsorted
        unfold TimerQueue.After at hy ⊢
        omega
  constructor
  case chain =>
    refine ht'.chain.insert hr hlinks.head ?_ (fun x hx => ?_) ht'.nodup
    · rw [hlinks.timer]
    · rw [hlinks.others x hx]
  case nodup =>
    rw [nodup_append]
    have hnd := nodup_append.mp ht'.nodup
    refine ⟨hnd.1, ?_, fun x hx y hy hxy => ?_⟩
    · rw [nodup_cons]
      exact ⟨fun hrb => hr (mem_append_right _ hrb), hnd.2.1⟩
    · rcases mem_cons.mp hy with rfl | hy
      · exact hr (hxy ▸ mem_append_left _ hx)
      · exact hnd.2.2 x hx y hy hxy
  case sorted =>
    have hold : (b₁ ++ b₂).Pairwise fun x y =>
        (h.create s.nextTimerOrder deadline id).Before (s''.order x) (s''.order y) := by
      refine ht'.sorted.imp_of_mem fun {x y} hx hy hlt => ?_
      unfold TimerHistory.Before at hlt ⊢
      rw [(hqueued x hx).2.1, (hqueued y hy).2.1, (hkeep x hx).1, (hkeep y hy).1]
      rw [(ht'.fields x hx).1, (ht'.fields y hy).1] at hlt
      exact hlt
    rw [pairwise_append, pairwise_cons]
    have hold' := pairwise_append.mp hold
    refine ⟨hold'.1, ⟨fun x hx => ?_, hold'.2.1⟩, fun x hx y hy => ?_⟩
    · have hxq : x ∈ b₁ ++ b₂ := mem_append_right _ hx
      have hlt := hafter x hx
      unfold TimerQueue.After at hlt
      unfold TimerHistory.Before
      rw [hnew.1, hhist.2.1, (hqueued x hxq).2.1, (hkeep x hxq).1]
      rw [hw.timerDeadline, hw.timerOrder] at hlt
      omega
    · have hxq : x ∈ b₁ ++ b₂ := mem_append_left _ hx
      rcases mem_cons.mp hy with rfl | hy
      · have hlt := hbefore x hx
        have hox := hfresh x hxq
        unfold TimerQueue.After at hlt
        unfold TimerHistory.Before
        rw [hnew.1, hhist.2.1, (hqueued x hxq).2.1, (hkeep x hxq).1]
        rw [hw.timerDeadline, hw.timerOrder] at hlt
        omega
      · exact hold'.2.2 x hx y hy
  case orderLt =>
    intro x hx
    rw [hlinks.order, hw.order]
    rcases (hmem x).mp hx with rfl | hx
    · rw [hnew.1]
      omega
    · have := hfresh x hx
      rw [(hkeep x hx).1]
      omega
  case status =>
    intro x hx
    rcases (hmem x).mp hx with rfl | hx
    · rw [hnew.1, hhist.1, hnew.2.2.2]
      rfl
    · rw [(hqueued x hx).1, (hkeep x hx).2.2.2]
      exact ht'.status x hx
  case fields =>
    intro x hx
    rcases (hmem x).mp hx with rfl | hx
    · rw [hnew.1, hhist.2.1, hhist.2.2, hnew.2.1, hnew.2.2.1]
      exact ⟨rfl, rfl⟩
    · rw [(hqueued x hx).2.1, (hqueued x hx).2.2, (hkeep x hx).2.1, (hkeep x hx).2.2.1]
      exact ⟨rfl, rfl⟩
  case scheduled =>
    intro o ho
    by_cases heq : o = s.nextTimerOrder
    · exact ⟨r, (hmem r).mpr (.inl rfl), by rw [hnew.1, heq], hnew.2.2.2⟩
    · rw [(hhist' o heq).1] at ho
      obtain ⟨x, hx, hxo, hcanceled⟩ := ht'.scheduled o ho
      exact ⟨x, (hmem x).mpr (.inr hx), by rw [(hkeep x hx).1, hxo],
        by rw [(hkeep x hx).2.2.2, hcanceled]⟩
  case absent =>
    intro o ho
    rw [hlinks.order, hw.order] at ho
    rw [(hhist' o (by omega)).1]
    exact ht.absent o (by omega)
  case clock =>
    rw [hlinks.clock, hlinks.origin]
    exact ht'.clock
  case started =>
    intro _
    rw [hlinks.started, hw.started, hstarted]
  case ranDue =>
    intro o ho
    obtain ⟨hne, hst⟩ := hran o ho
    rw [(hhist' o hne).2.1, hlinks.clock]
    exact ht'.ranDue o hst
  case unstarted =>
    rw [hlinks.started, hlinks.clock]
    exact ht'.unstarted
  case seen =>
    rw [hlinks.clock]
    exact ht'.seen
  case ranBefore =>
    intro o o' ho ho'
    obtain ⟨hne, hst⟩ := hran o ho
    unfold TimerHistory.Before
    rw [(hhist' o hne).2.1]
    by_cases heq : o' = s.nextTimerOrder
    · rw [heq, hhist.2.1]
      have hle := ht.ranDue o hst
      have hlt : o < s.nextTimerOrder := by
        by_contra hge
        rw [ht.absent o (by omega)] at hst
        cases hst
      omega
    · rw [(hhist' o' heq).1] at ho'
      rw [(hhist' o' heq).2.1]
      exact ht.ranBefore o o' hst ho'

end

/-! ## Operations on the timer queue

Each operation keeps the invariant and has the result that the history of the timers asks for.
-/

variable {D : Type}

/-! ## Canceling timers -/

/-- Canceling a queued timer clears it. -/
lemma TimerQueue.Tracks.cancel {r : TimerRef} (ht : s.Tracks h queue) (hr : r ∈ queue) :
    (cancelTimer s r).Tracks (h.clear (s.order r)) queue := by
  have hkeep : ∀ x, ((cancelTimer s r).timer x).next = (s.timer x).next ∧
      (cancelTimer s r).order x = s.order x ∧
      ((cancelTimer s r).timer x).deadline = (s.timer x).deadline ∧
      ((cancelTimer s r).timer x).id = (s.timer x).id := by
    intro x
    by_cases hx : x = r <;> simp [cancelTimer, TimerQueue.order, hx]
  have hcanceled : ∀ x, ((cancelTimer s r).timer x).canceled =
      if x = r then true else (s.timer x).canceled := by
    intro x
    by_cases hx : x = r <;> simp [cancelTimer, hx]
  have hBefore : ∀ o o', (h.clear (s.order r)).Before o o' ↔ h.Before o o' := by
    intro o o'
    unfold TimerHistory.Before
    rw [h.clear_deadline]
  have hne : ∀ x ∈ queue, x ≠ r → s.order x ≠ s.order r := fun x hx hxr heq =>
    hxr (inj_on_of_nodup_map ht.orders_nodup hx hr heq)
  constructor
  case chain => exact ht.chain.congr fun x _ => (hkeep x).1
  case nodup => exact ht.nodup
  case sorted =>
    refine ht.sorted.imp fun {x y} hlt => ?_
    rw [(hkeep x).2.1, (hkeep y).2.1, hBefore]
    exact hlt
  case orderLt =>
    intro x hx
    rw [(hkeep x).2.1]
    exact ht.orderLt x hx
  case status =>
    intro x hx
    rw [(hkeep x).2.1, hcanceled]
    have hst := ht.status x hx
    by_cases hxr : x = r
    · subst hxr
      rw [h.clear_self, hst, if_pos rfl, if_pos rfl]
      cases (s.timer x).canceled <;> rfl
    · rw [h.clear_of_ne (hne x hx hxr), if_neg hxr]
      exact hst
  case fields =>
    intro x hx
    rw [(hkeep x).2.1, (hkeep x).2.2.1, (hkeep x).2.2.2, h.clear_deadline, h.clear_id]
    exact ht.fields x hx
  case scheduled =>
    intro o ho
    have hst := TimerHistory.clear_status ho (by decide)
    obtain ⟨x, hx, hxo, hlive⟩ := ht.scheduled o hst
    refine ⟨x, hx, (hkeep x).2.1.trans hxo, ?_⟩
    rw [hcanceled, if_neg, hlive]
    intro hxr
    rw [← hxo, hxr, h.clear_self, if_pos (by rwa [← hxr, hxo])] at ho
    cases ho
  case absent =>
    intro o ho
    have hst := ht.absent o ho
    by_cases hor : o = s.order r
    · rw [hor, h.clear_self, ← hor, hst]
      rfl
    · rw [h.clear_of_ne hor, hst]
  case clock => exact ht.clock
  case started => exact ht.started
  case ranDue =>
    intro o ho
    rw [h.clear_deadline]
    exact ht.ranDue o (TimerHistory.clear_status ho (by decide))
  case unstarted => exact ht.unstarted
  case seen =>
    rw [h.clear_clock]
    exact ht.seen
  case ranBefore =>
    intro o o' ho ho'
    rw [hBefore]
    exact ht.ranBefore o o' (TimerHistory.clear_status ho (by decide))
      (TimerHistory.clear_status ho' (by decide))

/-- The invariant reads only the timers of the queue. -/
lemma TimerQueue.Tracks.setTimer_of_not_mem {r : TimerRef} {f : Timer F → Timer F}
    (ht : s.Tracks h queue) (hr : r ∉ queue) : (s.setTimer r f).Tracks h queue := by
  have hsame : ∀ x ∈ queue, (s.setTimer r f).timer x = s.timer x := by
    intro x hx
    have hxr : x ≠ r := fun heq => hr (heq ▸ hx)
    exact (setTimer_timer s r f x).trans (if_neg hxr)
  have horder : ∀ x ∈ queue, (s.setTimer r f).order x = s.order x := fun x hx =>
    congrArg Timer.order (hsame x hx)
  exact
    { ht with
      chain := ht.chain.congr fun x hx => by rw [hsame x hx]
      sorted := ht.sorted.imp_of_mem fun {x y} hx hy hlt => by
        rw [horder x hx, horder y hy]
        exact hlt
      orderLt := fun x hx => by
        rw [horder x hx]
        exact ht.orderLt x hx
      status := fun x hx => by
        rw [horder x hx, hsame x hx]
        exact ht.status x hx
      fields := fun x hx => by
        rw [horder x hx, hsame x hx]
        exact ht.fields x hx
      scheduled := fun o ho => by
        obtain ⟨x, hx, hxo, hlive⟩ := ht.scheduled o ho
        exact ⟨x, hx, by rw [horder x hx, hxo], by rw [hsame x hx, hlive]⟩ }

/-- The walk over the queue finds the first timer with the requested number. -/
lemma findTimeout_spec [DecidableEq D] {number : ℕ → D} {requested : D} {head : Option TimerRef}
    {rest : List TimerRef} {fuel : ℕ} (hchain : Chain (fun r => (s.timer r).next) head rest none)
    (hfuel : rest.length ≤ fuel) :
    ∃ found, findTimeout number s requested fuel head = some found ∧
      (∀ r, found = some r → r ∈ rest ∧ (s.timer r).id ≠ 0 ∧
        number (s.timer r).id = requested) ∧
      (found = none → ∀ r ∈ rest, (s.timer r).id ≠ 0 → number (s.timer r).id ≠ requested) := by
  induction rest generalizing head fuel with
  | nil =>
    rw [show head = none from hchain]
    refine ⟨none, ?_, nofun, by simp⟩
    cases fuel <;> rfl
  | cons x rest ih =>
    obtain _ | fuel := fuel
    · cases hfuel
    rw [hchain.1, findTimeout]
    by_cases hx : (s.timer x).id ≠ 0 ∧ number (s.timer x).id = requested
    · refine ⟨some x, if_pos hx, fun r hr => ?_, nofun⟩
      rw [Option.some.injEq] at hr
      subst hr
      exact ⟨mem_cons_self, hx⟩
    · obtain ⟨found, hrun, hfound, hnone⟩ := ih hchain.2 (by simpa using hfuel)
      refine ⟨found, (if_neg hx).trans hrun, fun r hr => ?_, fun hn r hr => ?_⟩
      · exact ⟨mem_cons_of_mem _ (hfound r hr).1, (hfound r hr).2⟩
      · rcases mem_cons.mp hr with rfl | hr
        · exact fun hid heq => hx ⟨hid, heq⟩
        · exact hnone hn r hr

/-- Clearing a timeout ends, with the result the history asks for. -/
lemma clearTimeout_tracks [DecidableEq D] {number : ℕ → D} {handle : Option D}
    (ht : s.Tracks h queue) :
    ∃ found s', clearTimeout number s handle = some (found, s') ∧
      TimerAnswers number h (.clear handle (found.map s.order)) ∧
      s'.Tracks (timerStep h (.clear handle (found.map s.order))) queue := by
  cases handle with
  | none => exact ⟨none, s, rfl, fun o _ _ => by simp, ht⟩
  | some requested =>
    obtain ⟨found, hrun, hfound, hnone⟩ :=
      @findTimeout_spec F s _ _ number requested _ _ _ ht.chain ht.length_le
    refine ⟨found, (match found with | none => s | some r => cancelTimer s r), ?_, ?_⟩
    · unfold clearTimeout
      simp only [hrun, Option.map_some]
      cases found <;> rfl
    · cases found with
      | none =>
        refine ⟨fun o ho hid => ?_, ht⟩
        obtain ⟨r, hr, hro, -⟩ := ht.scheduled o ho
        rw [← hro, (ht.fields r hr).2] at hid ⊢
        exact fun heq => hnone rfl r hr hid (Option.some.inj heq).symm
      | some r =>
        obtain ⟨hr, hid, hnumber⟩ := hfound r rfl
        refine ⟨⟨?_, ?_, ?_⟩, ht.cancel hr⟩
        · rw [ht.status r hr]
          cases (s.timer r).canceled
          · exact .inl rfl
          · exact .inr rfl
        · rw [(ht.fields r hr).2]
          exact hid
        · rw [(ht.fields r hr).2, hnumber]

/-! ## Unlinking timers -/

/-- Unlinking the timer at the head, canceled or to be run. -/
lemma TimerQueue.Tracks.pop {r : TimerRef} {status : TimerStatus} (ht : s.Tracks h (r :: queue))
    (hstatus : status = .cleared ∨
      status = .ran ∧ (s.timer r).deadline ≤ s.clockMilliseconds) :
    (unlinkHead s r).Tracks (h.setStatus (s.order r) status) queue := by
  have hr : r ∉ queue := (nodup_cons.mp ht.nodup).1
  have hmem : ∀ x ∈ queue, x ∈ r :: queue := fun x hx => mem_cons_of_mem _ hx
  have hsame : ∀ x ∈ queue, (unlinkHead s r).timer x = s.timer x := by
    intro x hx
    have hxr : x ≠ r := fun heq => hr (heq ▸ hx)
    simp [unlinkHead, hxr]
  have horder : ∀ x ∈ queue, (unlinkHead s r).order x = s.order x := fun x hx =>
    congrArg Timer.order (hsame x hx)
  have hne : ∀ x ∈ queue, s.order x ≠ s.order r := by
    intro x hx heq
    have hlt := (pairwise_cons.mp ht.sorted).1 x hx
    rw [heq] at hlt
    exact TimerHistory.Before.irrefl hlt
  have hself : (h.setStatus (s.order r) status).status (s.order r) = status :=
    Function.update_self (s.order r) _ h.status
  have hother : ∀ o, o ≠ s.order r →
      (h.setStatus (s.order r) status).status o = h.status o := fun o ho =>
    Function.update_of_ne ho _ h.status
  have hscheduled : ∀ o, (h.setStatus (s.order r) status).status o = .scheduled →
      o ≠ s.order r ∧ h.status o = .scheduled := by
    intro o ho
    by_cases hor : o = s.order r
    · rw [hor, hself] at ho
      subst ho
      simp at hstatus
    · rw [hother o hor] at ho
      exact ⟨hor, ho⟩
  -- What ran ran before, or is the timer unlinked now.
  have hran : ∀ o, (h.setStatus (s.order r) status).status o = .ran →
      h.status o = .ran ∨ o = s.order r ∧ (s.timer r).deadline ≤ s.clockMilliseconds := by
    intro o ho
    by_cases hor : o = s.order r
    · rw [hor, hself] at ho
      subst ho
      simp only [reduceCtorEq, true_and, false_or] at hstatus
      exact .inr ⟨hor, hstatus⟩
    · rw [hother o hor] at ho
      exact .inl ho
  constructor
  case chain =>
    show Chain _ (s.timer r).next queue none
    refine ht.chain.2.congr fun x hx => ?_
    rw [hsame x hx]
  case nodup => exact (nodup_cons.mp ht.nodup).2
  case sorted =>
    refine (pairwise_cons.mp ht.sorted).2.imp_of_mem fun {x y} hx hy hlt => ?_
    rw [horder x hx, horder y hy]
    exact hlt
  case orderLt =>
    intro x hx
    rw [horder x hx]
    exact ht.orderLt x (hmem x hx)
  case status =>
    intro x hx
    rw [horder x hx, hother _ (hne x hx), hsame x hx]
    exact ht.status x (hmem x hx)
  case fields =>
    intro x hx
    rw [horder x hx, hsame x hx]
    exact ht.fields x (hmem x hx)
  case scheduled =>
    intro o ho
    obtain ⟨hor, hst⟩ := hscheduled o ho
    obtain ⟨x, hx, hxo, hlive⟩ := ht.scheduled o hst
    rcases mem_cons.mp hx with rfl | hx
    · exact absurd hxo.symm hor
    · exact ⟨x, hx, by rw [horder x hx, hxo], by rw [hsame x hx, hlive]⟩
  case absent =>
    intro o ho
    have hlt := ht.orderLt r mem_cons_self
    have ho' : s.nextTimerOrder ≤ o := ho
    rw [hother o (by omega)]
    exact ht.absent o ho
  case clock => exact ht.clock
  case started => exact fun _ => ht.started (cons_ne_nil _ _)
  case ranDue =>
    intro o ho
    rcases hran o ho with hst | ⟨rfl, hdue⟩
    · exact ht.ranDue o hst
    · show h.deadline (s.order r) ≤ s.clockMilliseconds
      rw [(ht.fields r mem_cons_self).1]
      exact hdue
  case unstarted => exact ht.unstarted
  case seen => exact ht.seen
  case ranBefore =>
    intro o o' ho ho'
    obtain ⟨hor', hst'⟩ := hscheduled o' ho'
    rcases hran o ho with hst | ⟨rfl, -⟩
    · exact ht.ranBefore o o' hst hst'
    · obtain ⟨x, hx, rfl, -⟩ := ht.scheduled o' hst'
      rcases mem_cons.mp hx with rfl | hx
      · exact absurd rfl hor'
      · exact (pairwise_cons.mp ht.sorted).1 x hx

/-- A canceled timer at the head is no more than its place in the queue. -/
lemma TimerQueue.Tracks.popCanceled {r : TimerRef} (ht : s.Tracks h (r :: queue))
    (hcanceled : (s.timer r).canceled = true) : (unlinkHead s r).Tracks h queue := by
  have hpop := @TimerQueue.Tracks.pop _ s h queue r .cleared ht (.inl rfl)
  have hst : h.status (s.order r) = .cleared := by
    rw [ht.status r mem_cons_self, hcanceled]
    rfl
  have hsame : h.setStatus (s.order r) .cleared = h := by
    unfold TimerHistory.setStatus
    rw [← hst, Function.update_eq_self]
  rwa [hsame] at hpop

/-- What unlinking canceled timers leaves as it is. -/
structure SameClock (s s' : TimerQueue F) : Prop where
  order : s'.nextTimerOrder = s.nextTimerOrder
  timerOrder : ∀ x, s'.order x = s.order x
  timerDeadline : ∀ x, (s'.timer x).deadline = (s.timer x).deadline
  clock : s'.clockMilliseconds = s.clockMilliseconds
  started : s'.clockStarted = s.clockStarted
  origin : s'.clockOrigin = s.clockOrigin

lemma SameClock.refl (s : TimerQueue F) : SameClock s s :=
  ⟨rfl, fun _ => rfl, fun _ => rfl, rfl, rfl, rfl⟩

lemma SameClock.trans {s'' : TimerQueue F} (h₁ : SameClock s s') (h₂ : SameClock s' s'') :
    SameClock s s'' where
  order := h₂.order.trans h₁.order
  timerOrder x := (h₂.timerOrder x).trans (h₁.timerOrder x)
  timerDeadline x := (h₂.timerDeadline x).trans (h₁.timerDeadline x)
  clock := h₂.clock.trans h₁.clock
  started := h₂.started.trans h₁.started
  origin := h₂.origin.trans h₁.origin

lemma unlinkHead_sameClock (s : TimerQueue F) (r : TimerRef) : SameClock s (unlinkHead s r) := by
  constructor
  case timerOrder =>
    intro x
    by_cases hx : x = r <;> simp [unlinkHead, TimerQueue.order, hx]
  case timerDeadline =>
    intro x
    by_cases hx : x = r <;> simp [unlinkHead, hx]
  all_goals rfl

/-- Unlinking canceled timers ends at the first live one. -/
lemma unlinkCanceled_tracks {fuel : ℕ} (ht : s.Tracks h queue) (hfuel : queue.length ≤ fuel) :
    ∃ s' queue', unlinkCanceled fuel s = some s' ∧ s'.Tracks h queue' ∧
      (∀ r, s'.timerHead = some r → (s'.timer r).canceled = false) ∧ SameClock s s' := by
  induction queue generalizing s fuel with
  | nil =>
    have hhead : s.timerHead = none := ht.chain
    refine ⟨s, [], ?_, ht, by simp [hhead], .refl s⟩
    unfold unlinkCanceled
    rw [hhead]
  | cons r queue ih =>
    have hhead : s.timerHead = some r := ht.chain.1
    obtain _ | fuel := fuel
    · cases hfuel
    unfold unlinkCanceled
    simp only [hhead]
    by_cases hcanceled : (s.timer r).canceled = true
    · obtain ⟨s', queue', hrun, ht', hlive, hsame⟩ :=
        @ih (unlinkHead s r) fuel (ht.popCanceled hcanceled) (by simpa using hfuel)
      refine ⟨s', queue', ?_, ht', hlive, (unlinkHead_sameClock s r).trans hsame⟩
      rw [if_pos hcanceled]
      exact hrun
    · refine ⟨s, r :: queue, if_neg hcanceled, ht, fun r' hr' => ?_, .refl s⟩
      rw [hhead, Option.some.injEq] at hr'
      rw [← hr']
      exact Bool.eq_false_iff.mpr hcanceled

/-- A live timer at the head is the first scheduled one. -/
lemma TimerQueue.Tracks.first {r : TimerRef} (ht : s.Tracks h (r :: queue))
    (hlive : (s.timer r).canceled = false) :
    h.status (s.order r) = .scheduled ∧
      ∀ o, h.status o = .scheduled → o = s.order r ∨ h.Before (s.order r) o := by
  refine ⟨?_, fun o ho => ?_⟩
  · rw [ht.status r mem_cons_self, hlive]
    rfl
  · obtain ⟨x, hx, rfl, -⟩ := ht.scheduled o ho
    rcases mem_cons.mp hx with rfl | hx
    · exact .inl rfl
    · exact .inr ((pairwise_cons.mp ht.sorted).1 x hx)

/-- An empty queue has no scheduled timer. -/
lemma TimerQueue.Tracks.none_scheduled (ht : s.Tracks h queue) (hhead : s.timerHead = none)
    (o : ℕ) : h.status o ≠ .scheduled := by
  intro ho
  obtain ⟨x, hx, -⟩ := ht.scheduled o ho
  have hnil : s.timerHead = queue.head? := ht.chain.head_eq
  rw [hhead] at hnil
  rw [head?_eq_none_iff.mp hnil.symm] at hx
  exact not_mem_nil hx

/-- The head of a queue, and the rest. -/
lemma TimerQueue.Tracks.head_cons {r : TimerRef} (ht : s.Tracks h queue)
    (hhead : s.timerHead = some r) : ∃ rest, queue = r :: rest := by
  have hq : s.timerHead = queue.head? := ht.chain.head_eq
  rw [hhead] at hq
  exact head?_eq_some_iff.mp hq.symm

/-- Looking for the earliest deadline ends, with the first scheduled timer. -/
lemma nextTimerDeadline_tracks (number : ℕ → D) [DecidableEq D] (ht : s.Tracks h queue) :
    ∃ deadline s' queue', nextTimerDeadline s = some (deadline, s') ∧
      TimerAnswers number h (.peek deadline) ∧ s'.Tracks h queue' := by
  obtain ⟨s', queue', hrun, ht', hlive, -⟩ := unlinkCanceled_tracks ht ht.length_le
  refine ⟨s'.timerHead.map fun r => (s'.timer r).deadline, s', queue', ?_, ?_, ht'⟩
  · unfold nextTimerDeadline
    rw [hrun, Option.map_some]
  · cases hhead : s'.timerHead with
    | none => exact ht'.none_scheduled hhead
    | some r =>
      obtain ⟨rest, rfl⟩ := ht'.head_cons hhead
      obtain ⟨hst, hfirst⟩ := ht'.first (hlive r hhead)
      exact ⟨s'.order r, hst, (ht'.fields r mem_cons_self).1, hfirst⟩

end Oseo.EventLoop
