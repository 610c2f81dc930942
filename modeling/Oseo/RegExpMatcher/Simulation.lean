import Oseo.RegExpMatcher.Moves

/-!
# The executor follows the moves

A machine is `Related` to a point with its choices when its registers hold those of the point,
and undoing the trail to the height of a stack entry gives those of its choice.
`Move.step_follows`: the round of a related machine does what a move does, or ends at a limit.
-/

namespace Oseo.RegExpMatcher

open Function
open List
open Oseo.Library

variable {program : MatcherProgram} {text : List CodeUnit} {limits : ExecutionLimits}
variable {trail : List TrailEntry} {written : ℕ → Option ℤ} {count : ℕ}
variable {entries : List BacktrackEntry} {points choices : List Point} {point : Point}
variable {machine : Machine}

/-! ## Undoing the trail -/

lemma undoTrail_length (height : ℕ) (trail : List TrailEntry) (written : ℕ → Option ℤ) :
    (undoTrail height trail written).1.length = min height trail.length := by
  induction trail generalizing written with
  | nil => simp [undoTrail]
  | cons entry trail ih =>
    rw [undoTrail]
    split
    · rw [ih, length_cons]
      omega
    · rw [length_cons]
      omega

/-- Undoing a write first brings back what the register held. -/
lemma undoTrail_write {height register : ℕ} {old value : ℤ} (hheight : height ≤ trail.length)
    (hold : written register = some old) :
    undoTrail height (⟨register, old⟩ :: trail)
      (update written register (some value)) = undoTrail height trail written := by
  rw [undoTrail, if_pos (by omega)]
  show undoTrail height trail
    (update (update written register (some value)) register (some old)) = _
  rw [update_idem, ← hold, update_eq_self]

lemma undoTrail_self (trail : List TrailEntry) (written : ℕ → Option ℤ) :
    undoTrail trail.length trail written = (trail, written) := by
  cases trail with
  | nil => rfl
  | cons entry trail =>
    rw [undoTrail, if_neg]
    rw [length_cons]
    omega

/-- Undoing in two stages. -/
lemma undoTrail_undoTrail {height height' : ℕ} (hle : height' ≤ height) :
    undoTrail height' (undoTrail height trail written).1 (undoTrail height trail written).2 =
      undoTrail height' trail written := by
  induction trail generalizing written with
  | nil => rfl
  | cons entry trail ih =>
    rw [undoTrail]
    split
    · rw [ih, undoTrail, if_pos (by omega)]
    · rfl

/-! ## Registers and choices -/

/-- What a register holds for a value. -/
def encode : Option ℕ → ℤ
  | none => unset
  | some value => value

@[simp] lemma encode_none : encode none = unset := rfl

@[simp] lemma encode_some (value : ℕ) : encode (some value) = value := rfl

lemma encode_eq_unset {value : Option ℕ} (h : encode value = unset) : value = none := by
  cases value with
  | none => rfl
  | some value =>
    rw [encode_some, unset] at h
    omega

/-- The first `count` written registers hold those of a point. -/
def Holds (count : ℕ) (written : ℕ → Option ℤ) (registers : ℕ → Option ℕ) : Prop :=
  ∀ register < count, written register = some (encode (registers register))

lemma Holds.write {registers : ℕ → Option ℕ} {register : ℕ} {value : Option ℕ} {number : ℤ}
    (h : Holds count written registers) (hnumber : number = encode value) :
    Holds count (update written register (some number))
      (update registers register value) := by
  intro other hother
  by_cases heq : other = register
  · subst heq
    rw [update_self, update_self, hnumber]
  · rw [update_of_ne heq, update_of_ne heq]
    exact h other hother

/-- The backtrack stack holds the choices: each is what undoing down to its height gives. -/
inductive Stacked (count : ℕ) :
    List TrailEntry → (ℕ → Option ℤ) → List BacktrackEntry → List Point → Prop
  | nil {trail : List TrailEntry} {written : ℕ → Option ℤ} : Stacked count trail written [] []
  | cons {trail : List TrailEntry} {written : ℕ → Option ℤ} {entry : BacktrackEntry}
    {point : Point} {entries : List BacktrackEntry} {points : List Point}
    (address : entry.address = point.address) (index : entry.index = point.index)
    (height : entry.trail ≤ trail.length)
    (holds : Holds count (undoTrail entry.trail trail written).2 point.registers)
    (rest : Stacked count (undoTrail entry.trail trail written).1
      (undoTrail entry.trail trail written).2 entries points) :
    Stacked count trail written (entry :: entries) (point :: points)

namespace Stacked

lemma length_eq (h : Stacked count trail written entries points) :
    entries.length = points.length := by
  induction h with
  | nil => rfl
  | cons _ _ _ _ _ ih => rw [length_cons, length_cons, ih]

/-- The same choices from another trail that undoes to the same. -/
lemma congr {trail' : List TrailEntry} {written' : ℕ → Option ℤ}
    (h : Stacked count trail written entries points)
    (hsame : ∀ height ≤ trail.length, height ≤ trail'.length ∧
      undoTrail height trail' written' = undoTrail height trail written) :
    Stacked count trail' written' entries points := by
  cases h with
  | nil => exact .nil
  | cons address index height holds rest =>
    obtain ⟨hle, heq⟩ := hsame _ height
    exact .cons address index hle (heq ▸ holds) (heq ▸ rest)

lemma write {register : ℕ} {old value : ℤ} (h : Stacked count trail written entries points)
    (hold : written register = some old) :
    Stacked count (⟨register, old⟩ :: trail) (update written register (some value))
      entries points := by
  apply h.congr
  intro height hheight
  exact ⟨Nat.le_succ_of_le hheight, undoTrail_write hheight hold⟩

/-- Below a choice, nothing has to be undone twice. -/
lemma tail {entry : BacktrackEntry}
    (h : Stacked count trail written (entry :: entries) (point :: points)) :
    Stacked count trail written entries points := by
  cases h with
  | cons address index height holds rest =>
    apply rest.congr
    intro height' hheight'
    rw [undoTrail_length] at hheight'
    exact ⟨by omega, (undoTrail_undoTrail (by omega)).symm⟩

/-- The stack splits where its choices do. -/
lemma split {above : List Point} (h : Stacked count trail written entries (above ++ points)) :
    ∃ upper under, entries = upper ++ under ∧ upper.length = above.length ∧
      Stacked count trail written under points := by
  induction above generalizing entries with
  | nil => exact ⟨[], entries, rfl, rfl, h⟩
  | cons choice above ih =>
    cases entries with
    | nil => cases h
    | cons entry entries =>
      obtain ⟨upper, under, rfl, hlength, hunder⟩ := ih h.tail
      exact ⟨entry :: upper, under, rfl, by rw [length_cons, length_cons, hlength],
        hunder⟩

end Stacked

/-- The machine is at a point, with its choices. -/
structure Related (program : MatcherProgram) (machine : Machine) (point : Point)
    (choices : List Point) : Prop where
  address : machine.address = point.address
  index : machine.index = point.index
  holds : Holds program.registers machine.registers point.registers
  stacked : Stacked program.registers machine.trail machine.registers machine.stack choices

/-- What a round leaves is what a move leads to; a limit is reached only where there is one. -/
def Follows (program : MatcherProgram) (limits : ExecutionLimits)
    (next : Option (Point × List Point)) : StepResult → Prop
  | .running machine => ∃ point choices, next = some (point, choices) ∧
    Related program machine point choices
  | .done (.limit _ _) => limits ≠ .removed
  | .done (.unmatched _) => next = none
  | .done (.matched _ _) => False

namespace Related

section
variable (h : Related program machine point choices)
include h

lemma goto (address : ℕ) :
    Related program (machine.goto address) (point.goto address) choices where
  address := rfl
  index := h.index
  holds := h.holds
  stacked := h.stacked

lemma next :
    Related program (machine.goto (machine.address + 1)) point.next choices := by
  rw [h.address]
  exact h.goto (point.address + 1)

lemma running :
    Follows program limits (some (point, choices)) (.running machine) :=
  ⟨point, choices, rfl, h⟩

/-- What a register of the program holds. -/
lemma read {register : ℕ}
    (hregister : register < program.registers) (default : ℤ) :
    machine.read register default = encode (point.registers register) := by
  rw [Machine.read, h.holds register hregister]
  rfl

end

end Related

/-! ## Operations -/

/-- Taking up the latest choice. -/
lemma backtrack_follows
    (h : Stacked program.registers machine.trail machine.registers machine.stack choices) :
    Follows program limits (resume choices) (backtrack machine) := by
  unfold backtrack pop
  cases hstack : machine.stack with
  | nil =>
    rw [hstack] at h
    cases h
    rfl
  | cons entry entries =>
    rw [hstack] at h
    cases h with
    | cons address index height holds rest =>
      exact ⟨_, _, rfl, { address, index, holds, stacked := rest }⟩

/-- A write below the trail limit. -/
lemma write_related {register : ℕ} {value : Option ℕ} {number : ℤ} {machine' : Machine}
    (h : Related program machine point choices) (hregister : register < program.registers)
    (hnumber : number = encode value)
    (hwrite : write limits machine register number = some machine') :
    Related program machine' (point.write register value) choices := by
  unfold write at hwrite
  split at hwrite
  · cases hwrite
  · cases hwrite
    have hold := h.holds register hregister
    have hread : machine.read register unset = encode (point.registers register) :=
      h.read hregister unset
    exact {
      address := h.address
      index := h.index
      holds := h.holds.write hnumber
      stacked := by
        rw [hread]
        exact h.stacked.write hold }

lemma write_eq_none {register : ℕ} {number : ℤ}
    (hwrite : write limits machine register number = none) : limits ≠ .removed := by
  rintro rfl
  simp [write, ExecutionLimits.removed, limitAt] at hwrite

lemma push_related {address : ℕ} {machine' : Machine}
    (h : Related program machine point choices)
    (hpush : push limits machine address = some machine') :
    Related program machine' point (point.goto address :: choices) := by
  unfold push at hpush
  split at hpush
  · cases hpush
  · cases hpush
    have hself := undoTrail_self machine.trail machine.registers
    exact {
      address := h.address
      index := h.index
      holds := h.holds
      stacked := by
        apply Stacked.cons rfl h.index (Nat.le_refl _)
        · rw [hself]
          exact h.holds
        · rw [hself]
          exact h.stacked }

lemma push_eq_none {address : ℕ} (hpush : push limits machine address = none) :
    limits ≠ .removed := by
  rintro rfl
  simp [push, ExecutionLimits.removed, limitAt] at hpush

lemma Point.clear_succ (point : Point) (slot count : ℕ) :
    (point.write slot none).clear (slot + 1) (slot + 1 + count) =
      point.clear slot (slot + (count + 1)) := by
  ext1
  · rfl
  · rfl
  · funext other
    by_cases heq : other = slot
    · subst heq
      rw [clear_outside _ _ _ _ (by omega), write_same]
      exact (if_pos (by omega)).symm
    · by_cases hrange : slot ≤ other ∧ other < slot + (count + 1)
      · exact (if_pos (by omega)).trans (if_pos hrange).symm
      · rw [clear_outside _ _ _ _ (by omega), clear_outside _ _ _ _ hrange,
          write_other _ _ _ heq]

lemma Point.clear_empty (point : Point) {clearFrom clearTo : ℕ} (h : clearTo ≤ clearFrom) :
    point.clear clearFrom clearTo = point := by
  ext1
  · rfl
  · rfl
  · funext other
    exact clear_outside _ _ _ _ (by omega)

lemma writeUnset_related {slots slot : ℕ} {machine' : Machine}
    (h : Related program machine point choices) (hslots : slot + slots ≤ program.registers)
    (hwrite : writeUnset limits slots slot machine = some machine') :
    Related program machine' (point.clear slot (slot + slots)) choices := by
  induction slots generalizing slot machine point with
  | zero =>
    cases hwrite
    rwa [point.clear_empty (by omega)]
  | succ slots ih =>
    simp only [writeUnset, Option.bind_eq_bind, Option.bind_eq_some_iff] at hwrite
    obtain ⟨middle, hmiddle, hrest⟩ := hwrite
    have hwritten : Related program middle (point.write slot none) choices :=
      write_related h (by omega) rfl hmiddle
    rw [← Point.clear_succ]
    exact ih hwritten (by omega) hrest

lemma writeUnset_eq_none {slots slot : ℕ}
    (hwrite : writeUnset limits slots slot machine = none) : limits ≠ .removed := by
  induction slots generalizing slot machine with
  | zero => cases hwrite
  | succ slots ih =>
    simp only [writeUnset, Option.bind_eq_bind, Option.bind_eq_none_iff] at hwrite
    cases hmiddle : write limits machine slot unset with
    | none => exact write_eq_none hmiddle
    | some middle => exact ih (hwrite middle hmiddle)

/-- The clears of a range, given by its ends. -/
lemma clear_related {clearFrom clearTo : ℕ} {machine' : Machine}
    (h : Related program machine point choices) (hslots : clearTo ≤ program.registers)
    (hwrite : writeUnset limits (clearTo - clearFrom) clearFrom machine = some machine') :
    Related program machine' (point.clear clearFrom clearTo) choices := by
  by_cases hle : clearFrom ≤ clearTo
  · have hrange : clearFrom + (clearTo - clearFrom) = clearTo := by omega
    rw [← hrange]
    exact writeUnset_related h (by omega) hwrite
  · rw [show clearTo - clearFrom = 0 by omega] at hwrite
    cases hwrite
    rwa [point.clear_empty (by omega)]

/-- An operation that may reach a limit, and the machine it leaves otherwise. -/
lemma orLimit_follows {limit : ExecutionLimit} {steps : ℕ} {result : Option Machine}
    {next : Option (Point × List Point)} (hnone : result = none → limits ≠ .removed)
    (hsome : ∀ machine, result = some machine → Follows program limits next (.running machine)) :
    Follows program limits next (orLimit limit steps result) := by
  cases result with
  | none => exact hnone rfl
  | some machine => exact hsome machine rfl

/-! ## Backreferences -/

/-- The attempt of a backreference has the position it should, or ran out of steps. -/
def Attempts (allowed expected : Option ℕ) (result : BackreferenceAttempt × ℕ) : Prop :=
  (result.1.limited = true ∧ allowed ≠ none) ∨
    (result.1.limited = false ∧ result.1.matched = true ∧ expected = some result.2) ∨
    (result.1.limited = false ∧ result.1.matched = false ∧ expected = none)

lemma matchCandidates_follows {backward ignoreCase : Bool} {allowed : Option ℕ}
    {indices : List ℕ} {candidate index : ℕ} (h : Related program machine point choices)
    (hindices : ∀ index ∈ indices, 2 * index + 1 < program.registers) :
    Attempts allowed
      (backreferenceAt (program.reader text) backward ignoreCase point.registers indices index)
      (matchCandidates program text machine backward ignoreCase allowed
        (indices.map fun capture => some (2 * capture)) candidate index) := by
  induction indices generalizing candidate index with
  | nil => exact .inr (.inl ⟨rfl, rfl, rfl⟩)
  | cons capture indices ih =>
    have hslot := hindices capture mem_cons_self
    have htail := fun index hmem => hindices index (mem_cons_of_mem capture hmem)
    simp only [map_cons, matchCandidates]
    by_cases hlimit : limitAt allowed candidate = true
    · rw [if_pos hlimit]
      refine .inl ⟨rfl, ?_⟩
      rintro rfl
      cases hlimit
    rw [if_neg hlimit]
    simp only [h.read hslot, h.read (show 2 * capture < program.registers by omega),
      backreferenceAt]
    cases hstart : point.registers (2 * capture) with
    | none =>
      have hunset : encode none = unset ∨
          encode (point.registers (2 * capture + 1)) = unset := .inl rfl
      rw [if_pos hunset]
      exact ih htail
    | some start =>
      cases hfinish : point.registers (2 * capture + 1) with
      | none =>
        have hunset : encode (some start) = unset ∨ encode none = unset := .inr rfl
        rw [if_pos hunset]
        exact ih htail
      | some finish =>
        have hset : ¬(encode (some start) = unset ∨ encode (some finish) = unset) := by
          rintro (heq | heq) <;> cases encode_eq_unset heq
        rw [if_neg hset]
        simp only [encode_some, MatcherProgram.reader]
        cases hmatch : matchCapture text program.unicodeMode
            (if ignoreCase = true then program.canonicalization else none) backward start finish
            index with
        | none => exact .inr (.inr ⟨rfl, rfl, rfl⟩)
        | some after => exact ih htail

/-- A backreference to captures of the program. -/
lemma matchBackreference_follows {backward ignoreCase : Bool} {allowed : Option ℕ}
    {indices : List ℕ} (h : Related program machine point choices)
    (hindices : ∀ index ∈ indices, 2 * index + 1 < program.registers) :
    Attempts allowed
      (backreferenceAt (program.reader text) backward ignoreCase point.registers indices
        point.index)
      (matchBackreference program text machine (indices.map (2 * ·)) backward ignoreCase
        allowed) := by
  unfold matchBackreference candidateSlots
  cases indices with
  | nil =>
    -- Nothing to match still takes one candidate.
    simp only [map_nil, isEmpty_nil, if_true, matchCandidates]
    by_cases hlimit : limitAt allowed 0 = true
    · rw [if_pos hlimit]
      refine .inl ⟨rfl, ?_⟩
      rintro rfl
      cases hlimit
    · rw [if_neg hlimit]
      exact .inr (.inl ⟨rfl, rfl, by rw [h.index]; rfl⟩)
  | cons capture indices =>
    have hslots : ((capture :: indices).map (2 * ·)).map some =
        (capture :: indices).map fun capture => some (2 * capture) := by
      rw [map_map]
      rfl
    rw [if_neg (by simp), hslots, h.index]
    exact matchCandidates_follows h hindices

/-! ## One round -/

lemma stepConsume_eq (machine : Machine) (backward : Bool) (set : ℕ) :
    stepConsume program text machine backward set =
      match consumeAt text program.unicodeMode backward (program.sets[set]?.getD [])
          machine.index with
      | none => backtrack machine
      | some index => .running { machine.goto (machine.address + 1) with index } := by
  unfold stepConsume consumeAt
  cases backward with
  | true =>
    simp only [if_true]
    split
    · rfl
    · split <;> rfl
  | false =>
    simp only [Bool.false_eq_true, if_false]
    split
    · rfl
    · split <;> rfl

/-- A round without a step limit executes the instruction at the address. -/
lemma step_follows {instruction : Instruction} {next : Option (Point × List Point)}
    (hfetch : program.instructions[machine.address]? = some instruction)
    (hexecute : Follows program limits next
      (execute limits program text { machine with steps := machine.steps + 1 } instruction)) :
    Follows program limits next (step limits program text machine) := by
  unfold step
  split
  · rename_i hlimit
    show limits ≠ .removed
    rintro rfl
    cases hlimit
  · simp only [hfetch]
    exact hexecute

lemma stepBackreference_follows {backward ignoreCase : Bool} {indices : List ℕ}
    {next : Option (Point × List Point)}
    (h : Related program machine point choices)
    (hindices : ∀ index ∈ indices, 2 * index + 1 < program.registers)
    (hnext : next = match backreferenceAt (program.reader text) backward ignoreCase
        point.registers indices point.index with
      | none => resume choices
      | some index => some ({ point.next with index }, choices)) :
    Follows program limits next (stepBackreference limits program text machine
      (indices.map (2 * ·)) backward ignoreCase) := by
  unfold stepBackreference
  dsimp only
  generalize hallowed : limits.steps.map (· - machine.steps + 1) = allowed
  have hattempt := @matchBackreference_follows _ text _ _ _ backward ignoreCase allowed _ h
    hindices
  generalize matchBackreference program text machine (indices.map (2 * ·)) backward ignoreCase
    allowed = result at hattempt ⊢
  rcases hattempt with ⟨hlimited, hsome⟩ | ⟨hlimited, hmatched, hat⟩ | ⟨hlimited, hmatched, hat⟩
  · simp only [hlimited, if_true]
    show limits ≠ .removed
    rintro rfl
    exact hsome hallowed.symm
  · rw [hat] at hnext
    simp only [hlimited, hmatched, if_true, Bool.false_eq_true, if_false, hnext]
    refine ⟨_, _, rfl, ?_⟩
    exact { address := by rw [h.address]; rfl, index := rfl, holds := h.holds, stacked := h.stacked }
  · rw [hat] at hnext
    simp only [hlimited, hmatched, Bool.false_eq_true, if_false, hnext]
    exact backtrack_follows h.stacked

/-- One write, then the address it continues at. -/
lemma write_goto_follows {register address : ℕ} {value : Option ℕ} {number : ℤ}
    {limit : ExecutionLimit} {steps : ℕ}
    (h : Related program machine point choices) (hregister : register < program.registers)
    (hnumber : number = encode value) :
    Follows program limits (some ((point.write register value).goto address, choices))
      (orLimit limit steps
        ((write limits machine register number).map (Machine.goto · address))) := by
  apply orLimit_follows
  · intro hnone
    exact write_eq_none (Option.map_eq_none_iff.mp hnone)
  · intro left hleft
    obtain ⟨middle, hmiddle, rfl⟩ := Option.map_eq_some_iff.mp hleft
    exact ((write_related h hregister hnumber hmiddle).goto address).running

/-- One push, then the address it continues at. -/
lemma push_goto_follows {kept address : ℕ} {limit : ExecutionLimit} {steps : ℕ}
    (h : Related program machine point choices) :
    Follows program limits (some (point.goto address, point.goto kept :: choices))
      (orLimit limit steps ((push limits machine kept).map (Machine.goto · address))) := by
  apply orLimit_follows
  · intro hnone
    exact push_eq_none (Option.map_eq_none_iff.mp hnone)
  · intro left hleft
    obtain ⟨middle, hmiddle, rfl⟩ := Option.map_eq_some_iff.mp hleft
    exact ((push_related h hmiddle).goto address).running

lemma stepRepeatEnter_follows {body clearFrom clearTo counter position count : ℕ}
    (h : Related program machine point choices)
    (hbelow : clearTo ≤ program.registers ∧ counter < program.registers ∧
      position < program.registers)
    (hcounted : point.registers counter = some count) :
    Follows program limits (some ((((point.write counter (some (count + 1))).write position
      (some point.index)).clear clearFrom clearTo).goto body, choices))
      (stepRepeatEnter limits machine body clearFrom clearTo counter position) := by
  obtain ⟨hclear, hcounter, hposition⟩ := hbelow
  unfold stepRepeatEnter
  have hread : machine.read counter 0 + 1 = encode (some (count + 1)) := by
    rw [h.read hcounter, hcounted, encode_some, encode_some]
    rfl
  simp only [hread]
  apply orLimit_follows
  · intro hnone
    simp only [Option.bind_eq_bind, Option.bind_eq_none_iff] at hnone
    cases hcountedWrite : write limits machine counter (encode (some (count + 1))) with
    | none => exact write_eq_none hcountedWrite
    | some counted =>
      have hnone := hnone counted hcountedWrite
      cases hplacedWrite : write limits counted position counted.index with
      | none => exact write_eq_none hplacedWrite
      | some placed =>
        have hnone := hnone placed hplacedWrite
        cases hcleared : writeUnset limits (clearTo - clearFrom) clearFrom placed with
        | none => exact writeUnset_eq_none hcleared
        | some cleared => cases hnone cleared hcleared
  · intro left hleft
    simp only [Option.bind_eq_bind, Option.bind_eq_some_iff] at hleft
    obtain ⟨counted, hcountedWrite, placed, hplacedWrite, cleared, hcleared, hleft⟩ := hleft
    cases hleft
    have hcounted' := write_related h hcounter rfl hcountedWrite
    have hindex : (counted.index : ℤ) = encode (some point.index) := by
      rw [hcounted'.index]
      rfl
    have hplaced := write_related hcounted' hposition hindex hplacedWrite
    exact ((clear_related hplaced hclear hcleared).goto body).running

lemma stepLookStart_follows {body frame onFail : ℕ}
    (h : Related program machine point choices) (hframe : frame < program.registers) :
    Follows program limits (some ((point.write frame (some choices.length)).goto body,
      point.goto onFail :: choices)) (stepLookStart limits machine body frame onFail) := by
  unfold stepLookStart
  cases hpush : push limits machine onFail with
  | none => exact push_eq_none hpush
  | some pushed =>
    have hpushed := push_related h hpush
    apply write_goto_follows hpushed hframe
    rw [hpushed.stacked.length_eq]
    simp

lemma stepLookEnd_follows {entry : Point} {above : List Point} {frame : ℕ} (exit : ℕ)
    (negated : Bool)
    (h : Related program machine point (above ++ entry :: choices))
    (hframe : frame < program.registers)
    (hframed : point.registers frame = some choices.length) :
    Follows program limits (if negated then resume choices
      else some ({ point.goto exit with index := entry.index }, choices))
      (stepLookEnd machine exit frame negated) := by
  obtain ⟨upper, under, hstack, hlength, hunder⟩ := h.stacked.split
  cases under with
  | nil => cases hunder
  | cons bottom under =>
    have hunderLength := hunder.tail.length_eq
    have hread : (machine.read frame 0).toNat = under.length := by
      rw [h.read hframe, hframed, encode_some, hunderLength]
      rfl
    have hentry : machine.stack.reverse[under.length]? = some bottom := by
      rw [hstack, reverse_append, reverse_cons, append_assoc,
        getElem?_append_right (by simp)]
      simp
    have hdrop : machine.stack.drop (machine.stack.length - under.length) = under := by
      have hupper : (upper ++ bottom :: under).length - under.length = (upper ++ [bottom]).length := by
        simp only [length_append, length_cons, length_nil]
        omega
      rw [hstack, hupper, append_cons upper bottom under, drop_left]
    unfold stepLookEnd
    simp only [hread, hentry, hdrop, Option.map_some, Option.getD_some]
    cases negated with
    | true =>
      rw [if_pos rfl, if_pos rfl]
      cases hunder with
      | cons address index height holds rest => exact backtrack_follows rest
    | false =>
      rw [if_neg Bool.false_ne_true, if_neg Bool.false_ne_true]
      have hindex : bottom.index = entry.index := by
        cases hunder with
        | cons address index height holds rest => exact index
      exact ⟨_, _, rfl, { address := rfl, index := hindex, holds := h.holds, stacked := hunder.tail }⟩

/-- The round of a related machine follows a move. -/
theorem Move.step_follows {next : Option (Point × List Point)}
    (h : Move program text (point, choices) next)
    (hrelated : Related program machine point choices) :
    Follows program limits next (step limits program text machine) := by
  have hrunning : Related program { machine with steps := machine.steps + 1 } point choices :=
    { address := hrelated.address, index := hrelated.index, holds := hrelated.holds,
      stacked := hrelated.stacked }
  have hround {instruction next} (h : program.instructions[point.address]? = some instruction) :=
    @RegExpMatcher.step_follows program text limits machine instruction next (hrelated.address ▸ h)
  cases h with
  | consume at_ consumed =>
    apply hround at_.1
    simp only [execute, stepConsume_eq, hrelated.index, consumed]
    exact ⟨_, _, rfl, { hrunning.next with index := rfl }⟩
  | consumeFail at_ refused =>
    apply hround at_.1
    simp only [execute, stepConsume_eq, hrelated.index, refused]
    exact backtrack_follows hrunning.stacked
  | edge at_ holds =>
    apply hround at_.1
    rw [← hrelated.index] at holds
    simp only [execute, holds, if_true]
    exact hrunning.next.running
  | edgeFail at_ fails =>
    apply hround at_.1
    rw [← hrelated.index] at fails
    simp only [execute, fails, Bool.false_eq_true, if_false]
    exact backtrack_follows hrunning.stacked
  | boundary at_ holds =>
    apply hround at_.1
    rw [← hrelated.index] at holds
    simp only [execute, holds, if_true]
    exact hrunning.next.running
  | boundaryFail at_ fails =>
    apply hround at_.1
    rw [← hrelated.index] at fails
    simp only [execute, fails, Bool.false_eq_true, if_false]
    exact backtrack_follows hrunning.stacked
  | save at_ =>
    apply hround at_.1
    rw [Point.next, Point.write_address, ← hrelated.address]
    apply write_goto_follows hrunning at_.2
    rw [← hrelated.index]
    rfl
  | fork at_ =>
    apply hround at_.1
    exact push_goto_follows hrunning
  | jump at_ =>
    apply hround at_.1
    exact (hrunning.goto _).running
  | repeatInit at_ =>
    apply hround at_.1
    rw [Point.next, Point.write_address, ← hrelated.address]
    exact write_goto_follows hrunning at_.2 rfl
  | repeatForced at_ counted below =>
    apply hround at_.1
    simp only [execute, stepRepetition]
    rw [hrunning.read at_.2, counted, encode_some, if_pos (by omega)]
    exact (hrunning.goto _).running
  | repeatFull at_ counted reached full =>
    apply hround at_.1
    simp only [execute, stepRepetition, hrunning.read at_.2, counted, encode_some,
      Int.ofNat_le, full]
    rw [if_neg (by omega), if_pos trivial]
    exact (hrunning.goto _).running
  | repeatGreedy at_ counted reached room =>
    apply hround at_.1
    simp only [execute, stepRepetition, hrunning.read at_.2, counted, encode_some,
      Int.ofNat_le, room]
    rw [if_neg (by omega), if_neg Bool.false_ne_true, if_pos trivial]
    exact push_goto_follows hrunning
  | repeatLazy at_ counted reached room =>
    apply hround at_.1
    simp only [execute, stepRepetition, hrunning.read at_.2, counted, encode_some,
      Int.ofNat_le, room]
    rw [if_neg (by omega), if_neg Bool.false_ne_true, if_neg Bool.false_ne_true]
    exact push_goto_follows hrunning
  | repeatEnter at_ counted =>
    apply hround at_.1
    exact stepRepeatEnter_follows hrunning at_.2 counted
  | repeatEnd at_ counted placed onward =>
    apply hround at_.1
    simp only [execute, stepRepeatEnd]
    rw [if_neg]
    · exact (hrunning.goto _).running
    · rw [hrunning.read at_.2.1, hrunning.read at_.2.2, counted, placed, encode_some,
        encode_some, hrunning.index]
      omega
  | repeatEmpty at_ counted placed reached =>
    apply hround at_.1
    simp only [execute, stepRepeatEnd]
    rw [if_pos]
    · exact backtrack_follows hrunning.stacked
    · rw [hrunning.read at_.2.1, hrunning.read at_.2.2, counted, placed, encode_some,
        encode_some, hrunning.index]
      omega
  | lookStart at_ =>
    apply hround at_.1
    exact stepLookStart_follows hrunning at_.2
  | @lookEnd _ _ _ _ exit _ at_ framed =>
    apply hround at_.1
    exact stepLookEnd_follows exit false hrunning at_.2 framed
  | @lookEndNegated _ _ _ _ exit _ at_ framed =>
    apply hround at_.1
    exact stepLookEnd_follows exit true hrunning at_.2 framed
  | backreference at_ matched =>
    apply hround at_.1
    apply stepBackreference_follows hrunning _ (by rw [matched])
    exact fun index hmem => at_.2 _ (mem_map_of_mem hmem)
  | backreferenceFail at_ refused =>
    apply hround at_.1
    apply stepBackreference_follows hrunning _ (by rw [refused])
    exact fun index hmem => at_.2 _ (mem_map_of_mem hmem)
  | fail at_ =>
    apply hround at_.1
    exact backtrack_follows hrunning.stacked

end Oseo.RegExpMatcher
