import Oseo.RegExpMatcher.Moves

/-!
# The matcher goes through the results of its code

`Code.Lays` says that a program holds a piece of code between two addresses, with the registers
it owns. `Code.enumerates`: from the first address, the moves of the matcher reach the last one
with each result of the code, in order, and then take up the choices that were there before.
Every point on the way has its captures in order.
-/

namespace Oseo.RegExpMatcher

open List hiding set
open Oseo.Library

/-! ## Layout -/

/-- The program holds the code from `first` up to `last`, with the registers from `low` up to
`high`; `failAt` is its shared failure. -/
def Code.Lays (program : MatcherProgram) (failAt : ℕ) :
    Code → (backward : Bool) → (first last low high : ℕ) → Prop
  | .skip, _, first, last, low, high => last = first ∧ low ≤ high
  | .consume set, backward, first, last, low, high =>
    (∃ index, program.instructions[first]? = some (.consume backward index) ∧
      program.sets[index]? = some set) ∧ last = first + 1 ∧ low ≤ high
  | .edge assertion multiline, _, first, last, low, high =>
    program.instructions[first]? = some (.edge assertion multiline) ∧
      last = first + 1 ∧ low ≤ high
  | .boundary negated set, _, first, last, low, high =>
    (∃ index, program.instructions[first]? = some (.boundary negated index) ∧
      program.sets[index]? = some set) ∧ last = first + 1 ∧ low ≤ high
  | .backreference ignoreCase indices, backward, first, last, low, high =>
    program.instructions[first]? =
        some (.backreference backward ignoreCase (indices.map (2 * ·))) ∧
      last = first + 1 ∧ low ≤ high
  | .sequence one two, backward, first, last, low, high =>
    ∃ middle between, one.Lays program failAt backward first middle low between ∧
      two.Lays program failAt backward middle last between high
  | .alternate preferred alternative, backward, first, last, low, high =>
    ∃ middle between,
      program.instructions[first]? = some (.fork (middle + 1) (first + 1)) ∧
      preferred.Lays program failAt backward (first + 1) middle low between ∧
      program.instructions[middle]? = some (.jump last) ∧
      alternative.Lays program failAt backward (middle + 1) last between high
  | .capture index body, backward, first, last, low, high =>
    ∃ middle, program.instructions[first]? = some (.save (openSlot backward index)) ∧
      body.Lays program failAt backward (first + 1) middle low high ∧
      program.instructions[middle]? = some (.save (closeSlot backward index)) ∧
      last = middle + 1
  | .repetition minimum maximum greedy clearFrom clearTo body, backward, first, last, low, high =>
    ∃ middle, program.instructions[first]? = some (.repeatInit low) ∧
      program.instructions[first + 1]? =
        some (.repetition low (first + 2) last greedy maximum minimum) ∧
      program.instructions[first + 2]? =
        some (.repeatEnter (first + 3) clearFrom clearTo low (low + 1)) ∧
      body.Lays program failAt backward (first + 3) middle (low + 2) high ∧
      program.instructions[middle]? = some (.repeatEnd low (first + 1) minimum (low + 1)) ∧
      last = middle + 1
  | .look behind negated body, _, first, last, low, high =>
    ∃ middle, program.instructions[first]? =
        some (.lookStart (first + 1) low negated (if negated then last else failAt)) ∧
      body.Lays program failAt behind (first + 1) middle (low + 1) high ∧
      program.instructions[middle]? = some (.lookEnd last low negated) ∧ last = middle + 1

variable {program : MatcherProgram} {text : List CodeUnit} {failAt slots : ℕ}

lemma Code.Lays.low_le {code : Code} {backward : Bool} {first last low high : ℕ}
    (h : code.Lays program failAt backward first last low high) : low ≤ high := by
  induction code generalizing backward first last low high with
  | skip => exact h.2
  | consume => exact h.2.2
  | edge => exact h.2.2
  | boundary => exact h.2.2
  | backreference => exact h.2.2
  | sequence one two ihOne ihTwo =>
    obtain ⟨middle, between, hone, htwo⟩ := h
    exact Nat.le_trans (ihOne hone) (ihTwo htwo)
  | alternate preferred alternative ihPreferred ihAlternative =>
    obtain ⟨middle, between, -, hpreferred, -, halternative⟩ := h
    exact Nat.le_trans (ihPreferred hpreferred) (ihAlternative halternative)
  | capture index body ih =>
    obtain ⟨middle, -, hbody, -⟩ := h
    exact ih hbody
  | repetition minimum maximum greedy clearFrom clearTo body ih =>
    obtain ⟨middle, -, -, -, hbody, -⟩ := h
    have := ih hbody
    omega
  | look behind negated body ih =>
    obtain ⟨middle, -, hbody, -⟩ := h
    have := ih hbody
    omega

/-! ## Points at a place -/

/-- A point at an address and at a place, by its first `slots` registers. -/
structure At (slots address : ℕ) (place : Place) (point : Point) : Prop where
  address : point.address = address
  index : point.index = place.index
  captures : ∀ slot < slots, point.registers slot = place.captures slot

/-- A point at a place, with the control registers it had before but for those of the code. -/
structure Shows (slots low high last : ℕ) (registers : ℕ → Option ℕ) (place : Place)
    (point : Point) : Prop extends At slots last place point where
  control : ∀ register, slots ≤ register → register < low ∨ high ≤ register →
    point.registers register = registers register

/-- A move that leaves the captures in order, or goes back to a choice. -/
def OrderedMove (slots : ℕ) (program : MatcherProgram) (text : List CodeUnit)
    (running : Point × List Point) (next : Option (Point × List Point)) : Prop :=
  Move program text running next ∧ ∀ point choices, next = some (point, choices) →
    point ∈ running.2 ∨ Ordered slots point.registers

variable {point point' : Point} {choices choices' : List Point} {place place' found : Place}
variable {backward : Bool} {first last low high address : ℕ} {registers : ℕ → Option ℕ}

namespace At

lemma ordered (h : At slots address place point) (hordered : Ordered slots place.captures) :
    Ordered slots point.registers := by
  intro index start finish hslot hstart hfinish
  rw [h.captures _ (by omega)] at hstart
  rw [h.captures _ hslot] at hfinish
  exact hordered index start finish hslot hstart hfinish

lemma goto (h : At slots address place point) (target : ℕ) :
    At slots target place (point.goto target) where
  address := rfl
  index := h.index
  captures := h.captures

/-- A control register is no capture. -/
lemma write {register : ℕ} (h : At slots address place point) (hslots : slots ≤ register)
    (value : Option ℕ) : At slots address place (point.write register value) where
  address := h.address
  index := h.index
  captures slot hslot := by
    rw [Point.write_other _ _ _ (by omega)]
    exact h.captures slot hslot

section
variable (h : At slots address place point)
include h

lemma save (slot : ℕ) :
    At slots address (place.save slot) (point.write slot (some point.index)) where
  address := h.address
  index := h.index
  captures other hother := by
    by_cases heq : other = slot
    · subst heq
      simp [Place.save, h.index]
    · rw [Point.write_other _ _ _ heq]
      simp only [Place.save, Function.update_of_ne heq]
      exact h.captures other hother

lemma clear (clearFrom clearTo : ℕ) :
    At slots address (place.clear clearFrom clearTo) (point.clear clearFrom clearTo) where
  address := h.address
  index := h.index
  captures slot hslot := by
    simp only [Point.clear, Place.clear]
    rw [h.captures slot hslot]

lemma moved (index : ℕ) :
    At slots (address + 1) { place with index } { point.next with index } where
  address := by
    show point.address + 1 = address + 1
    rw [h.address]
  index := rfl
  captures := h.captures

lemma next : At slots (address + 1) place point.next where
  address := by
    show point.address + 1 = address + 1
    rw [h.address]
  index := h.index
  captures := h.captures

end

end At

/-- A backreference reads capture slots only. -/
lemma backreferenceAt_congr {reader : Reader} {ignoreCase : Bool}
    {captures captures' : ℕ → Option ℕ} {indices : List ℕ} {index : ℕ}
    (hindices : ∀ index ∈ indices, 2 * index + 1 < slots)
    (hsame : ∀ slot < slots, captures slot = captures' slot) :
    backreferenceAt reader backward ignoreCase captures indices index =
      backreferenceAt reader backward ignoreCase captures' indices index := by
  induction indices generalizing index with
  | nil => rfl
  | cons capture indices ih =>
    have hslot := hindices capture mem_cons_self
    have htail := fun index hmem => hindices index (mem_cons_of_mem capture hmem)
    simp only [backreferenceAt]
    rw [hsame _ hslot, hsame (2 * capture) (by omega)]
    split
    · congr 1
      funext middle
      exact ih htail
    · exact ih htail

/-! ## Single moves -/

lemma OrderedMove.to (h : Move program text (point, choices) (some (point', choices')))
    (hat : At slots address place point') (hordered : Ordered slots place.captures) :
    OrderedMove slots program text (point, choices) (some (point', choices')) := by
  refine ⟨h, fun target kept heq => .inr ?_⟩
  cases heq
  exact hat.ordered hordered

lemma OrderedMove.back (h : Move program text (point, choices) (resume choices)) :
    OrderedMove slots program text (point, choices) (resume choices) := by
  refine ⟨h, fun target kept heq => .inl ?_⟩
  cases choices with
  | nil => cases heq
  | cons choice choices =>
    cases heq
    exact mem_cons_self

/-- One move to the only result. -/
lemma enumerates_single
    (move : Move program text (point, choices) (some (point', choices)))
    (hordered : Ordered slots place.captures) (hat : At slots last place point')
    (hcontrol : ∀ register, slots ≤ register → register < low ∨ high ≤ register →
      point'.registers register = registers register) :
    Enumerates (OrderedMove slots program text) (Shows slots low high last registers) choices
      [place] (some (point, choices)) := by
  apply Enumerates.of_move _ (.to move hat hordered)
  exact .single ⟨hat, hcontrol⟩

/-- One move to no result. -/
lemma enumerates_fail (move : Move program text (point, choices) (resume choices)) :
    Enumerates (OrderedMove slots program text) (Shows slots low high last registers) choices
      [] (some (point, choices)) :=
  Enumerates.exhausted.of_move (.back move)

/-! ## Repetitions -/

/-- What a piece of code promises from any place it may start at: the moves go through its
results. -/
def Searches (program : MatcherProgram) (text : List CodeUnit)
    (slots first last low high : ℕ) (code : Code) (backward : Bool) : Prop :=
  ∀ place point choices, At slots first place point → code.Fresh place.captures →
    Ordered slots place.captures → place.index ≤ text.length →
    Enumerates (OrderedMove slots program text) (Shows slots low high last point.registers)
      choices (code.results (program.reader text) backward place) (some (point, choices))

lemma flatMap_filter {α β : Type} (list : List α) (test : α → Bool) (f : α → List β) :
    (list.filter test).flatMap f = list.flatMap fun x => if test x then f x else [] := by
  induction list with
  | nil => rfl
  | cons x list ih =>
    rw [flatMap_cons, filter_cons]
    split
    · rw [flatMap_cons, ih]
    · rw [ih, nil_append]

/-- How much further a position can move in a direction. -/
def room (text : List CodeUnit) (backward : Bool) (index : ℕ) : ℕ :=
  if backward then index else text.length - index

lemma Onward.room_le {index index' : ℕ} (h : Onward text backward index index') :
    room text backward index' ≤ room text backward index := by
  have hle := h.2
  cases backward
  · simp [room] at hle ⊢
    omega
  · simpa [room] using hle

lemma Onward.room_lt {index index' : ℕ} (h : Onward text backward index index')
    (hne : index' ≠ index) : room text backward index' < room text backward index := by
  have hle := h.2
  have htext := h.1
  cases backward
  · simp [room] at hle ⊢
    omega
  · simp [room] at hle ⊢
    omega

/-- The instructions of a repetition around its body. -/
structure RepeatLays (program : MatcherProgram) (slots first middle low high : ℕ)
    (minimum : ℕ) (maximum : Option ℕ) (greedy : Bool) (clearFrom clearTo : ℕ) : Prop where
  head : program.Has (first + 1)
    (.repetition low (first + 2) (middle + 1) greedy maximum minimum)
  enter : program.Has (first + 2) (.repeatEnter (first + 3) clearFrom clearTo low (low + 1))
  finish : program.Has middle (.repeatEnd low (first + 1) minimum (low + 1))
  slots_le : slots ≤ low
  low_le : low + 2 ≤ high
  clear_le : clearTo ≤ slots

section Repetition

variable {minimum : ℕ} {maximum : Option ℕ} {greedy : Bool} {clearFrom clearTo middle : ℕ}
variable {body : Code} {fuel count : ℕ}

/-- The iteration that starts at the enter of a repetition, and the iterations after it. -/
lemma iteration_enumerates (fuel : ℕ)
    (lays : RepeatLays program slots first middle low high minimum maximum greedy clearFrom
      clearTo)
    (hbody : Searches program text slots (first + 3) middle (low + 2) high body backward)
    (hform : body.WellFormed slots)
    (hclear : ∀ slot, clearFrom ≤ slot ∧ slot < clearTo ↔ slot / 2 ∈ body.groups)
    (hat : At slots (first + 2) place point) (hordered : Ordered slots place.captures)
    (hindex : place.index ≤ text.length) (hcount : point.registers low = some count)
    (hnext : ∀ next : Place, ∀ point choices,
      Extends text slots backward body.groups place next →
      (count < minimum ∨ next.index ≠ place.index) → At slots (first + 1) next point →
      point.registers low = some (count + 1) →
      Enumerates (OrderedMove slots program text)
        (Shows slots low high (middle + 1) point.registers) choices
        (repeatResults (fun place => body.results (program.reader text) backward
          (place.clear clearFrom clearTo)) minimum maximum greedy fuel (count + 1) next)
        (some (point, choices))) :
    Enumerates (OrderedMove slots program text)
      (Shows slots low high (middle + 1) point.registers) choices
      (((body.results (program.reader text) backward (place.clear clearFrom clearTo)).filter
        fun next => decide (count < minimum) || decide (next.index ≠ place.index)).flatMap
        (repeatResults (fun place => body.results (program.reader text) backward
          (place.clear clearFrom clearTo)) minimum maximum greedy fuel (count + 1)))
      (some (point, choices)) := by
  have hslots := lays.slots_le
  have hlow := lays.low_le
  -- The point after the enter: counted, placed and cleared.
  let counted := (point.write low (some (count + 1))).write (low + 1) (some point.index)
  have hentered : At slots (first + 3) (place.clear clearFrom clearTo)
      ((counted.clear clearFrom clearTo).goto (first + 3)) :=
    (((hat.write hslots _).write (by omega) _).clear clearFrom clearTo).goto (first + 3)
  have hcontrol : ∀ register, slots ≤ register →
      (counted.clear clearFrom clearTo).registers register = counted.registers register := by
    intro register hregister
    apply Point.clear_outside
    have := lays.clear_le
    omega
  have hcleared : Extends text slots backward body.groups place
      (place.clear clearFrom clearTo) := .clear hclear hindex hordered
  have hfresh : body.Fresh (place.clear clearFrom clearTo).captures := Code.fresh_clear hclear
  apply Enumerates.of_move _
    (.to (.repeatEnter (hat.address ▸ lays.enter) hcount) hentered hordered.clear)
  rw [flatMap_filter]
  apply (hbody _ _ _ hentered hfresh hordered.clear hindex).bind
  intro next hmem state kept hshows
  have hextends : Extends text slots backward body.groups place next := by
    apply (hcleared.trans (body.results_extends (program.reader text) hform hfresh
      hordered.clear hindex hmem)).mono
    intro index hindex
    simpa using hindex
  have hstateCount : state.registers low = some (count + 1) := by
    rw [hshows.control low hslots (.inl (by omega)), Point.goto_registers,
      hcontrol low hslots, Point.write_other _ _ _ (by omega), Point.write_same]
  have hstatePlaced : state.registers (low + 1) = some place.index := by
    rw [hshows.control (low + 1) (by omega) (.inl (by omega)), Point.goto_registers,
      hcontrol (low + 1) (by omega), Point.write_same, hat.index]
  have hstate : program.Has state.address (.repeatEnd low (first + 1) minimum (low + 1)) := by
    rw [hshows.address]
    exact lays.finish
  by_cases hkeep : count < minimum ∨ next.index ≠ place.index
  · -- The iteration counts: back to the head with one more.
    rw [if_pos (by simpa using hkeep)]
    have hmove : Move program text (state, kept ++ choices)
        (some (state.goto (first + 1), kept ++ choices)) := by
      apply Move.repeatEnd hstate hstateCount hstatePlaced
      rw [hshows.index]
      omega
    apply Enumerates.of_move _
      (.to hmove (hshows.toAt.goto (first + 1)) hextends.ordered)
    apply (hnext next (state.goto (first + 1)) (kept ++ choices) hextends hkeep
      (hshows.toAt.goto _) hstateCount).weaken
    intro result _ after hafter
    refine ⟨hafter.toAt, fun register hregister hrange => ?_⟩
    rw [hafter.control register hregister hrange, Point.goto_registers,
      hshows.control register hregister (by omega), Point.goto_registers,
      hcontrol register hregister, Point.write_other _ _ _ (by omega),
      Point.write_other _ _ _ (by omega)]
  · -- Past the minimum an empty iteration fails.
    rw [if_neg (by simpa using hkeep)]
    apply enumerates_fail
    rw [not_or, not_not] at hkeep
    apply Move.repeatEmpty hstate hstateCount _ (by omega)
    rw [hstatePlaced, hshows.index, hkeep.2]

/-- A repetition from its head, with `count` iterations done. The fuel covers the iterations
below the minimum and the characters that are left. -/
lemma repetition_enumerates
    (lays : RepeatLays program slots first middle low high minimum maximum greedy clearFrom
      clearTo)
    (hbody : Searches program text slots (first + 3) middle (low + 2) high body backward)
    (hform : body.WellFormed slots)
    (hclear : ∀ slot, clearFrom ≤ slot ∧ slot < clearTo ↔ slot / 2 ∈ body.groups)
    (hat : At slots (first + 1) place point) (hordered : Ordered slots place.captures)
    (hindex : place.index ≤ text.length) (hcount : point.registers low = some count)
    (hfuel : minimum - count + room text backward place.index < fuel) :
    Enumerates (OrderedMove slots program text)
      (Shows slots low high (middle + 1) point.registers) choices
      (repeatResults (fun place => body.results (program.reader text) backward
        (place.clear clearFrom clearTo)) minimum maximum greedy fuel count place)
      (some (point, choices)) := by
  induction fuel generalizing count place point choices with
  | zero => omega
  | succ fuel ih =>
    -- The iterations from the enter on, with fewer left.
    have hmore : ∀ choices, Enumerates (OrderedMove slots program text)
        (Shows slots low high (middle + 1) point.registers) choices _
        (some (point.goto (first + 2), choices)) := fun choices =>
      iteration_enumerates fuel lays hbody hform hclear (hat.goto (first + 2))
        hordered hindex hcount fun next point choices hextends hkeep hat hcount => by
          apply ih hat hextends.ordered hextends.onward.1 hcount
          have hle := hextends.onward.room_le
          rcases hkeep with hkeep | hkeep
          · omega
          · have hlt := hextends.onward.room_lt hkeep
            omega
    have hexit : At slots (middle + 1) place (point.goto (middle + 1)) := hat.goto (middle + 1)
    have hself : ∀ choices, Enumerates (OrderedMove slots program text)
        (Shows slots low high (middle + 1) point.registers) choices [place]
        (some (point.goto (middle + 1), choices)) :=
      fun choices => .single ⟨hexit, fun _ _ _ => rfl⟩
    have hhead : program.Has point.address
        (.repetition low (first + 2) (middle + 1) greedy maximum minimum) := by
      rw [hat.address]
      exact lays.head
    simp only [repeatResults]
    by_cases hbelow : count < minimum
    · rw [if_pos hbelow]
      exact (hmore choices).of_move
        (.to (.repeatForced hhead hcount hbelow) (hat.goto _) hordered)
    rw [if_neg hbelow]
    by_cases hfull : maximum.any (· ≤ count) = true
    · rw [if_pos hfull]
      exact (hself choices).of_move
        (.to (.repeatFull hhead hcount (by omega) (by simpa using hfull)) hexit
          hordered)
    rw [if_neg hfull]
    rw [Bool.not_eq_true] at hfull
    cases greedy with
    | true =>
      rw [if_pos rfl]
      apply Enumerates.of_move _
        (.to (.repeatGreedy hhead hcount (by omega) hfull) (hat.goto _) hordered)
      exact (hmore _).append (hself choices)
    | false =>
      rw [if_neg Bool.false_ne_true]
      apply Enumerates.of_move _
        (.to (.repeatLazy hhead hcount (by omega) hfull) hexit hordered)
      exact (hself _).append (hmore choices)

end Repetition

/-! ## The search of a piece of code -/

/-- A lookaround from its start: the first result of its body decides. -/
lemma look_enumerates {behind negated : Bool} {body : Code} {middle : ℕ}
    (hstart : program.Has first
      (.lookStart (first + 1) low negated (if negated then middle + 1 else failAt)))
    (hend : program.Has middle (.lookEnd (middle + 1) low negated))
    (hfail : program.Has failAt .fail) (hslots : slots ≤ low) (hlow : low + 1 ≤ high)
    (hform : body.WellFormed slots)
    (hbody : Searches program text slots (first + 1) middle (low + 1) high body behind)
    (hat : At slots first place point) (hfresh : body.Fresh place.captures)
    (hordered : Ordered slots place.captures) (hindex : place.index ≤ text.length) :
    Enumerates (OrderedMove slots program text)
      (Shows slots low high (middle + 1) point.registers) choices
      (lookResults negated place (body.results (program.reader text) behind place))
      (some (point, choices)) := by
  have hentered : At slots (first + 1) place
      ((point.write low (some choices.length)).goto (first + 1)) :=
    (hat.write hslots _).goto (first + 1)
  let entry := point.goto (if negated then middle + 1 else failAt)
  have hhas : program.Has point.address
      (.lookStart (first + 1) low negated (if negated then middle + 1 else failAt)) := by
    rw [hat.address]
    exact hstart
  apply Enumerates.of_move _ (.to (.lookStart hhas) hentered hordered)
  have hsearch := hbody place _ (entry :: choices) hentered hfresh hordered hindex
  cases hresults : body.results (program.reader text) behind place with
  | nil =>
    rw [hresults] at hsearch
    cases hsearch with
    | nil proceeds =>
      apply Enumerates.of_proceeds _ proceeds
      cases negated with
      | true => exact .single ⟨hat.goto (middle + 1), fun _ _ _ => rfl⟩
      | false => exact enumerates_fail (.fail hfail)
  | cons result rest =>
    have hextends : Extends text slots behind body.groups place result := by
      apply body.results_extends (program.reader text) hform hfresh hordered hindex
      rw [hresults]
      exact mem_cons_self
    rw [hresults] at hsearch
    cases hsearch with
    | @cons _ _ _ state above proceeds hshows =>
      have hframed : state.registers low = some choices.length := by
        rw [hshows.control low hslots (.inl (by omega)), Point.goto_registers, Point.write_same]
      have hstate : program.Has state.address (.lookEnd (middle + 1) low negated) := by
        rw [hshows.address]
        exact hend
      apply Enumerates.of_proceeds _ proceeds
      cases negated with
      | true =>
        apply Enumerates.exhausted.of_move
        refine ⟨.lookEndNegated hstate hframed, fun target kept heq => .inl ?_⟩
        -- The choice taken up is below the entry of the lookaround.
        cases choices with
        | nil => cases heq
        | cons choice choices =>
          cases heq
          simp
      | false =>
        have hleft : At slots (middle + 1) { result with index := place.index }
            { state.goto (middle + 1) with index := entry.index } :=
          { address := rfl, index := hat.index, captures := hshows.captures }
        apply Enumerates.of_move _ (.to (.lookEnd hstate hframed) hleft hextends.ordered)
        apply Enumerates.single
        refine ⟨hleft, fun register hregister hrange => ?_⟩
        show state.registers register = point.registers register
        rw [hshows.control register hregister (by omega), Point.goto_registers,
          Point.write_other _ _ _ (by omega)]

/-- The moves of the matcher go through the results of the code a program holds. -/
theorem Code.enumerates (code : Code)
    (hlays : code.Lays program failAt backward first last low high)
    (hform : code.WellFormed slots) (hslots : slots ≤ low) (hhigh : high ≤ program.registers)
    (hfail : program.instructions[failAt]? = some .fail) :
    Searches program text slots first last low high code backward := by
  induction code generalizing backward first last low high with
  | skip =>
    intro place point choices hat hfresh hordered hindex
    obtain ⟨rfl, -⟩ := hlays
    exact .single ⟨hat, fun _ _ _ => rfl⟩
  | consume set =>
    intro place point choices hat hfresh hordered hindex
    obtain ⟨⟨index, hfetch, hset⟩, rfl, -⟩ := hlays
    have hhas : program.Has point.address (.consume backward index) :=
      ⟨hat.address ▸ hfetch, trivial⟩
    have hget : program.sets[index]?.getD [] = set := by
      rw [hset]
      rfl
    simp only [Code.results, MatcherProgram.reader]
    cases hconsume : consumeAt text program.unicodeMode backward set place.index with
    | none =>
      apply enumerates_fail (.consumeFail hhas _)
      rwa [hget, hat.index]
    | some after =>
      apply enumerates_single (.consume hhas _) _ (hat.moved after) fun _ _ _ => rfl
      · rwa [hget, hat.index]
      · exact hordered
  | edge assertion multiline =>
    intro place point choices hat hfresh hordered hindex
    obtain ⟨hfetch, rfl, -⟩ := hlays
    have hhas : program.Has point.address (.edge assertion multiline) :=
      ⟨hat.address ▸ hfetch, trivial⟩
    simp only [Code.results, MatcherProgram.reader]
    rw [← hat.index]
    cases hedge : matchesEdge text program.unicodeMode point.index assertion multiline with
    | false => exact enumerates_fail (.edgeFail hhas hedge)
    | true =>
      apply enumerates_single (.edge hhas hedge) hordered _ fun _ _ _ => rfl
      exact hat.next
  | boundary negated set =>
    intro place point choices hat hfresh hordered hindex
    obtain ⟨⟨index, hfetch, hset⟩, rfl, -⟩ := hlays
    have hhas : program.Has point.address (.boundary negated index) :=
      ⟨hat.address ▸ hfetch, trivial⟩
    have hget : program.sets[index]?.getD [] = set := by
      rw [hset]
      rfl
    simp only [Code.results, MatcherProgram.reader]
    rw [← hget, ← hat.index]
    cases hboundary : matchesBoundary text program.unicodeMode point.index
        (program.sets[index]?.getD []) != negated with
    | false => exact enumerates_fail (.boundaryFail hhas hboundary)
    | true =>
      apply enumerates_single (.boundary hhas hboundary) hordered _ fun _ _ _ => rfl
      exact hat.next
  | backreference ignoreCase indices =>
    intro place point choices hat hfresh hordered hindex
    obtain ⟨hfetch, rfl, hlow⟩ := hlays
    have hhas : program.Has point.address
        (.backreference backward ignoreCase (indices.map (2 * ·))) := by
      refine ⟨hat.address ▸ hfetch, fun slot hslot => ?_⟩
      obtain ⟨index, hmem, rfl⟩ := mem_map.mp hslot
      have := hform index hmem
      omega
    have hread : backreferenceAt (program.reader text) backward ignoreCase point.registers
        indices point.index = backreferenceAt (program.reader text) backward ignoreCase
        place.captures indices place.index := by
      rw [hat.index]
      exact backreferenceAt_congr hform hat.captures
    simp only [Code.results]
    cases hmatch : backreferenceAt (program.reader text) backward ignoreCase place.captures
        indices place.index with
    | none => exact enumerates_fail (.backreferenceFail hhas (hread.trans hmatch))
    | some after =>
      exact enumerates_single (.backreference hhas (hread.trans hmatch)) hordered
        (hat.moved after) fun _ _ _ => rfl
  | sequence one two ihOne ihTwo =>
    intro place point choices hat hfresh hordered hindex
    obtain ⟨middle, between, hone, htwo⟩ := hlays
    obtain ⟨hformOne, hformTwo, hdisjoint⟩ := hform
    have hle := hone.low_le
    have hle' := htwo.low_le
    have hfreshOne : one.Fresh place.captures :=
      fun slot hslot => hfresh slot (mem_append_left _ hslot)
    have hfreshTwo : two.Fresh place.captures :=
      fun slot hslot => hfresh slot (mem_append_right _ hslot)
    apply (ihOne hone hformOne hslots (by omega) place point choices hat hfreshOne hordered
      hindex).bind
    intro result hmem state kept hshows
    have hextends := one.results_extends (program.reader text) hformOne hfreshOne
      hordered hindex hmem
    apply (ihTwo htwo hformTwo (by omega) hhigh result state (kept ++ choices) hshows.toAt
      (hextends.fresh hfreshTwo hdisjoint) hextends.ordered hextends.onward.1).weaken
    intro last _ point hpoint
    refine ⟨hpoint.toAt, fun register hregister hrange => ?_⟩
    rw [hpoint.control register hregister (by omega), hshows.control register hregister (by omega)]
  | alternate preferred alternative ihPreferred ihAlternative =>
    intro place point choices hat hfresh hordered hindex
    obtain ⟨middle, between, hfork, hpreferred, hjump, halternative⟩ := hlays
    have hle := hpreferred.low_le
    have hle' := halternative.low_le
    have hfreshPreferred : preferred.Fresh place.captures :=
      fun slot hslot => hfresh slot (mem_append_left _ hslot)
    have hfreshAlternative : alternative.Fresh place.captures :=
      fun slot hslot => hfresh slot (mem_append_right _ hslot)
    have hhas : program.Has point.address (.fork (middle + 1) (first + 1)) :=
      ⟨hat.address ▸ hfork, trivial⟩
    apply Enumerates.of_move _ (.to (.fork hhas) (hat.goto (first + 1)) hordered)
    apply Enumerates.append
    · -- The preferred code, and from each result the jump to the end.
      rw [← map_id (preferred.results (program.reader text) backward place)]
      apply (ihPreferred hpreferred hform.1 hslots (by omega) place _ _ (hat.goto (first + 1))
        hfreshPreferred hordered hindex).followed
      intro result hmem state kept hshows
      have hextends := preferred.results_extends (program.reader text) hform.1
        hfreshPreferred hordered hindex hmem
      have hstate : program.Has state.address (.jump last) :=
        ⟨hshows.address ▸ hjump, trivial⟩
      refine ⟨state.goto last, ?_, hshows.toAt.goto last, fun register hregister hrange => ?_⟩
      · exact .to (.jump hstate) (hshows.toAt.goto last) hextends.ordered
      · exact hshows.control register hregister (by omega)
    · apply (ihAlternative halternative hform.2 (by omega) hhigh place _ choices
        (hat.goto (middle + 1)) hfreshAlternative hordered hindex).weaken
      intro result _ state hshows
      exact ⟨hshows.toAt, fun register hregister hrange =>
        hshows.control register hregister (by omega)⟩
  | capture index body ih =>
    intro place point choices hat hfresh hordered hindex
    obtain ⟨middle, hopen, hbody, hclose, rfl⟩ := hlays
    obtain ⟨hformBody, hnotin, hbound⟩ := hform
    have hopenLt : openSlot backward index < slots := by
      cases backward <;> simp [openSlot] <;> omega
    have hcloseLt : closeSlot backward index < slots := by
      cases backward <;> simp [closeSlot] <;> omega
    have hlow := hbody.low_le
    have hunset : place.captures (closeSlot backward index) = none := by
      apply hfresh
      rw [closeSlot_div]
      exact mem_cons_self
    have hhas : program.Has point.address (.save (openSlot backward index)) := by
      refine ⟨hat.address ▸ hopen, ?_⟩
      show openSlot backward index < program.registers
      omega
    have hsaved : At slots (first + 1) (place.save (openSlot backward index))
        (point.write (openSlot backward index) (some point.index)).next := (hat.save _).next
    have hfreshBody : body.Fresh (place.save (openSlot backward index)).captures := by
      intro slot hmem
      have hne : slot ≠ openSlot backward index := by
        rintro rfl
        rw [openSlot_div] at hmem
        exact hnotin hmem
      simp only [Place.save, Function.update_of_ne hne]
      exact hfresh slot (mem_cons_of_mem _ hmem)
    have horderedOpen := hordered.saveOpen hunset
    apply Enumerates.of_move _ (.to (.save hhas) hsaved horderedOpen)
    apply (ih hbody hformBody hslots hhigh _ _ choices hsaved hfreshBody horderedOpen
      hindex).followed
    intro result hmem state kept hshows
    have hextends := body.results_extends (program.reader text) hformBody hfreshBody
      horderedOpen hindex hmem
    have hopened : result.captures (openSlot backward index) = some place.index := by
      rw [hextends.outside _ (by rwa [openSlot_div])]
      exact Function.update_self _ _ _
    have hstate : program.Has state.address (.save (closeSlot backward index)) := by
      refine ⟨hshows.address ▸ hclose, ?_⟩
      show closeSlot backward index < program.registers
      omega
    have hat' := (hshows.toAt.save (closeSlot backward index)).next
    refine ⟨_, .to (.save hstate) hat'
      (hextends.ordered.saveClose hopened hextends.onward), hat', ?_⟩
    intro register hregister hrange
    rw [Point.next_registers, Point.write_other _ _ _ (by omega),
      hshows.control register hregister hrange, Point.next_registers,
      Point.write_other _ _ _ (by omega)]
  | repetition minimum maximum greedy clearFrom clearTo body ih =>
    intro place point choices hat hfresh hordered hindex
    obtain ⟨middle, hinit, hhead, henter, hbody, hend, rfl⟩ := hlays
    obtain ⟨hformBody, hclearLe, hclear⟩ := hform
    have hlow := hbody.low_le
    have lays : RepeatLays program slots first middle low high minimum maximum greedy clearFrom
        clearTo := {
      head := ⟨hhead, show low < program.registers by omega⟩
      enter := ⟨henter, show clearTo ≤ _ ∧ low < _ ∧ low + 1 < _ by omega⟩
      finish := ⟨hend, show low < _ ∧ low + 1 < _ by omega⟩
      slots_le := hslots
      low_le := hlow
      clear_le := hclearLe }
    have hhas : program.Has point.address (.repeatInit low) :=
      ⟨hat.address ▸ hinit, show low < program.registers by omega⟩
    have hat' : At slots (first + 1) place (point.write low (some 0)).next :=
      (hat.write hslots _).next
    apply Enumerates.of_move _ (.to (.repeatInit hhas) hat' hordered)
    have hroom : room text backward place.index ≤ text.length := by
      cases backward <;> simp [room, hindex]
    have hsearch := ih hbody hformBody (by omega) hhigh
    have hfuel : minimum - 0 + room text backward place.index <
        minimum + (program.reader text).text.length + 2 := by
      show _ < minimum + text.length + 2
      omega
    apply (repetition_enumerates lays hsearch hformBody hclear hat' hordered hindex
      (Point.write_same _ _ _) hfuel).weaken
    intro result _ state hshows
    refine ⟨hshows.toAt, fun register hregister hrange => ?_⟩
    rw [hshows.control register hregister hrange, Point.next_registers,
      Point.write_other _ _ _ (by omega)]
  | look behind negated body ih =>
    intro place point choices hat hfresh hordered hindex
    obtain ⟨middle, hstart, hbody, hend, rfl⟩ := hlays
    have hlow := hbody.low_le
    exact look_enumerates ⟨hstart, show low < program.registers by omega⟩
      ⟨hend, show low < program.registers by omega⟩ ⟨hfail, trivial⟩ hslots hlow hform
      (ih hbody hform (by omega) hhigh) hat hfresh hordered hindex

end Oseo.RegExpMatcher
