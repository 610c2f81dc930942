import Oseo.RegExpMatcher.AlignmentRuns

/-!
# The scan of `^set+$`

A program with the layout `anchoredRepeatSet` accepts runs the code of `^set+$`, and matches either
nothing or the whole text from its start. The scan finds the same (`scanAnchoredRepeat_refines`),
with no more steps than the ordinary search takes. What that search finds is what the pattern means
(`searchOrdinarily_finds`).
-/

namespace Oseo.RegExpMatcher

open Option
open Nat
open Function
open List

variable {program : MatcherProgram} {set : MatcherSet} {text : List CodeUnit} {index : ℕ}
  {limits : ExecutionLimits} {machine : Machine} {execution : Execution}

/-! ## The layout -/

/-- A program of the layout of `^set+$`. -/
structure AnchoredRepeat (program : MatcherProgram) (set : MatcherSet) (index : ℕ) : Prop where
  captures : program.captures = []
  registers : program.registers = 4
  instructions : program.instructions =
    anchoredRepeatPrefix ++ .consume false index :: anchoredRepeatSuffix
  sets : program.sets[index]? = some set

/-- What `anchoredRepeatSet` accepts has the layout. -/
lemma anchoredRepeatSet_layout (h : anchoredRepeatSet program = some set) :
    ∃ index, AnchoredRepeat program set index := by
  unfold anchoredRepeatSet at h
  split at h
  · next hlayout =>
    obtain ⟨-, hcaptures, hregisters, htake, hdrop⟩ := hlayout
    split at h
    · next index hconsume =>
      refine ⟨index, List.length_eq_zero_iff.mp hcaptures, hregisters, ?_, h⟩
      have hlength : 5 < program.instructions.length := by
        obtain ⟨hlength, -⟩ := List.getElem?_eq_some_iff.mp hconsume
        exact hlength
      have hfetch : program.instructions[5] = .consume false index := by
        rw [getElem?_eq_getElem hlength] at hconsume
        exact some.inj hconsume
      calc program.instructions
          = program.instructions.take 5 ++ program.instructions.drop 5 :=
            (take_append_drop 5 _).symm
        _ = program.instructions.take 5 ++
              program.instructions[5] :: program.instructions.drop 6 := by
            rw [← drop_eq_getElem_cons hlength]
        _ = _ := by rw [htake, hdrop, hfetch]
    · cases h
  · cases h

/-- The code of `^set+$`. -/
def anchoredRepeatCode (set : MatcherSet) : Code :=
  .sequence (.edge .start false)
    (.sequence (.repetition 1 none true 0 0 (.consume set)) (.edge .finish false))

/-- The program runs the code of `^set+$`. -/
lemma AnchoredRepeat.runs (h : AnchoredRepeat program set index) :
    program.RunsCode (anchoredRepeatCode set) 9 10 where
  lays := by
    have hslots : program.slots = 2 := by
      unfold MatcherProgram.slots
      rw [h.captures]
      rfl
    rw [hslots, h.registers]
    have hfetch : ∀ address : ℕ, program.instructions[address]? =
        (anchoredRepeatPrefix ++ .consume false index :: anchoredRepeatSuffix)[address]? := by
      rw [h.instructions]
      exact fun _ => rfl
    refine ⟨8, hfetch 0, ⟨2, 2, ⟨hfetch 1, rfl, le_refl 2⟩, 7, 4, ⟨6, ?_⟩,
      ⟨hfetch 7, rfl, le_refl 4⟩⟩, hfetch 8, rfl⟩
    exact ⟨hfetch 2, hfetch 3, hfetch 4, ⟨⟨index, hfetch 5, h.sets⟩, rfl, le_refl 4⟩,
      hfetch 6, rfl⟩
  form := by
    have hslots : program.slots = 2 := by
      unfold MatcherProgram.slots
      rw [h.captures]
      rfl
    rw [hslots]
    refine ⟨⟨trivial, ⟨⟨trivial, zero_le 2, ?_⟩, trivial, by simp [Code.groups]⟩,
      by simp [Code.groups]⟩, by simp [anchoredRepeatCode, Code.groups], by decide⟩
    intro slot
    simp [Code.groups]
  accepts := by
    rw [h.instructions]
    rfl
  fails := by
    rw [h.instructions]
    rfl
  failAt_eq := rfl
  length := by
    rw [h.instructions]
    rfl

/-! ## What the code finds -/

/-- A character before the end of a text is within the text. -/
lemma characterAt_next (unicodeMode : Bool) (h : index < text.length) :
    ∃ character, characterAt text index unicodeMode = some character ∧
      widthAt text index unicodeMode = (if 0xffff < character then 2 else 1) ∧
      index + widthAt text index unicodeMode ≤ text.length := by
  cases unicodeMode with
  | false =>
    have hcharacter : characterAt text index false = some text[index].toNat := by
      simp [characterAt, charCodeAt_eq_some h]
    have hwidth : widthAt text index false = 1 := by
      unfold widthAt
      rw [hcharacter, any_some, if_neg]
      rw [decide_eq_true_eq]
      exact Nat.not_lt_of_le (unit_le _)
    refine ⟨_, hcharacter, ?_, by omega⟩
    rw [hwidth, if_neg (Nat.not_lt_of_le (unit_le _))]
  | true =>
    rcases characterAt_cases h with ⟨trail, htrail, -, -, hwidth, hcharacter⟩ |
      ⟨-, hwidth, hcharacter⟩
    · refine ⟨_, hcharacter, widthAt_eq hcharacter, ?_⟩
      have hinside : index + 1 < text.length := by
        by_contra hout
        rw [charCodeAt_eq_none (by omega)] at htrail
        cases htrail
      omega
    · exact ⟨_, hcharacter, widthAt_eq hcharacter, by omega⟩

/-- A character that is consumed forward. -/
lemma consumeAt_forward {unicodeMode : Bool} {character : ℕ} (h : index < text.length)
    (hcharacter : characterAt text index unicodeMode = some character) :
    consumeAt text unicodeMode false set index =
      if setHas set character then some (index + widthAt text index unicodeMode) else none := by
  obtain ⟨-, -, -, hinside⟩ := characterAt_next unicodeMode h
  unfold consumeAt
  rw [if_neg Bool.false_ne_true, if_neg (by omega), hcharacter, any_some]

lemma consumeAt_end {unicodeMode : Bool} (h : text.length ≤ index) :
    consumeAt text unicodeMode false set index = none := by
  unfold consumeAt
  rw [if_neg Bool.false_ne_true, if_pos (.inl h)]

/-- All characters from a position on are in a set. -/
inductive Held (unicodeMode : Bool) (set : MatcherSet) (text : List CodeUnit) : ℕ → Prop
  | finish : Held unicodeMode set text text.length
  | next {index character : ℕ} (before : index < text.length)
    (character_ : characterAt text index unicodeMode = some character)
    (has : setHas set character = true)
    (rest : Held unicodeMode set text (index + widthAt text index unicodeMode)) :
    Held unicodeMode set text index

lemma held_iff {unicodeMode : Bool} {character : ℕ} (h : index < text.length)
    (hcharacter : characterAt text index unicodeMode = some character) :
    Held unicodeMode set text index ↔ setHas set character = true ∧
      Held unicodeMode set text (index + widthAt text index unicodeMode) := by
  constructor
  · intro hheld
    cases hheld with
    | finish => exact absurd h (lt_irrefl _)
    | next before character_ has rest =>
      rw [hcharacter] at character_
      cases character_
      exact ⟨has, rest⟩
  · exact fun hheld => .next h hcharacter hheld.1 hheld.2

lemma edge_start (unicodeMode : Bool) :
    matchesEdge text unicodeMode index .start false = decide (index = 0) := by
  unfold matchesEdge
  dsimp only
  split
  · next hzero => exact (decide_eq_true hzero).symm
  · next hzero => exact (decide_eq_false hzero).symm

lemma edge_finish (unicodeMode : Bool) :
    matchesEdge text unicodeMode index .finish false = decide (index = text.length) := by
  unfold matchesEdge
  dsimp only
  split
  · next hend => exact (decide_eq_true hend).symm
  · next hend => exact (decide_eq_false hend).symm

variable {reader : Reader} {place : Place}

lemma clear_none (place : Place) : place.clear 0 0 = place := by
  have hnone : ∀ slot : ℕ, ¬ (0 ≤ slot ∧ slot < 0) := by
    intro slot
    omega
  unfold Place.clear
  simp only [hnone, if_false]

/-- An iteration of the repetition. -/
def setResults (reader : Reader) (set : MatcherSet) (place : Place) : List Place :=
  (Code.consume set).results reader false (place.clear 0 0)

lemma setResults_eq (place : Place) : setResults reader set place =
    place.movedTo (consumeAt reader.text reader.unicodeMode false set place.index) := by
  unfold setResults
  rw [clear_none]
  rfl

/-- What is left of a repetition at the end of the text. -/
def endResults (reader : Reader) (results : List Place) : List Place :=
  results.flatMap ((Code.edge .finish false).results reader false)

lemma endResults_append (first second : List Place) : endResults reader (first ++ second) =
    endResults reader first ++ endResults reader second :=
  List.flatMap_append

lemma endResults_single (place : Place) : endResults reader [place] =
    if place.index = reader.text.length then [place] else [] := by
  unfold endResults
  rw [flatMap_singleton, Code.results, edge_finish, Place.when]
  by_cases hend : place.index = reader.text.length
  · rw [if_pos hend, if_pos (decide_eq_true hend)]
  · rw [if_neg hend, if_neg (by simpa using hend)]

open Classical in
/-- A greedy repetition reaches the end of the text in one way or not at all. -/
lemma repeat_end (fuel count : ℕ) (hindex : place.index ≤ reader.text.length)
    (hfuel : reader.text.length - place.index < fuel) :
    endResults reader (repeatResults (setResults reader set) 1 none true fuel count place) =
      if Held reader.unicodeMode set reader.text place.index ∧
          (1 ≤ count ∨ place.index < reader.text.length) then
        [{ place with index := reader.text.length }]
      else [] := by
  induction fuel generalizing count place with
  | zero => omega
  | succ fuel ih =>
    rw [repeatResults, setResults_eq]
    -- The place itself is a result once there was an iteration.
    have hhere : ∀ more : List Place,
        endResults reader (if count < 1 then more else if (none : Option ℕ).any (· ≤ count) then
          [place] else if true then more ++ [place] else place :: more) =
        endResults reader more ++ if 1 ≤ count ∧ place.index = reader.text.length then [place]
          else [] := by
      intro more
      by_cases hcount : count < 1
      · rw [if_pos hcount, if_neg (fun h => by omega), append_nil]
      · rw [if_neg hcount, if_neg (by simp), if_pos rfl, endResults_append, endResults_single]
        congr 1
        by_cases hend : place.index = reader.text.length
        · rw [if_pos hend, if_pos ⟨by omega, hend⟩]
        · rw [if_neg hend, if_neg (fun h => hend h.2)]
    rw [hhere]
    rcases lt_or_ge place.index reader.text.length with hlt | hge
    · obtain ⟨character, hcharacter, hwidth, hinside⟩ :=
        characterAt_next reader.unicodeMode hlt
      rw [consumeAt_forward hlt hcharacter, if_neg (fun h : 1 ≤ count ∧ _ => by omega),
        append_nil]
      cases hhas : setHas set character with
      | false =>
        rw [if_neg Bool.false_ne_true, if_neg]
        · rfl
        · rintro ⟨hheld, -⟩
          rw [held_iff hlt hcharacter, hhas] at hheld
          cases hheld.1
      | true =>
        have hpositive : 0 < widthAt reader.text place.index reader.unicodeMode := by
          rw [hwidth]
          split
          · omega
          · omega
        rw [if_pos rfl]
        show endResults reader (([({ place with
          index := place.index + widthAt reader.text place.index reader.unicodeMode } : Place)].filter
            _).flatMap _) = _
        rw [filter_cons_of_pos (by simp; omega), filter_nil, flatMap_singleton,
          ih (count + 1) hinside (by show reader.text.length - (place.index + _) < fuel; omega)]
        have hiff : (Held reader.unicodeMode set reader.text
            (place.index + widthAt reader.text place.index reader.unicodeMode) ∧
              (1 ≤ count + 1 ∨ place.index + widthAt reader.text place.index reader.unicodeMode <
                reader.text.length)) ↔
            (Held reader.unicodeMode set reader.text place.index ∧
              (1 ≤ count ∨ place.index < reader.text.length)) := by
          rw [held_iff hlt hcharacter, hhas]
          simp [hlt]
        by_cases hheld : Held reader.unicodeMode set reader.text place.index ∧
            (1 ≤ count ∨ place.index < reader.text.length)
        · rw [if_pos hheld]
          exact if_pos (hiff.mpr hheld)
        · rw [if_neg hheld]
          exact if_neg fun h => hheld (hiff.mp h)
    · have hend : place.index = reader.text.length := by omega
      rw [consumeAt_end hge]
      show ([] : List Place) ++ _ = _
      rw [nil_append]
      have hheld : Held reader.unicodeMode set reader.text place.index := by
        rw [hend]
        exact .finish
      by_cases hcount : 1 ≤ count
      · rw [if_pos ⟨hcount, hend⟩, if_pos ⟨hheld, .inl hcount⟩, ← hend]
      · rw [if_neg (fun h => hcount h.1), if_neg]
        rintro ⟨-, h⟩
        rcases h with h | h
        · exact hcount h
        · omega

open Classical in
/-- What an attempt finds: the whole text from its start, or nothing. -/
lemma attempt_results (start : ℕ) :
    (Code.capture 0 (anchoredRepeatCode set)).results (program.reader text) false
        (initialPlace program text start) =
      if alignedStart text start program.unicodeMode = 0 ∧
          Held program.unicodeMode set text 0 ∧ 0 < text.length then
        [⟨text.length,
          update (update (fun _ => none) 0 (some 0)) 1 (some text.length)⟩]
      else [] := by
  have hbody : ∀ place : Place, (anchoredRepeatCode set).results (program.reader text) false place =
      (place.when (decide (place.index = 0))).flatMap fun place =>
        endResults (program.reader text) (repeatResults (setResults (program.reader text) set)
          1 none true (1 + text.length + 2) 0 place) := by
    intro place
    rw [← edge_start]
    rfl
  rw [Code.results, hbody]
  by_cases hzero : alignedStart text start program.unicodeMode = 0
  · have hplace : (initialPlace program text start).save (openSlot false 0) =
        ⟨0, update (fun _ => none) 0 (some 0)⟩ := by
      unfold initialPlace Place.save
      rw [hzero]
      rfl
    have hrepeat : endResults (program.reader text) (repeatResults
        (setResults (program.reader text) set) 1 none true (1 + text.length + 2) 0
        ⟨0, update (fun _ => none) 0 (some 0)⟩) = _ :=
      repeat_end _ _ (zero_le _) (show text.length - 0 < _ by omega)
    rw [hplace, Place.when, if_pos (decide_eq_true rfl), flatMap_singleton, hrepeat]
    by_cases hheld : Held program.unicodeMode set text 0 ∧ 0 < text.length
    · rw [if_pos ⟨hheld.1, .inr hheld.2⟩, if_pos ⟨hzero, hheld⟩]
      rfl
    · rw [if_neg (fun h => hheld ⟨h.1, h.2.resolve_left (not_succ_le_zero 0)⟩),
        if_neg (fun h => hheld h.2)]
      rfl
  · have hindex : ((initialPlace program text start).save (openSlot false 0)).index ≠ 0 := hzero
    rw [Place.when, if_neg (by simpa using hindex), if_neg (fun h => hzero h.1)]
    rfl

/-- An execution that reached no limit. -/
def Execution.Finishes (execution : Execution) : Prop :=
  ∀ limit steps, execution ≠ .limit limit steps

/-- An execution matched the whole text. -/
def Execution.MatchesWhole (text : List CodeUnit) (execution : Execution) : Prop :=
  ∃ steps, execution = .matched [some ⟨0, text.length⟩] steps

def Execution.MatchesNothing (execution : Execution) : Prop := ∃ steps, execution = .unmatched steps

open Classical in
/-- What an attempt answers that reaches no limit. -/
lemma AnchoredRepeat.attempt (h : AnchoredRepeat program set index) {start fuel : ℕ}
    (hstart : start ≤ text.length)
    (hrun : matchLoop limits program text fuel (initialMachine program text start) =
      some execution) (hfinishes : execution.Finishes) :
    if alignedStart text start program.unicodeMode = 0 ∧
        Held program.unicodeMode set text 0 ∧ 0 < text.length then
      execution.MatchesWhole text
    else execution.MatchesNothing := by
  obtain ⟨count, ended, hends, hended⟩ :
      ∃ count ended, EndsIn limits program text (initialMachine program text start) count ended ∧ _ :=
    h.runs.matchLoop_ends hstart
  have hsame : ended = execution := by
    have hmore := matchLoop_add hrun count
    rw [hends fuel] at hmore
    exact some.inj hmore
  rw [hsame] at hended
  rcases hended with ⟨limit, steps, -, hlimit⟩ | hfinds
  · exact absurd hlimit (hfinishes limit steps)
  · rw [attempt_results start] at hfinds
    split
    · next hheld =>
      rw [if_pos hheld] at hfinds
      cases execution with
      | matched captures steps =>
        refine ⟨steps, ?_⟩
        have hspans : some ((Place.mk text.length (update (update
            (fun _ => none) 0 (some 0)) 1 (some text.length))).spans program) = some captures :=
          hfinds
        unfold Place.spans at hspans
        rw [h.captures] at hspans
        rw [← some.inj hspans]
        rfl
      | unmatched steps => cases hfinds
      | limit limit steps => exact absurd rfl (hfinishes limit steps)
    · next hheld =>
      rw [if_neg hheld] at hfinds
      cases execution with
      | matched captures steps => cases hfinds
      | unmatched steps => exact ⟨steps, rfl⟩
      | limit limit steps => exact absurd rfl (hfinishes limit steps)

open Classical in
/-- What the scan answers that reaches no limit. -/
lemma scanLoop_outcome {unicodeMode : Bool} {fuel steps : ℕ} (hindex : index ≤ text.length)
    (hfuel : text.length - index < fuel)
    (hfinishes : (scanLoop limits text unicodeMode set fuel index steps).Finishes) :
    if Held unicodeMode set text index ∧ 0 < text.length then
      (scanLoop limits text unicodeMode set fuel index steps).MatchesWhole text
    else (scanLoop limits text unicodeMode set fuel index steps).MatchesNothing := by
  induction fuel generalizing index steps with
  | zero => omega
  | succ fuel ih =>
    rw [scanLoop] at hfinishes ⊢
    split at hfinishes
    · exact absurd rfl (hfinishes .steps steps)
    · next hlimit =>
      rw [if_neg hlimit]
      split at hfinishes
      · next hlt =>
        rw [if_pos hlt]
        obtain ⟨character, hcharacter, hwidth, hinside⟩ := characterAt_next unicodeMode hlt
        rw [hcharacter] at hfinishes ⊢
        dsimp only at hfinishes ⊢
        rw [held_iff hlt hcharacter]
        rw [← hwidth] at hfinishes ⊢
        cases hhas : setHas set character with
        | false =>
          rw [if_neg (fun h => by cases h.1.1)]
          exact ⟨steps + 1, rfl⟩
        | true =>
          rw [hhas] at hfinishes
          have hpositive : 0 < widthAt text index unicodeMode := by
            rw [hwidth]
            split
            · omega
            · omega
          have hrest := ih hinside (by omega) hfinishes
          simpa using hrest
      · next hge =>
        have hend : index = text.length := by omega
        rw [if_neg hge]
        by_cases hzero : index = 0
        · rw [if_pos hzero, if_neg (fun h => by omega)]
          exact ⟨steps + 1, rfl⟩
        · rw [if_neg hzero, if_pos ⟨by rw [hend]; exact .finish, by omega⟩]
          exact ⟨steps + 1, by rw [hend]⟩

/-! ## Steps -/

/-- A run that reaches no limit makes a round, and goes on from what it leaves. -/
lemma matchLoop_round {fuel : ℕ}
    (hrun : matchLoop limits program text fuel machine = some execution)
    (hfinishes : execution.Finishes) :
    limitAt limits.steps machine.steps = false ∧ ∃ fuel',
      (step limits program text machine = .done execution ∨ ∃ machine',
        step limits program text machine = .running machine' ∧
          matchLoop limits program text fuel' machine' = some execution) := by
  cases fuel with
  | zero => cases hrun
  | succ fuel =>
    rw [matchLoop] at hrun
    refine ⟨?_, fuel, ?_⟩
    · cases hlimit : limitAt limits.steps machine.steps with
      | false => rfl
      | true =>
        have hstep : step limits program text machine = .done (.limit .steps machine.steps) := by
          unfold step
          rw [if_pos hlimit]
        rw [hstep] at hrun
        cases hrun
        exact absurd rfl (hfinishes .steps machine.steps)
    · split at hrun
      · next ended hstep =>
        cases hrun
        exact .inl hstep
      · next machine' hstep => exact .inr ⟨machine', hstep, hrun⟩

/-- The machine in a round. -/
def Machine.charged (machine : Machine) : Machine := { machine with steps := machine.steps + 1 }

/-- A round below the step limit executes its instruction. -/
lemma step_execute {instruction : Instruction}
    (hlimit : limitAt limits.steps machine.steps = false)
    (hfetch : program.instructions[machine.address]? = some instruction) :
    step limits program text machine = execute limits program text machine.charged instruction := by
  unfold step
  rw [hlimit, if_neg Bool.false_ne_true]
  dsimp only
  rw [hfetch]
  rfl

/-- A run goes on from what an instruction leaves, unless that is a limit. -/
lemma matchLoop_execute {fuel : ℕ} {instruction : Instruction} {Left : Machine → Prop}
    (hrun : matchLoop limits program text fuel machine = some execution)
    (hfinishes : execution.Finishes)
    (hfetch : program.instructions[machine.address]? = some instruction)
    (hexecute : (∃ limit steps, execute limits program text machine.charged instruction =
        .done (.limit limit steps)) ∨
      ∃ machine', execute limits program text machine.charged instruction = .running machine' ∧
        Left machine') :
    ∃ fuel' machine', matchLoop limits program text fuel' machine' = some execution ∧
      Left machine' := by
  obtain ⟨hlimit, fuel', hround⟩ := matchLoop_round hrun hfinishes
  rw [step_execute hlimit hfetch] at hround
  rcases hexecute with ⟨limit, steps, hreached⟩ | ⟨machine', hrunning, hleft⟩
  · rcases hround with hdone | ⟨machine', hrunning, -⟩
    · rw [hreached] at hdone
      cases hdone
      exact absurd rfl (hfinishes limit steps)
    · rw [hreached] at hrunning
      cases hrunning
  · rcases hround with hdone | ⟨machine'', hrunning', hrun'⟩
    · rw [hrunning] at hdone
      cases hdone
    · rw [hrunning] at hrunning'
      cases hrunning'
      exact ⟨fuel', machine', hrun', hleft⟩

section
variable (h : AnchoredRepeat program set index)
include h

lemma AnchoredRepeat.fetch {address at_ : ℕ}
    (heq : at_ = address) : program.instructions[at_]? =
      (anchoredRepeatPrefix ++ .consume false index :: anchoredRepeatSuffix)[address]? := by
  rw [heq, h.instructions]

/-- An iteration over a character of the set takes four rounds. -/
lemma AnchoredRepeat.iteration {fuel character : ℕ}
    (hrun : matchLoop limits program text fuel machine = some execution)
    (hfinishes : execution.Finishes) (haddress : machine.address = 3)
    (hlt : machine.index < text.length)
    (hcharacter : characterAt text machine.index program.unicodeMode = some character)
    (hhas : setHas set character = true) :
    ∃ fuel' machine', matchLoop limits program text fuel' machine' = some execution ∧
      machine'.address = 3 ∧
      machine'.index = machine.index + widthAt text machine.index program.unicodeMode ∧
      machine'.steps = machine.steps + 4 := by
  -- The repetition goes on, with the way out kept as a choice after the first iteration.
  obtain ⟨fuel₁, machine₁, hrun₁, haddress₁, hindex₁, hsteps₁⟩ :
      ∃ fuel₁ machine₁, matchLoop limits program text fuel₁ machine₁ = some execution ∧
        machine₁.address = 4 ∧ machine₁.index = machine.index ∧
        machine₁.steps = machine.steps + 1 := by
    apply matchLoop_execute hrun hfinishes (h.fetch haddress)
    unfold execute stepRepetition push
    dsimp only
    split
    · exact .inr ⟨_, rfl, rfl, rfl, rfl⟩
    · rw [any_none, if_neg Bool.false_ne_true, if_pos rfl]
      split
      · exact .inl ⟨_, _, rfl⟩
      · exact .inr ⟨_, rfl, rfl, rfl, rfl⟩
  -- The position of the iteration is recorded.
  obtain ⟨fuel₂, machine₂, hrun₂, haddress₂, hindex₂, hsteps₂, hposition₂⟩ :
      ∃ fuel₂ machine₂, matchLoop limits program text fuel₂ machine₂ = some execution ∧
        machine₂.address = 5 ∧ machine₂.index = machine₁.index ∧
        machine₂.steps = machine₁.steps + 1 ∧ machine₂.registers 3 = some (machine₁.index : ℤ) := by
    apply matchLoop_execute hrun₁ hfinishes (h.fetch haddress₁)
    have henter : execute limits program text machine₁.charged (.repeatEnter 5 0 0 2 3) =
        orLimit .trailEntries machine₁.charged.steps
          ((write limits machine₁.charged 2 (machine₁.charged.read 2 0 + 1)).bind fun counted =>
            (write limits counted 3 counted.index).bind fun placed => some (placed.goto 5)) := rfl
    rw [henter]
    unfold write
    split
    · exact .inl ⟨_, _, rfl⟩
    · rw [bind_some]
      split
      · exact .inl ⟨_, _, rfl⟩
      · refine .inr ⟨_, rfl, ?_⟩
        have hsaved : ∀ registers : ℕ → Option ℤ,
            update registers 3 (some (machine₁.index : ℤ)) 3 =
              some (machine₁.index : ℤ) := fun _ => update_self _ _ _
        exact ⟨rfl, rfl, rfl,
          hsaved (update machine₁.registers 2 (some (machine₁.charged.read 2 0 + 1)))⟩
  -- The character is consumed.
  obtain ⟨fuel₃, machine₃, hrun₃, haddress₃, hindex₃, hsteps₃, hposition₃⟩ :
      ∃ fuel₃ machine₃, matchLoop limits program text fuel₃ machine₃ = some execution ∧
        machine₃.address = 6 ∧
        machine₃.index = machine₂.index + widthAt text machine₂.index program.unicodeMode ∧
        machine₃.steps = machine₂.steps + 1 ∧ machine₃.registers 3 = machine₂.registers 3 := by
    apply matchLoop_execute hrun₂ hfinishes (h.fetch haddress₂)
    have hsets : program.sets[index]?.getD [] = set := by
      rw [h.sets]
      rfl
    have hindex : machine₂.charged.index = machine.index := hindex₂.trans hindex₁
    have hconsume : consumeAt text program.unicodeMode false (program.sets[index]?.getD [])
        machine₂.charged.index =
          some (machine₂.index + widthAt text machine₂.index program.unicodeMode) := by
      rw [hsets, hindex, consumeAt_forward hlt hcharacter, if_pos hhas, hindex₂, hindex₁]
    unfold execute
    dsimp only
    rw [stepConsume_eq, hconsume]
    refine .inr ⟨_, rfl, ?_, rfl, rfl, rfl⟩
    show machine₂.address + 1 = 6
    rw [haddress₂]
  -- The iteration consumed something.
  obtain ⟨fuel₄, machine₄, hrun₄, haddress₄, hindex₄, hsteps₄⟩ :
      ∃ fuel₄ machine₄, matchLoop limits program text fuel₄ machine₄ = some execution ∧
        machine₄.address = 3 ∧ machine₄.index = machine₃.index ∧
        machine₄.steps = machine₃.steps + 1 := by
    apply matchLoop_execute hrun₃ hfinishes (h.fetch haddress₃)
    have hpositive : 0 < widthAt text machine₂.index program.unicodeMode := by
      unfold widthAt
      split
      · omega
      · omega
    have hread : machine₃.charged.read 3 unset = machine₁.index := by
      show (machine₃.registers 3).getD unset = _
      rw [hposition₃, hposition₂]
      rfl
    unfold execute stepRepeatEnd
    dsimp only
    rw [hread, if_neg]
    · exact .inr ⟨_, rfl, rfl, rfl, rfl⟩
    · rintro ⟨-, hempty⟩
      have hsame : machine₁.index = machine₃.index := Int.ofNat.inj hempty
      omega
  refine ⟨fuel₄, machine₄, hrun₄, haddress₄, ?_, by omega⟩
  rw [hindex₄, hindex₃, hindex₂, hindex₁]

/-- An attempt from the start of the text comes to the repetition. -/
lemma AnchoredRepeat.started {start fuel : ℕ}
    (hrun : matchLoop limits program text fuel (initialMachine program text start) =
      some execution) (hfinishes : execution.Finishes)
    (hzero : alignedStart text start program.unicodeMode = 0) :
    ∃ fuel' machine', matchLoop limits program text fuel' machine' = some execution ∧
      machine'.address = 3 ∧ machine'.index = 0 ∧ 3 ≤ machine'.steps := by
  -- A write of a register goes on with the next instruction.
  have hwritten : ∀ {machine : Machine} {instruction : Instruction} {register : ℕ} {value : ℤ},
      execute limits program text machine.charged instruction =
        orLimit .trailEntries machine.charged.steps ((write limits machine.charged register
          value).map (Machine.goto · (machine.address + 1))) →
      (∃ limit steps, execute limits program text machine.charged instruction =
          .done (.limit limit steps)) ∨
        ∃ machine', execute limits program text machine.charged instruction = .running machine' ∧
          machine'.address = machine.address + 1 ∧ machine'.index = machine.index ∧
            machine'.steps = machine.steps + 1 := by
    intro machine instruction register value hexecute
    rw [hexecute]
    unfold write
    split
    · exact .inl ⟨_, _, rfl⟩
    · exact .inr ⟨_, rfl, rfl, rfl, rfl⟩
  obtain ⟨fuel₁, machine₁, hrun₁, haddress₁, hindex₁, hsteps₁⟩ :=
    matchLoop_execute hrun hfinishes (h.fetch (rfl : (initialMachine program text start).address = 0)) (hwritten rfl)
  have hone : machine₁.address = 1 := haddress₁
  have hstart : machine₁.index = 0 := hindex₁.trans hzero
  obtain ⟨fuel₂, machine₂, hrun₂, htwo, hindex₂, hsteps₂⟩ :
      ∃ fuel₂ machine₂, matchLoop limits program text fuel₂ machine₂ = some execution ∧
        machine₂.address = 2 ∧ machine₂.index = 0 ∧ machine₂.steps = machine₁.steps + 1 := by
    apply matchLoop_execute hrun₁ hfinishes (h.fetch hone)
    unfold execute
    dsimp only
    rw [edge_start, if_pos (decide_eq_true (show machine₁.charged.index = 0 from hstart))]
    refine .inr ⟨_, rfl, ?_, hstart, rfl⟩
    show machine₁.address + 1 = 2
    rw [hone]
  obtain ⟨fuel₃, machine₃, hrun₃, haddress₃, hindex₃, hsteps₃⟩ :=
    matchLoop_execute hrun₂ hfinishes (h.fetch htwo) (hwritten rfl)
  refine ⟨fuel₃, machine₃, hrun₃, ?_, hindex₃.trans hindex₂, by omega⟩
  rw [haddress₃, htwo]

/-- The scan reaches no step limit that a run from the same position does not reach. -/
lemma AnchoredRepeat.scan_finishes {fuel scanFuel steps : ℕ}
    (hrun : matchLoop limits program text fuel machine = some execution)
    (hfinishes : execution.Finishes) (haddress : machine.address = 3)
    (hsteps : steps ≤ machine.steps) :
    (scanLoop limits text program.unicodeMode set scanFuel machine.index steps).Finishes := by
  induction scanFuel generalizing machine fuel steps with
  | zero => exact fun _ _ h => by cases h
  | succ scanFuel ih =>
    have hbelow : limitAt limits.steps steps = false := by
      obtain ⟨hlimit, -⟩ := matchLoop_round hrun hfinishes
      cases hsome : limits.steps with
      | none => rfl
      | some allowed =>
        rw [hsome] at hlimit
        have hlt : ¬ allowed ≤ machine.steps := of_decide_eq_false hlimit
        exact decide_eq_false (by omega)
    rw [scanLoop, hbelow, if_neg Bool.false_ne_true]
    split
    · next hlt =>
      obtain ⟨character, hcharacter, hwidth, -⟩ := characterAt_next program.unicodeMode hlt
      rw [hcharacter]
      dsimp only
      rw [← hwidth]
      split
      · simp [Execution.Finishes]
      · next hhas =>
        rw [Bool.not_eq_true, Bool.not_eq_false'] at hhas
        obtain ⟨fuel', machine', hrun', haddress', hindex', hsteps'⟩ :=
          h.iteration hrun hfinishes haddress hlt hcharacter hhas
        rw [← hindex']
        exact ih hrun' haddress' (by omega)
    · split
      · simp [Execution.Finishes]
      · simp [Execution.Finishes]

end

/-! ## Searches -/

/-- The same outcome, with the same captures. -/
def Execution.SameOutcome : Execution → Execution → Prop
  | .matched captures _, .matched captures' _ => captures = captures'
  | .unmatched _, .unmatched _ => True
  | _, _ => False

lemma Execution.MatchesWhole.same {other : Execution} (h : execution.MatchesWhole text)
    (h' : other.MatchesWhole text) : execution.SameOutcome other := by
  obtain ⟨steps, rfl⟩ := h
  obtain ⟨steps', rfl⟩ := h'
  rfl

lemma Execution.MatchesNothing.same {other : Execution} (h : execution.MatchesNothing)
    (h' : other.MatchesNothing) : execution.SameOutcome other := by
  obtain ⟨steps, rfl⟩ := h
  obtain ⟨steps', rfl⟩ := h'
  trivial

/-- One attempt of the ordinary search. -/
def ordinaryAttempt (program : MatcherProgram) (text : List CodeUnit) (fuel : ℕ)
    (limits : ExecutionLimits) (index : ℕ) : Option Execution :=
  matchLoop limits program text fuel (initialMachine program text index)

/-- Later positions than the start of the text. -/
def Later (program : MatcherProgram) (text : List CodeUnit) (index : ℕ) : Prop :=
  0 < index ∧ index ≤ text.length ∧ alignedStart text index program.unicodeMode ≠ 0

lemma le_alignedStart (index : ℕ) (unicodeMode : Bool) :
    index - 1 ≤ alignedStart text index unicodeMode := by
  unfold alignedStart
  split
  · omega
  · split
    · omega
    · omega

/-- The next position is a later one: a search does not come between the units of a pair. -/
lemma later_next (hlt : index < text.length) :
    Later program text (index + widthAt text index program.unicodeMode) := by
  obtain ⟨character, hcharacter, hwidth, hinside⟩ := characterAt_next program.unicodeMode hlt
  have hpositive : 0 < widthAt text index program.unicodeMode := by
    rw [hwidth]
    split
    · omega
    · omega
  refine ⟨by omega, hinside, ?_⟩
  have hle : index + widthAt text index program.unicodeMode - 1 ≤
      alignedStart text (index + widthAt text index program.unicodeMode) program.unicodeMode :=
    le_alignedStart _ _
  rcases lt_or_ge 1 (index + widthAt text index program.unicodeMode) with hmany | hone
  · omega
  · have hzero : index = 0 := by omega
    subst hzero
    have hwidth : 0 + widthAt text 0 program.unicodeMode = 1 := by omega
    rw [hwidth]
    unfold alignedStart
    split
    · omega
    · next hinner =>
      rw [if_neg]
      · omega
      · intro hpair
        simp only [Bool.or_eq_true, Bool.not_eq_true', decide_eq_true_eq, not_or] at hinner
        have hmode : program.unicodeMode = true := by simpa using hinner.1.1
        rw [Bool.and_eq_true, charCodeAt_eq_some hlt] at hpair
        rw [hmode] at hwidth
        rcases characterAt_cases hlt with ⟨-, -, -, -, htwo, -⟩ | ⟨hlone, -, -⟩
        · omega
        · rw [hlone hpair.2] at hpair
          exact Bool.false_ne_true hpair.1

/-- A search goes on from an attempt. -/
lemma searchLoop_cases {attempt : ExecutionLimits → ℕ → Option Execution} {fuel steps : ℕ}
    (hsearch : searchLoop attempt limits program text fuel index steps = some execution)
    (hfinishes : execution.Finishes) : ∃ found, attempt (limits.less steps) index = some found ∧
      found.Finishes ∧
      ((∃ captures taken, found = .matched captures taken ∧
          execution = .matched captures (steps + taken)) ∨
        (found.MatchesNothing ∧ (execution.MatchesNothing ∨ index < text.length ∧
          ∃ fuel' steps', searchLoop attempt limits program text fuel'
            (index + widthAt text index program.unicodeMode) steps' = some execution))) := by
  cases fuel with
  | zero => cases hsearch
  | succ fuel =>
    rw [searchLoop] at hsearch
    split at hsearch
    · cases hsearch
    · next captures taken hattempt =>
      cases hsearch
      exact ⟨_, hattempt, nofun, .inl ⟨captures, taken, rfl, rfl⟩⟩
    · next limit taken hattempt =>
      cases hsearch
      exact absurd rfl (hfinishes limit (steps + taken))
    · next taken hattempt =>
      refine ⟨_, hattempt, nofun, .inr ⟨⟨taken, rfl⟩, ?_⟩⟩
      split at hsearch
      · cases hsearch
        exact .inl ⟨steps + taken, rfl⟩
      · next hmore =>
        rw [Bool.or_eq_true, decide_eq_true_eq, not_or] at hmore
        exact .inr ⟨by omega, fuel, steps + taken, hsearch⟩

/-- The search finds nothing at later positions. -/
lemma AnchoredRepeat.search_later {set' : ℕ} (h : AnchoredRepeat program set set')
    {fuel attemptFuel steps : ℕ} (hlater : Later program text index)
    (hsearch : searchLoop (ordinaryAttempt program text attemptFuel) limits program text fuel index
      steps = some execution) (hfinishes : execution.Finishes) : execution.MatchesNothing := by
  classical
  -- Every later position is behind this one.
  generalize hleft : text.length - index = left
  induction left using Nat.strong_induction_on generalizing fuel index steps with
  | _ left ih =>
    obtain ⟨found, hattempt, hfound, hcases⟩ := searchLoop_cases hsearch hfinishes
    have hnothing : found.MatchesNothing := by
      have houtcome := h.attempt hlater.2.1 hattempt hfound
      rwa [if_neg (fun hheld => hlater.2.2 hheld.1)] at houtcome
    rcases hcases with ⟨captures, taken, hmatched, -⟩ | ⟨-, hended | ⟨hlt, fuel', steps', hrest⟩⟩
    · obtain ⟨steps', hunmatched⟩ := hnothing
      rw [hmatched] at hunmatched
      cases hunmatched
    · exact hended
    · have hnext : Later program text (index + widthAt text index program.unicodeMode) :=
        later_next hlt
      have hpositive : 0 < widthAt text index program.unicodeMode := by
        unfold widthAt
        split
        · omega
        · omega
      exact ih _ (by omega) hnext hrest rfl

/-- A search that reaches no limit answers like its first attempt. -/
lemma AnchoredRepeat.search (h : AnchoredRepeat program set index) {start fuel attemptFuel : ℕ}
    (hsearch : searchLoop (ordinaryAttempt program text attemptFuel) limits program text fuel
      (alignedStart text start program.unicodeMode) 0 = some execution)
    (hfinishes : execution.Finishes) :
    ∃ found, ordinaryAttempt program text attemptFuel limits
        (alignedStart text start program.unicodeMode) = some found ∧ found.Finishes ∧
      execution.SameOutcome found := by
  classical
  obtain ⟨found, hattempt, hfound, hcases⟩ := searchLoop_cases hsearch hfinishes
  have hlimits : limits.less 0 = limits := by
    unfold ExecutionLimits.less
    cases hsteps : limits.steps <;> simp [← hsteps]
  rw [hlimits] at hattempt
  refine ⟨found, hattempt, hfound, ?_⟩
  rcases hcases with ⟨captures, taken, rfl, rfl⟩ | ⟨hnothing, hended | ⟨hlt, fuel', steps', hrest⟩⟩
  · rfl
  · exact hended.same hnothing
  · exact (h.search_later (later_next hlt) hrest hfinishes).same hnothing

/-- Aligning once more does not come to the start of the text. -/
lemma alignedStart_eq_zero {start : ℕ} {unicodeMode : Bool}
    (h : alignedStart text (alignedStart text start unicodeMode) unicodeMode = 0) :
    alignedStart text start unicodeMode = 0 := by
  by_contra hne
  cases unicodeMode with
  | false => exact hne h
  | true =>
    have hboundary : CodePointBoundary text (alignedStart text start true) :=
      boundary_alignedStart
    generalize alignedStart text start true = aligned at h hne hboundary
    unfold alignedStart at h
    split at h
    · exact hne h
    · next hinner =>
      split at h
      · next hpair =>
        simp only [Bool.or_eq_true, Bool.not_eq_true', decide_eq_true_eq, not_or] at hinner
        rw [Bool.and_eq_true] at hpair
        exact hboundary ⟨by omega, hpair.2, hpair.1⟩
      · exact hne h

/-- Where a search starts from a position of a text. -/
lemma searchOrdinarily_inside {start : ℕ} {fuel attemptFuel : ℕ} (hstart : start ≤ text.length) :
    searchOrdinarily ⟨limits, program, start, text⟩ fuel attemptFuel =
      searchLoop (ordinaryAttempt program text attemptFuel) limits program text fuel
        (alignedStart text start program.unicodeMode) 0 := by
  have hrange : ¬ ((start : ℤ) < 0 ∨ (start : ℤ) > text.length) := by omega
  unfold searchOrdinarily
  rw [if_neg hrange, Int.toNat_natCast]
  rfl

/-- The scan finds what the first attempt of the search finds. -/
lemma AnchoredRepeat.scan (h : AnchoredRepeat program set index) {start attemptFuel : ℕ}
    {found : Execution} (hstart : start ≤ text.length)
    (hattempt : ordinaryAttempt program text attemptFuel limits
      (alignedStart text start program.unicodeMode) = some found) (hfound : found.Finishes) :
    (scanAnchoredRepeat limits program text start set).Finishes ∧
      found.SameOutcome (scanAnchoredRepeat limits program text start set) := by
  classical
  have houtcome := h.attempt (le_trans (alignedStart_le text start _) hstart) hattempt hfound
  obtain ⟨hlimit, -⟩ := matchLoop_round hattempt hfound
  have hbelow : limitAt limits.steps 0 = false := hlimit
  unfold scanAnchoredRepeat
  rw [hbelow, if_neg Bool.false_ne_true]
  by_cases hzero : alignedStart text start program.unicodeMode = 0
  · rw [if_neg (not_not.mpr hzero)]
    have hagain : alignedStart text (alignedStart text start program.unicodeMode)
        program.unicodeMode = 0 := by
      rw [hzero]
      exact le_zero.mp (alignedStart_le text 0 _)
    obtain ⟨fuel, machine, hrun, haddress, hindex, hsteps⟩ := h.started hattempt hfound hagain
    have hfinishes : (scanLoop limits text program.unicodeMode set (text.length + 1) 0 1).Finishes := by
      rw [← hindex]
      exact h.scan_finishes hrun hfound haddress (by omega)
    have hscanned := scanLoop_outcome (zero_le _) (by omega) hfinishes
    refine ⟨hfinishes, ?_⟩
    by_cases hheld : Held program.unicodeMode set text 0 ∧ 0 < text.length
    · rw [if_pos hheld] at hscanned
      rw [if_pos ⟨hagain, hheld⟩] at houtcome
      exact houtcome.same hscanned
    · rw [if_neg hheld] at hscanned
      rw [if_neg (fun h => hheld h.2)] at houtcome
      exact houtcome.same hscanned
  · rw [if_pos hzero]
    rw [if_neg (fun h => hzero (alignedStart_eq_zero h.1))] at houtcome
    exact ⟨nofun, houtcome.same ⟨1, rfl⟩⟩

lemma Execution.SameOutcome.trans {middle other : Execution} (h : execution.SameOutcome middle)
    (h' : middle.SameOutcome other) : execution.SameOutcome other := by
  cases execution <;> cases middle <;> cases other <;> simp_all [Execution.SameOutcome]

/-- A search that finishes without reaching a limit keeps its outcome and its captures when the
whole of it is the scan, which reaches no limit either. -/
theorem scanAnchoredRepeat_refines (h : anchoredRepeatSet program = some set) {start : ℤ}
    {fuel attemptFuel : ℕ}
    (hsearch : searchOrdinarily ⟨limits, program, start, text⟩ fuel attemptFuel = some execution)
    (hfinishes : ∀ limit steps, execution ≠ .limit limit steps) :
    (∀ fuel' attemptFuel', ∃ found, searchRegExpMatcher ⟨limits, program, start, text⟩ fuel'
        attemptFuel' = some found ∧ (∀ limit steps, found ≠ .limit limit steps) ∧
        execution.SameOutcome found) ∧
      (0 ≤ start ∧ start ≤ text.length →
        (∀ limit steps, scanAnchoredRepeat limits program text start.toNat set ≠
          .limit limit steps) ∧
        execution.SameOutcome (scanAnchoredRepeat limits program text start.toNat set)) := by
  obtain ⟨index, hlayout⟩ := anchoredRepeatSet_layout h
  have hscan : 0 ≤ start ∧ start ≤ text.length →
      (scanAnchoredRepeat limits program text start.toNat set).Finishes ∧
        execution.SameOutcome (scanAnchoredRepeat limits program text start.toNat set) := by
    intro hrange
    obtain ⟨position, rfl⟩ := Int.eq_ofNat_of_zero_le hrange.1
    have hinside : position ≤ text.length := by omega
    rw [searchOrdinarily_inside hinside] at hsearch
    obtain ⟨found, hattempt, hfound, hsame⟩ := hlayout.search hsearch hfinishes
    obtain ⟨hreached, hfinds⟩ := hlayout.scan hinside hattempt hfound
    exact ⟨hreached, hsame.trans hfinds⟩
  refine ⟨?_, hscan⟩
  intro fuel' attemptFuel'
  unfold searchRegExpMatcher
  by_cases hout : start < 0 ∨ start > text.length
  · unfold searchOrdinarily at hsearch
    rw [if_pos hout] at hsearch
    rw [if_pos hout]
    refine ⟨execution, hsearch, hfinishes, ?_⟩
    cases hsearch
    trivial
  · obtain ⟨hreached, hfinds⟩ := hscan (by omega)
    rw [if_neg hout, h]
    exact ⟨_, rfl, hreached, hfinds⟩

/-- The program of `^[a-z]+$`. -/
def letterProgram : MatcherProgram where
  canonicalization := none
  captures := []
  flags := ⟨false, false, false, false, false, false, "", false, false⟩
  groupNames := []
  instructions := anchoredRepeatPrefix ++ .consume false 0 :: anchoredRepeatSuffix
  registers := 4
  sets := [[0x61, 0x7b]]
  source := []
  unicodeMode := false

/-- Both match two letters. -/
theorem scanAnchoredRepeat_refines_letters :
    searchOrdinarily ⟨.removed, letterProgram, 0, [0x61, 0x62]⟩ 2 20 =
        some (.matched [some ⟨0, 2⟩] 17) ∧
      (Execution.matched [some ⟨0, 2⟩] 17).SameOutcome
        (scanAnchoredRepeat .removed letterProgram [0x61, 0x62] 0 [0x61, 0x7b]) := by
  have hsearch : searchOrdinarily ⟨.removed, letterProgram, 0, [0x61, 0x62]⟩ 2 20 =
      some (.matched [some ⟨0, 2⟩] 17) := by decide +kernel
  refine ⟨hsearch, ?_⟩
  exact ((scanAnchoredRepeat_refines (by decide +kernel) hsearch nofun).2 (by decide)).2

/-! ## What a search finds -/

/-- The positions a search tries: a first one, and those AdvanceStringIndex leads to. -/
def searchPositions (program : MatcherProgram) (text : List CodeUnit) :
    (fuel index : ℕ) → List ℕ
  | 0, _ => []
  | fuel + 1, index => index ::
    if program.flags.sticky || text.length ≤ index then []
    else searchPositions program text fuel (index + widthAt text index program.unicodeMode)

/-- The position loop finds the first result at the first position that has one. -/
lemma searchLoop_finds {results : ℕ → List Place} (hattempt : ∀ position ≤ text.length,
      ∃ count execution, EndsIn .removed program text (initialMachine program text position) count
        execution ∧ execution.Finds program (results position))
    {fuel : ℕ} (hfuel : text.length < fuel + index) (hindex : index ≤ text.length) (steps : ℕ) :
    ∃ count execution,
      (∀ attemptFuel, searchLoop (ordinaryAttempt program text (attemptFuel + count)) .removed
        program text fuel index steps = some execution) ∧
      execution.Finds program ((searchPositions program text fuel index).flatMap results) := by
  induction fuel generalizing index steps with
  | zero => omega
  | succ fuel ih =>
    obtain ⟨count, found, hfound, hfinds⟩ := hattempt index hindex
    have hround : ∀ attemptFuel, ordinaryAttempt program text (attemptFuel + count)
        (ExecutionLimits.less .removed steps) index = some found := hfound
    rw [searchPositions, flatMap_cons]
    cases found with
    | limit => exact hfinds.elim
    | matched captures taken =>
      obtain ⟨place, hplace, hspans⟩ := map_eq_some_iff.mp hfinds
      refine ⟨count, .matched captures (steps + taken), fun attemptFuel => ?_, ?_⟩
      · rw [searchLoop, hround]
      · show Option.map _ (head? _) = _
        rw [head?_append, hplace, some_or, Option.map_some, hspans]
    | unmatched taken =>
      rw [show results index = [] from hfinds, nil_append]
      cases hlast : program.flags.sticky || decide (text.length ≤ index) with
      | true =>
        refine ⟨count, .unmatched (steps + taken), fun attemptFuel => ?_, rfl⟩
        rw [searchLoop, hround]
        exact if_pos hlast
      | false =>
        have hlt := (Bool.or_eq_false_iff.mp hlast).2
        rw [decide_eq_false_iff_not, not_le] at hlt
        obtain ⟨character, -, hwidth, hinside⟩ := characterAt_next program.unicodeMode hlt
        obtain ⟨count', execution, hends, hfinds⟩ :=
          ih (by split at hwidth <;> omega) hinside (steps + taken)
        refine ⟨count' + count, execution, fun attemptFuel => ?_, hfinds⟩
        rw [searchLoop, ← Nat.add_assoc, hround]
        simp only [hlast, Bool.false_eq_true, if_false]
        rw [Nat.add_right_comm]
        exact hends (attemptFuel + count)

/-- A search for a built program has the meaning of the pattern: it takes the first position with
a result, and there the result that comes first. -/
theorem searchOrdinarily_finds {pattern : Pattern} {matcherLimits : MatcherLimits}
    {unicodeData : UnicodeData} (hpattern : pattern.WellFormed)
    (hbuild : buildRegExpMatcher pattern matcherLimits unicodeData = .ok program) :
    ∃ code, disjunctionCode false pattern.body
        (initialBuilder pattern matcherLimits unicodeData) = .ok code ∧
      ∀ text : List CodeUnit, ∀ start ≤ text.length, ∀ fuel > text.length, ∃ count execution,
        (∀ attemptFuel, searchOrdinarily ⟨.removed, program, start, text⟩ fuel
          (attemptFuel + count) = some execution) ∧
        execution.Finds program ((searchPositions program text fuel
          (alignedStart text start program.unicodeMode)).flatMap fun position =>
            (Code.capture 0 code).results (program.reader text) false
              (initialPlace program text position)) := by
  obtain ⟨code, hcompiled⟩ := buildRegExpMatcher_compiled hpattern hbuild
  obtain ⟨last, failAt, hruns⟩ := hcompiled.runs
  refine ⟨code, hcompiled.lowers, fun text start hstart fuel hfuel => ?_⟩
  simp only [searchOrdinarily_inside hstart]
  apply searchLoop_finds _ (by omega) (Nat.le_trans (alignedStart_le text start _) hstart)
  intro position hposition
  obtain ⟨count, execution, hends, ⟨_, _, hne, -⟩ | hfinds⟩ := hruns.matchLoop_ends hposition
  · exact absurd rfl hne
  · exact ⟨count, execution, hends, hfinds⟩

/-- A search from inside the pair. -/
theorem searchOrdinarily_finds_pairPattern : ∃ program count execution,
    buildRegExpMatcher pairPattern ⟨100, 100⟩ ⟨none, none, none, none, none⟩ = .ok program ∧
      searchOrdinarily ⟨.removed, program, (2 : ℕ), pairText⟩ 4 count = some execution := by
  obtain ⟨program, hbuild, -⟩ := pairPattern_built
  obtain ⟨code, -, hfinds⟩ := searchOrdinarily_finds ⟨by decide, by decide⟩ hbuild
  obtain ⟨count, execution, hends, -⟩ := hfinds pairText 2 (by decide) 4 (by decide)
  exact ⟨program, _, execution, hbuild, hends 0⟩

end Oseo.RegExpMatcher
