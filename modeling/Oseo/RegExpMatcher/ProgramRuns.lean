import Oseo.RegExpMatcher.PatternForm
import Oseo.RegExpMatcher.Simulation

/-!
# Runs of built programs

A program `buildRegExpMatcher` returns holds the code of its pattern as capture 0, followed by
its accept and its shared failure (`buildRegExpMatcher_compiled`). The loop follows the search of
that code (`Arrives`, `Proceeds.arrives`), so that an attempt ends: with the first result of the
code as its captures, unmatched where there is none, or at a limit
(`MatcherProgram.RunsCode.matchLoop_ends`).
-/

namespace Oseo.RegExpMatcher

section

variable {pattern : Pattern} {matcherLimits : MatcherLimits} {unicodeData : UnicodeData}
variable {program : MatcherProgram} {code : Code} {span : Span}

/-- How many capture registers a program has. -/
def MatcherProgram.slots (program : MatcherProgram) : ℕ := 2 * (program.captures.length + 1)

/-- The program runs the code as capture 0. -/
structure MatcherProgram.RunsCode (program : MatcherProgram) (code : Code) (last failAt : ℕ) :
    Prop where
  lays : (Code.capture 0 code).Lays program failAt false 0 last program.slots program.registers
  form : (Code.capture 0 code).WellFormed program.slots
  accepts : program.instructions[last]? = some .accept
  fails : program.instructions[failAt]? = some .fail
  failAt_eq : failAt = last + 1
  length : program.instructions.length = failAt + 1

/-- What a built program keeps of its pattern. -/
structure Compiled (pattern : Pattern) (matcherLimits : MatcherLimits)
    (unicodeData : UnicodeData) (program : MatcherProgram) (code : Code) : Prop where
  lowers : disjunctionCode false pattern.body (initialBuilder pattern matcherLimits unicodeData) =
    .ok code
  captures : program.captures = pattern.captures
  flags : program.flags = pattern.flags
  unicodeMode : program.unicodeMode = regExpUnicodeMode pattern.flags
  runs : ∃ last failAt, program.RunsCode code last failAt
  canonicalization : program.canonicalization = none ∨ ∃ provide,
    unicodeData.caseEquivalenceClasses = some provide ∧
      program.canonicalization = some (canonicalizationTable (provide program.unicodeMode))
  compares : program.canonicalization = none →
    ∀ instruction ∈ program.instructions, instruction.comparesCharacters = false

lemma neededCanonicalization_eq {builder : Builder} {instructions : List Instruction}
    {table : Option Canonicalization}
    (h : neededCanonicalization builder span instructions = .ok table) :
    (table = none ∨ ∃ provide, builder.unicodeData.caseEquivalenceClasses = some provide ∧
      table = some (canonicalizationTable (provide builder.unicodeMode))) ∧
    (table = none → ∀ instruction ∈ instructions, instruction.comparesCharacters = false) := by
  unfold neededCanonicalization at h
  split at h
  · obtain ⟨classes, hclasses, h⟩ := build_bind_eq_ok h
    cases h
    refine ⟨.inr ?_, nofun⟩
    unfold caseClasses at hclasses
    split at hclasses
    · cases hclasses
    · rename_i provide hprovide
      cases hclasses
      exact ⟨provide, hprovide, rfl⟩
  · rename_i hcompares
    cases h
    refine ⟨.inl rfl, fun _ instruction hmem => ?_⟩
    rw [comparesCharacters, List.any_eq_true] at hcompares
    apply Bool.eq_false_iff.mpr
    exact fun hcompare => hcompares ⟨instruction, hmem, hcompare⟩

/-- The groups and references of a well-formed pattern have slots of their own. -/
lemma Pattern.WellFormed.numbered (h : pattern.WellFormed) :
    Numbered (2 * (pattern.captures.length + 1)) pattern.body.groups pattern.body.references where
  consecutive := by
    refine ⟨1, ?_⟩
    rw [h.groups, List.length_range']
  below index hmem := by
    rw [h.groups, List.mem_range'_1] at hmem
    omega
  named index hmem := by
    have hle := h.references index hmem
    omega

/-- The code of a well-formed pattern, as capture 0. -/
lemma disjunctionCode_whole {builder : Builder} (hpattern : pattern.WellFormed)
    (h : disjunctionCode false pattern.body builder = .ok code) :
    (Code.capture 0 code).WellFormed (2 * (pattern.captures.length + 1)) := by
  have hcode := disjunctionCode_over false pattern.body h hpattern.numbered
  refine ⟨hcode.wellFormed, ?_, by omega⟩
  rw [hcode.groups, hpattern.groups, List.mem_range'_1]
  omega

/-- What is emitted around the body of a pattern. -/
lemma buildWhole_builds {builder final : Builder}
    (h : buildWhole pattern span builder = .ok final) :
    ∃ code finished accepted, disjunctionCode false pattern.body builder = .ok code ∧
      Builds false builder (.capture 0 code) finished ∧ Emitted finished .accept accepted ∧
      Emitted (placeLabel accepted builder.failLabel) .fail final := by
  obtain ⟨opened, hopen, h⟩ := build_bind_eq_ok h
  obtain ⟨emitted, hbody, h⟩ := build_bind_eq_ok h
  obtain ⟨finished, hclose, h⟩ := build_bind_eq_ok h
  obtain ⟨accepted, haccept, hfail⟩ := build_bind_eq_ok h
  obtain ⟨code, hcode, hbuilds⟩ :=
    buildDisjunction_builds false pattern.body hbody (emit_emitted hopen).settings
  have hwhole : Builds false builder (.capture 0 code) finished :=
    .capture (emit_emitted hopen) hbuilds (emit_emitted hclose)
  refine ⟨code, finished, accepted, hcode, hwhole, emit_emitted haccept, ?_⟩
  have hlabel : accepted.failLabel = builder.failLabel :=
    congrArg Settings.failLabel ((emit_emitted haccept).settings.trans hwhole.settings)
  rw [← hlabel]
  exact emit_emitted hfail

/-- A built program runs the code of its pattern. -/
theorem buildRegExpMatcher_compiled (hpattern : pattern.WellFormed)
    (h : buildRegExpMatcher pattern matcherLimits unicodeData = .ok program) :
    ∃ code, Compiled pattern matcherLimits unicodeData program code := by
  simp only [buildRegExpMatcher] at h
  split at h
  · cases h
  obtain ⟨final, hwhole, h⟩ := build_bind_eq_ok h
  obtain ⟨table, htable, h⟩ := build_bind_eq_ok h
  obtain ⟨code, finished, accepted, hcode, hbuilds, haccept, hfail⟩ := buildWhole_builds hwhole
  obtain ⟨hcanonicalization, hcompares⟩ := neededCanonicalization_eq htable
  have hsettings : final.settings = (initialBuilder pattern matcherLimits unicodeData).settings :=
    hfail.settings.trans ((placeLabel_settings accepted 0).trans
      (haccept.settings.trans hbuilds.settings))
  have hmode : final.unicodeMode = regExpUnicodeMode pattern.flags :=
    congrArg Settings.unicodeMode hsettings
  have hdata : final.unicodeData = unicodeData := congrArg Settings.unicodeData hsettings
  cases h
  rw [hdata] at hcanonicalization
  refine ⟨code, ⟨hcode, rfl, rfl, hmode, ?_, hcanonicalization, hcompares⟩⟩
  refine ⟨finished.instructions.length, accepted.instructions.length, ?_⟩
  have hfinished : Finished final {
      canonicalization := table
      captures := pattern.captures
      flags := pattern.flags
      groupNames := pattern.groupNames
      instructions := final.instructions.map (resolveTargets final.addresses)
      registers := final.registers
      sets := final.sets
      source := pattern.source
      unicodeMode := final.unicodeMode } := ⟨rfl, rfl⟩
  have hgrows : Grows (· ≠ 0) finished final := by
    apply (((haccept.grows fun _ => True).trans (placeLabel_grows accepted 0)).trans
      (hfail.grows fun _ => True)).mono
    exact fun label hlabel => ⟨⟨trivial, hlabel⟩, trivial⟩
  have hlabels : 0 < accepted.addresses.length := by
    rw [haccept.labels]
    exact Nat.lt_of_lt_of_le Nat.zero_lt_one hbuilds.grows.labels
  have hlays := hbuilds.lays _ final accepted.instructions.length hfinished {
    grows := hgrows.mono fun label hlabel => by
      have hle : 1 ≤ label := hlabel.1
      omega
    failAt := by
      show final.addresses[0]? = _
      rw [hfail.labels]
      exact placeLabel_address hlabels }
  have hregisters : finished.registers = final.registers := by
    rw [hfail.registers, placeLabel_registers, haccept.registers]
  rw [hregisters] at hlays
  exact {
    lays := hlays
    form := disjunctionCode_whole hpattern hcode
    accepts := hfinished.fetch haccept.instructions
      ((placeLabel_grows accepted 0).instructions.trans (hfail.grows fun _ => True).instructions)
    fails := hfinished.fetch hfail.instructions (List.prefix_refl _)
    failAt_eq := by rw [haccept.instructions, List.length_append]; rfl
    length := by
      show (final.instructions.map _).length = _
      rw [List.length_map, hfail.instructions, List.length_append]
      rfl }

end

/-! ## The loop -/

section

open Oseo.Library

variable {program : MatcherProgram} {text : List CodeUnit} {limits : ExecutionLimits}
variable {config config' : Option (Point × List Point)} {machine : Machine}
variable {point : Point} {choices : List Point} {slots : ℕ}

/-! ## Following moves -/

/-- The loop ends with an execution, given `count` rounds. -/
def EndsIn (limits : ExecutionLimits) (program : MatcherProgram) (text : List CodeUnit)
    (machine : Machine) (count : ℕ) (execution : Execution) : Prop :=
  ∀ fuel, matchLoop limits program text (fuel + count) machine = some execution

/-- From a machine the loop arrives at a configuration of the search, or ends at a limit. -/
def Arrives (limits : ExecutionLimits) (program : MatcherProgram) (text : List CodeUnit)
    (config : Option (Point × List Point)) (machine : Machine) : Prop :=
  (∃ count limit steps, limits ≠ .removed ∧
    EndsIn limits program text machine count (.limit limit steps)) ∨
  match config with
  | none => ∃ count steps, EndsIn limits program text machine count (.unmatched steps)
  | some (point, choices) => ∃ count machine', Related program machine' point choices ∧
    ∀ fuel, matchLoop limits program text (fuel + count) machine =
      matchLoop limits program text fuel machine'

/-- A round that ends the loop. -/
lemma endsIn_of_step {execution : Execution}
    (h : step limits program text machine = .done execution) :
    EndsIn limits program text machine 1 execution := by
  intro fuel
  rw [matchLoop, h]

/-- A round that does not. -/
lemma matchLoop_of_step {machine' : Machine}
    (h : step limits program text machine = .running machine') (fuel : ℕ) :
    matchLoop limits program text (fuel + 1) machine =
      matchLoop limits program text fuel machine' := by
  rw [matchLoop, h]

/-- An outcome stays with more rounds. -/
lemma matchLoop_add {fuel : ℕ} {execution : Execution}
    (h : matchLoop limits program text fuel machine = some execution) (more : ℕ) :
    matchLoop limits program text (fuel + more) machine = some execution := by
  induction fuel generalizing machine with
  | zero => cases h
  | succ fuel ih =>
    rw [Nat.succ_add, matchLoop]
    rw [matchLoop] at h
    split
    · next hstep =>
      rw [hstep] at h
      exact h
    · next hstep =>
      rw [hstep] at h
      exact ih h

/-- One round more. -/
lemma Arrives.of_step {machine' : Machine} (h : Arrives limits program text config machine')
    (hstep : step limits program text machine = .running machine') :
    Arrives limits program text config machine := by
  have hround : ∀ fuel count, matchLoop limits program text (fuel + (count + 1)) machine =
      matchLoop limits program text (fuel + count) machine' :=
    fun fuel count => matchLoop_of_step hstep (fuel + count)
  rcases h with ⟨count, limit, steps, hlimits, hends⟩ | h
  · exact .inl ⟨count + 1, limit, steps, hlimits, fun fuel => (hround fuel count).trans (hends fuel)⟩
  · cases config with
    | none =>
      obtain ⟨count, steps, hends⟩ := h
      exact .inr ⟨count + 1, steps, fun fuel => (hround fuel count).trans (hends fuel)⟩
    | some config =>
      obtain ⟨count, final, hrelated, hloop⟩ := h
      exact .inr ⟨count + 1, final, hrelated, fun fuel => (hround fuel count).trans (hloop fuel)⟩

/-- The loop arrives wherever the search proceeds to. -/
theorem Proceeds.arrives (h : Proceeds (Move program text) config config')
    (hconfig : config = some (point, choices)) (hrelated : Related program machine point choices) :
    Arrives limits program text config' machine := by
  induction h using Relation.ReflTransGen.head_induction_on generalizing point choices machine with
  | refl =>
    subst hconfig
    exact .inr ⟨0, machine, hrelated, fun _ => rfl⟩
  | head hmove hrest ih =>
    obtain ⟨running, hrunning, hmove⟩ := hmove
    rw [hrunning] at hconfig
    cases hconfig
    have hfollows : Follows program limits _ (step limits program text machine) :=
      hmove.step_follows hrelated
    cases hstep : step limits program text machine with
    | running machine' =>
      rw [hstep] at hfollows
      obtain ⟨point', choices', hnext, hrelated'⟩ := hfollows
      exact (ih hnext hrelated').of_step hstep
    | done execution =>
      rw [hstep] at hfollows
      cases execution with
      | matched => exact hfollows.elim
      | limit limit steps => exact .inl ⟨1, limit, steps, hfollows, endsIn_of_step hstep⟩
      | unmatched steps =>
        -- Nothing is left to search.
        have hnone : ∀ {config}, Proceeds (Move program text) none config → config = none := by
          intro config hproceeds
          rcases Relation.ReflTransGen.cases_head hproceeds with heq | ⟨next, ⟨_, hsome, -⟩, -⟩
          · exact heq.symm
          · cases hsome
        have hfollows : _ = none := hfollows
        rw [hfollows] at hrest
        rw [hnone hrest]
        exact .inr ⟨1, steps, endsIn_of_step hstep⟩

/-! ## The first point -/

/-- The point an attempt starts with. -/
def initialPoint (program : MatcherProgram) (text : List CodeUnit) (start : ℕ) : Point where
  address := 0
  index := alignedStart text start program.unicodeMode
  registers register := if register < program.slots then none else some 0

/-- The place an attempt starts with. -/
def initialPlace (program : MatcherProgram) (text : List CodeUnit) (start : ℕ) : Place where
  index := alignedStart text start program.unicodeMode
  captures _ := none

lemma initialMachine_related (program : MatcherProgram) (text : List CodeUnit) (start : ℕ) :
    Related program (initialMachine program text start) (initialPoint program text start) [] where
  address := rfl
  index := rfl
  holds register hlt := by
    simp only [initialMachine, initialPoint, if_pos hlt]
    show some (if register < program.slots then unset else 0) =
      some (encode (if register < program.slots then none else some 0))
    split <;> rfl
  stacked := .nil

lemma initialPoint_at (program : MatcherProgram) (text : List CodeUnit) (start : ℕ) :
    At program.slots 0 (initialPlace program text start) (initialPoint program text start) where
  address := rfl
  index := rfl
  captures _ hslot := if_pos hslot

lemma alignedStart_le (text : List CodeUnit) (start : ℕ) (unicodeMode : Bool) :
    alignedStart text start unicodeMode ≤ start := by
  unfold alignedStart
  split
  · exact Nat.le_refl _
  · split <;> omega

/-! ## Attempts -/

/-- The captures a place holds, as an attempt returns them. -/
def Place.spans (place : Place) (program : MatcherProgram) : List (Option Span) :=
  (List.range (program.captures.length + 1)).map fun index =>
    match place.captures (2 * index), place.captures (2 * index + 1) with
    | some start, some finish => some ⟨start, finish⟩
    | _, _ => none

/-- What an attempt finds, from the results of its code. -/
def Execution.Finds (program : MatcherProgram) (results : List Place) : Execution → Prop
  | .matched captures _ => (results.head?.map fun place => place.spans program) = some captures
  | .unmatched _ => results = []
  | .limit _ _ => False

section
variable {place : Place} {last : ℕ} (hrelated : Related program machine point choices)
  (hat : At program.slots last place point) (hslots : program.slots ≤ program.registers)
include hrelated hat hslots

lemma collectCapture_eq {index : ℕ} (hindex : index < program.captures.length + 1) :
    collectCapture machine index = match place.captures (2 * index),
        place.captures (2 * index + 1) with
      | some start, some finish => some ⟨start, finish⟩
      | _, _ => none := by
  have hbound : 2 * index + 1 < program.slots := by
    unfold MatcherProgram.slots
    omega
  unfold collectCapture
  rw [hrelated.read (by omega), hrelated.read (by omega), hat.captures _ hbound,
    hat.captures (2 * index) (by omega)]
  cases place.captures (2 * index) with
  | none => rfl
  | some start =>
    cases place.captures (2 * index + 1) with
    | none => simp
    | some finish =>
      rw [encode_some, encode_some, if_neg]
      · rfl
      · unfold unset
        omega

/-- A machine at the accept of its program matches with its captures. -/
lemma accepts_endsIn (haccepts : program.instructions[last]? = some .accept) :
    (∃ limit steps, limits ≠ .removed ∧
      EndsIn limits program text machine 1 (.limit limit steps)) ∨
    ∃ steps, EndsIn limits program text machine 1 (.matched (place.spans program) steps) := by
  have haddress : program.instructions[machine.address]? = some .accept := by
    rw [hrelated.address, hat.address, haccepts]
  by_cases hlimit : limitAt limits.steps machine.steps = true
  · refine .inl ⟨.steps, machine.steps, ?_, endsIn_of_step ?_⟩
    · intro heq
      subst heq
      cases hlimit
    · rw [step, if_pos hlimit]
  · refine .inr ⟨machine.steps + 1, endsIn_of_step ?_⟩
    rw [step, if_neg hlimit]
    simp only [haddress, execute]
    congr 2
    apply List.map_congr_left
    intro index hmem
    rw [List.mem_range] at hmem
    have hrounded : Related program { machine with steps := machine.steps + 1 } point choices :=
      { address := hrelated.address, index := hrelated.index, holds := hrelated.holds,
        stacked := hrelated.stacked }
    exact collectCapture_eq hrounded hat hslots hmem

end

variable {code : Code} {last failAt start : ℕ}

/-- The search of the whole code of a program, from the point an attempt starts with. -/
theorem MatcherProgram.RunsCode.enumerates (h : program.RunsCode code last failAt)
    (hstart : start ≤ text.length) :
    Enumerates (OrderedMove program.slots program text)
      (Shows program.slots program.slots program.registers last
        (initialPoint program text start).registers) []
      ((Code.capture 0 code).results (program.reader text) false
        (initialPlace program text start))
      (some (initialPoint program text start, [])) := by
  apply (Code.capture 0 code).enumerates h.lays h.form (Nat.le_refl _) (Nat.le_refl _) h.fails
  · exact initialPoint_at program text start
  · exact fun slot _ => rfl
  · exact fun index start finish _ hnone _ => nomatch hnone
  · exact Nat.le_trans (alignedStart_le text start _) hstart

/-- An attempt ends with the first result of its code, or at a limit. -/
theorem MatcherProgram.RunsCode.matchLoop_ends (h : program.RunsCode code last failAt)
    (hstart : start ≤ text.length) :
    ∃ count execution,
      EndsIn limits program text (initialMachine program text start) count execution ∧
      ((∃ limit steps, limits ≠ .removed ∧ execution = .limit limit steps) ∨
        execution.Finds program ((Code.capture 0 code).results (program.reader text) false
          (initialPlace program text start))) := by
  have hrelated := initialMachine_related program text start
  have hmoves : ∀ {config}, Proceeds (OrderedMove program.slots program text)
      (some (initialPoint program text start, [])) config →
      Arrives limits program text config (initialMachine program text start) := by
    intro config hproceeds
    exact Proceeds.arrives (hproceeds.mono fun _ _ hmove => hmove.1) rfl hrelated
  rcases (h.enumerates hstart).reaches_first with ⟨hnil, hproceeds⟩ |
    ⟨place, rest, state, choices, hresults, hshows, hproceeds⟩
  · rcases hmoves hproceeds with ⟨count, limit, steps, hlimits, hends⟩ | ⟨count, steps, hends⟩
    · exact ⟨count, _, hends, .inl ⟨limit, steps, hlimits, rfl⟩⟩
    · exact ⟨count, _, hends, .inr hnil⟩
  · rcases hmoves hproceeds with ⟨count, limit, steps, hlimits, hends⟩ |
      ⟨count, machine, hmachine, hloop⟩
    · exact ⟨count, _, hends, .inl ⟨limit, steps, hlimits, rfl⟩⟩
    · have hslots : program.slots ≤ program.registers := h.lays.low_le
      have hround : ∀ execution, EndsIn limits program text machine 1 execution →
          EndsIn limits program text (initialMachine program text start) (1 + count)
            execution := by
        intro execution hends fuel
        rw [← Nat.add_assoc, hloop, hends]
      have haccepts : (∃ limit steps, limits ≠ .removed ∧
          EndsIn limits program text machine 1 (.limit limit steps)) ∨
          ∃ steps, EndsIn limits program text machine 1 (.matched (place.spans program) steps) :=
        accepts_endsIn hmachine hshows.toAt hslots h.accepts
      rcases haccepts with ⟨limit, steps, hlimits, hends⟩ | ⟨steps, hends⟩
      · exact ⟨1 + count, _, hround _ hends, .inl ⟨limit, steps, hlimits, rfl⟩⟩
      · apply Exists.intro (1 + count)
        refine ⟨_, hround _ hends, .inr ?_⟩
        rw [hresults]
        rfl

end

/-! ## Attempts end

With the limits removed, the loop goes through the results of the code, which are finitely many: an
iteration of a repetition that consumed nothing is no result, so that only those of the minimum and
those that consume are on the way.
-/

variable {pattern : Pattern} {matcherLimits : MatcherLimits} {unicodeData : UnicodeData}
variable {program : MatcherProgram} {text : List CodeUnit} {machine : Machine}

/-- A loop that ends has no infinite run. -/
lemma EndsIn.no_run {limits : ExecutionLimits} {count : ℕ} {execution : Execution}
    (h : EndsIn limits program text machine count execution) :
    ¬∃ run : ℕ → Machine, run 0 = machine ∧
      ∀ round, step limits program text (run round) = .running (run (round + 1)) := by
  rintro ⟨run, hfirst, hrun⟩
  -- Whatever the fuel, a run that goes on has used it up.
  have hnone : ∀ fuel round, matchLoop limits program text fuel (run round) = none := by
    intro fuel
    induction fuel with
    | zero => exact fun round => rfl
    | succ fuel ih =>
      intro round
      rw [matchLoop_of_step (hrun round), ih]
  have hend := h 0
  rw [← hfirst, hnone] at hend
  cases hend

/-- The scan reaches no limit that is removed. -/
lemma scanLoop_removed (unicodeMode : Bool) (set : MatcherSet) (fuel index steps : ℕ)
    (limit : ExecutionLimit) (count : ℕ) :
    scanLoop .removed text unicodeMode set fuel index steps ≠ .limit limit count := by
  induction fuel generalizing index steps with
  | zero => exact nofun
  | succ fuel ih =>
    rw [scanLoop, if_neg (by exact nofun)]
    split
    · split
      · split
        · exact nofun
        · exact ih _ _
      · exact nofun
    · split <;> exact nofun

lemma scanAnchoredRepeat_removed (start : ℕ) (set : MatcherSet) (limit : ExecutionLimit)
    (count : ℕ) : scanAnchoredRepeat .removed program text start set ≠ .limit limit count := by
  rw [scanAnchoredRepeat, if_neg (by exact nofun)]
  split
  · exact nofun
  · exact scanLoop_removed program.unicodeMode set _ _ _ limit count

/-- An attempt of a built program ends with the limits removed, and its loop has no infinite
run. -/
theorem matchRegExpMatcher_terminates (hpattern : pattern.WellFormed)
    (hbuild : buildRegExpMatcher pattern matcherLimits unicodeData = .ok program)
    (text : List CodeUnit) :
    (∀ start : ℤ, ∃ count execution, (∀ limit steps, execution ≠ .limit limit steps) ∧
      ∀ fuel, matchRegExpMatcher ⟨.removed, program, start, text⟩ (fuel + count) =
        some execution) ∧
    ∀ start ≤ text.length, ¬∃ run : ℕ → Machine, run 0 = initialMachine program text start ∧
      ∀ round, step .removed program text (run round) = .running (run (round + 1)) := by
  obtain ⟨code, hcompiled⟩ := buildRegExpMatcher_compiled hpattern hbuild
  obtain ⟨last, failAt, hruns⟩ := hcompiled.runs
  have hloop : ∀ start ≤ text.length, ∃ count execution,
      (∀ limit steps, execution ≠ .limit limit steps) ∧
      EndsIn .removed program text (initialMachine program text start) count execution := by
    intro start hstart
    obtain ⟨count, execution, hends, hlimit | hfinds⟩ :=
      hruns.matchLoop_ends hstart
    · obtain ⟨-, -, hne, -⟩ := hlimit
      exact absurd rfl hne
    · refine ⟨count, execution, ?_, hends⟩
      rintro limit steps rfl
      exact hfinds
  constructor
  · intro start
    by_cases hrange : start < 0 ∨ start > text.length
    · refine ⟨0, .unmatched 0, nofun, fun fuel => ?_⟩
      rw [matchRegExpMatcher, if_pos hrange]
    · cases hset : anchoredRepeatSet program with
      | some set =>
        refine ⟨0, scanAnchoredRepeat .removed program text start.toNat set,
          scanAnchoredRepeat_removed start.toNat set, fun fuel => ?_⟩
        rw [matchRegExpMatcher, if_neg hrange]
        simp only [hset]
      | none =>
        obtain ⟨count, execution, hnever, hends⟩ := hloop start.toNat (by omega)
        refine ⟨count, execution, hnever, fun fuel => ?_⟩
        rw [matchRegExpMatcher, if_neg hrange]
        simp only [hset]
        exact hends fuel
  · intro start hstart
    obtain ⟨count, execution, -, hends⟩ := hloop start hstart
    exact hends.no_run

/-- The pattern `(a*)*` without flags. -/
def nestedStars : Pattern where
  body := .mk [.mk [.quantified (.capturingGroup (.mk [.mk
    [.quantified (.character 0x61 ⟨1, 2⟩) ⟨true, none, 0⟩ ⟨1, 3⟩] ⟨1, 3⟩]) 1 ⟨0, 4⟩)
    ⟨true, none, 0⟩ ⟨0, 5⟩] ⟨0, 5⟩]
  captures := [⟨1, none, ⟨0, 4⟩⟩]
  flags := ⟨false, false, false, false, false, false, "", false, false⟩
  groupNames := []
  source := [0x28, 0x61, 0x2a, 0x29, 0x2a]

/-- It is well formed and built, and its program ends on a text. -/
theorem matchRegExpMatcher_terminates_nestedStars :
    ∃ program, buildRegExpMatcher nestedStars ⟨100, 100⟩ ⟨none, none, none, none, none⟩ =
      .ok program ∧ ∃ count execution, ∀ fuel,
        matchRegExpMatcher ⟨.removed, program, 0, [0x61, 0x62]⟩ (fuel + count) =
          some execution := by
  have hpattern : nestedStars.WellFormed := ⟨by decide, by decide⟩
  have hok : (buildRegExpMatcher nestedStars ⟨100, 100⟩ ⟨none, none, none, none, none⟩).isOk =
      true := by decide +kernel
  cases hbuild : buildRegExpMatcher nestedStars ⟨100, 100⟩ ⟨none, none, none, none, none⟩ with
  | error error =>
    rw [hbuild] at hok
    cases hok
  | ok program =>
    obtain ⟨count, execution, -, hends⟩ :=
      (matchRegExpMatcher_terminates hpattern hbuild [0x61, 0x62]).1 0
    exact ⟨program, rfl, count, execution, hends⟩

end Oseo.RegExpMatcher
