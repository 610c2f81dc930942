import Oseo.Library.Programs
import Oseo.RegExpParsing.PatternParser

/-!
# Repeated group names

The paths a parse records place every group in the disjunctions around it. Two groups can both
participate in a match unless a disjunction holds them in different alternatives, and the scan of
sorted neighbours reports a name exactly when two of its groups can (`duplicateNames_reported`).
-/

namespace Oseo.RegExpParsing

open List
open Oseo.RegExpMatcher
open Oseo.Library (Ensures)

variable {first second third path : List AlternativePath} {groups ordered : List NamedGroupRecord}
  {name : String} {state state' : ParseState} {context : ParseContext}

/-- A disjunction holds the two places in different alternatives. -/
def Exclusive (first second : List AlternativePath) : Prop :=
  ∃ left ∈ first, ∃ right ∈ second,
    left.disjunction = right.disjunction ∧ left.alternative ≠ right.alternative

lemma Exclusive.symm (h : Exclusive first second) : Exclusive second first := by
  obtain ⟨left, hleft, right, hright, hsame, hdiffer⟩ := h
  exact ⟨right, hright, left, hleft, hsame.symm, Ne.symm hdiffer⟩

/-! ## Neighbours -/

/-- The earlier one of two paths that diverge at a disjunction. -/
def Precedes : (first second : List AlternativePath) → Prop
  | left :: first, right :: second =>
    left.disjunction = right.disjunction ∧ (left.alternative < right.alternative ∨
      left.alternative = right.alternative ∧ Precedes first second)
  | _, _ => False

lemma precedes_trans (h : Precedes first second) (h' : Precedes second third) :
    Precedes first third := by
  induction first generalizing second third with
  | nil => cases h
  | cons left first ih =>
    cases second with
    | nil => cases h
    | cons middle second =>
      cases third with
      | nil => cases h'
      | cons right third =>
        obtain ⟨hsame, hless⟩ := h
        obtain ⟨hsame', hless'⟩ := h'
        refine ⟨hsame.trans hsame', ?_⟩
        rcases hless with hlt | ⟨heq, hrest⟩
        · left
          omega
        · rcases hless' with hlt' | ⟨heq', hrest'⟩
          · left
            omega
          · exact .inr ⟨heq.trans heq', ih hrest hrest'⟩

/-- Ordered paths that cannot both participate diverge at a disjunction. -/
lemma precedes_of_ordered (hordered : comparePaths first second ≤ 0)
    (hnot : mightBothParticipate first second = false) : Precedes first second := by
  induction first generalizing second with
  | nil => cases hnot
  | cons left first ih =>
    cases second with
    | nil => cases hnot
    | cons right second =>
      rw [mightBothParticipate] at hnot
      rw [comparePaths] at hordered
      by_cases hsame : left.disjunction = right.disjunction
      · rw [if_neg (not_not.mpr hsame)] at hnot hordered
        refine ⟨hsame, ?_⟩
        by_cases halternative : left.alternative = right.alternative
        · rw [if_neg (not_not.mpr halternative)] at hnot hordered
          exact .inr ⟨halternative, ih hordered hnot⟩
        · rw [if_pos halternative] at hordered
          left
          omega
      · rw [if_pos hsame] at hnot
        cases hnot

lemma precedes_exclusive (h : Precedes first second) : Exclusive first second := by
  induction first generalizing second with
  | nil => cases h
  | cons left first ih =>
    cases second with
    | nil => cases h
    | cons right second =>
      obtain ⟨hsame, hless⟩ := h
      rcases hless with hlt | ⟨-, hrest⟩
      · exact ⟨left, mem_cons_self, right, mem_cons_self, hsame, hlt.ne⟩
      · obtain ⟨left', hleft, right', hright, hfound⟩ := ih hrest
        exact ⟨left', mem_cons_of_mem _ hleft, right', mem_cons_of_mem _ hright, hfound⟩

/-! ## The order of paths -/

lemma comparePaths_swap (first second : List AlternativePath) :
    comparePaths first second = -comparePaths second first := by
  induction first generalizing second with
  | nil =>
    cases second with
    | nil => rfl
    | cons right second =>
      show ((0 : ℕ) : ℤ) - _ = -(_ - ((0 : ℕ) : ℤ))
      omega
  | cons left first ih =>
    cases second with
    | nil =>
      show _ - ((0 : ℕ) : ℤ) = -(((0 : ℕ) : ℤ) - _)
      omega
    | cons right second =>
      rw [comparePaths, comparePaths, ih]
      split_ifs <;> omega

lemma comparePaths_trans (h : comparePaths first second ≤ 0) (h' : comparePaths second third ≤ 0) :
    comparePaths first third ≤ 0 := by
  induction first generalizing second third with
  | nil =>
    cases third with
    | nil => exact Int.le_refl 0
    | cons right third =>
      show ((0 : ℕ) : ℤ) - _ ≤ 0
      omega
  | cons left first ih =>
    cases second with
    | nil =>
      change ((first.length + 1 : ℕ) : ℤ) - ((0 : ℕ) : ℤ) ≤ 0 at h
      omega
    | cons middle second =>
      cases third with
      | nil =>
        change ((second.length + 1 : ℕ) : ℤ) - ((0 : ℕ) : ℤ) ≤ 0 at h'
        omega
      | cons right third =>
        have hrest := @ih second third
        rw [comparePaths] at h h' ⊢
        split_ifs at h h' ⊢ <;> omega

/-- A sorted scan that finds no neighbours that can both participate has found no pair. -/
lemma neighbourErrors_nil (hsorted : ordered.Pairwise fun first second =>
    comparePaths first.path second.path ≤ 0) (hnone : neighbourErrors ordered = []) :
    ordered.Pairwise fun first second => Precedes first.path second.path := by
  have htrans : IsTrans NamedGroupRecord fun first second => Precedes first.path second.path :=
    ⟨fun _ _ _ => precedes_trans⟩
  apply List.IsChain.pairwise
  induction ordered with
  | nil => exact .nil
  | cons earlier ordered ih =>
    cases ordered with
    | nil => exact .singleton _
    | cons later ordered =>
      rw [neighbourErrors] at hnone
      obtain ⟨hhead, htail⟩ := pairwise_cons.mp hsorted
      split at hnone
      · cases hnone
      · next hnot =>
        rw [Bool.not_eq_true] at hnot
        exact .cons_cons (precedes_of_ordered (hhead later mem_cons_self) hnot) (ih htail hnone)

/-! ## Recorded paths -/

variable {opened : ℕ → List AlternativePath}

/-- Every disjunction of the path was opened where the path says. -/
def Within (opened : ℕ → List AlternativePath) (path : List AlternativePath) : Prop :=
  ∀ before place after, path = before ++ place :: after → before = opened place.disjunction

lemma exclusive_of_not (h : mightBothParticipate first second = false) : Exclusive first second := by
  induction first generalizing second with
  | nil => cases h
  | cons left first ih =>
    cases second with
    | nil => cases h
    | cons right second =>
      rw [mightBothParticipate] at h
      split at h
      · cases h
      · next hsame =>
        rw [not_not] at hsame
        split at h
        · next hdiffer => exact ⟨left, mem_cons_self, right, mem_cons_self, hsame, hdiffer⟩
        · obtain ⟨left', hleft, right', hright, hfound⟩ := ih h
          exact ⟨left', mem_cons_of_mem _ hleft, right', mem_cons_of_mem _ hright, hfound⟩

lemma mightBothParticipate_append (common first second : List AlternativePath) :
    mightBothParticipate (common ++ first) (common ++ second) =
      mightBothParticipate first second := by
  induction common with
  | nil => rfl
  | cons place common ih =>
    rw [cons_append, cons_append, mightBothParticipate, if_neg (not_not.mpr rfl),
      if_neg (not_not.mpr rfl), ih]

/-- The comparison of paths finds the disjunction that tells them apart. -/
lemma mightBothParticipate_eq_false_iff (h : Within opened first) (h' : Within opened second) :
    mightBothParticipate first second = false ↔ Exclusive first second := by
  refine ⟨exclusive_of_not, ?_⟩
  rintro ⟨left, hleft, right, hright, hsame, hdiffer⟩
  obtain ⟨before, after, hfirst⟩ := append_of_mem hleft
  obtain ⟨before', after', hsecond⟩ := append_of_mem hright
  -- both paths reach the disjunction on the same way
  have hbefore := h before left after hfirst
  have hbefore' := h' before' right after' hsecond
  rw [hfirst, hsecond, hbefore, hbefore', hsame, mightBothParticipate_append, mightBothParticipate,
    if_neg (not_not.mpr hsame), if_pos hdiffer]

/-! ## Names -/

lemma orderedGroups_sorted (named : List NamedGroupRecord) :
    (orderedGroups named).Pairwise fun first second => comparePaths first.path second.path ≤ 0 := by
  have htotal : Std.Total fun first second : NamedGroupRecord =>
      comparePaths first.path second.path ≤ 0 := by
    constructor
    intro first second
    rw [comparePaths_swap second.path]
    omega
  have htrans : IsTrans NamedGroupRecord fun first second =>
      comparePaths first.path second.path ≤ 0 := ⟨fun _ _ _ => comparePaths_trans⟩
  exact pairwise_insertionSort _ _

lemma neighbourErrors_of_pairwise (h : ordered.Pairwise fun first second =>
    mightBothParticipate first.path second.path = false) : neighbourErrors ordered = [] := by
  induction ordered with
  | nil => rfl
  | cons earlier ordered ih =>
    cases ordered with
    | nil => rfl
    | cons later ordered =>
      obtain ⟨hhead, htail⟩ := pairwise_cons.mp h
      rw [neighbourErrors, hhead later mem_cons_self, if_neg Bool.false_ne_true, ih htail]

/-- No error about a name: no two of its groups can both participate. -/
lemma nameErrors_nil_iff (h : ∀ group ∈ groups, Within opened group.path) :
    nameErrors groups name = [] ↔ (groups.filter fun group => group.name = name).Pairwise
      fun first second => Exclusive first.path second.path := by
  have hperm := perm_insertionSort (fun first second : NamedGroupRecord =>
    comparePaths first.path second.path ≤ 0) (groups.filter fun group => group.name = name)
  have hsymm : ∀ {first second : NamedGroupRecord}, Exclusive first.path second.path →
      Exclusive second.path first.path := fun hexclusive => hexclusive.symm
  unfold nameErrors
  dsimp only
  split
  · next hshort =>
    refine ⟨fun _ => ?_, fun _ => rfl⟩
    generalize (groups.filter fun group => group.name = name) = named at hshort ⊢
    match named, hshort with
    | [], _ => exact .nil
    | [_], _ => exact pairwise_singleton _ _
    | _ :: _ :: _, hshort =>
      rw [length_cons, length_cons] at hshort
      omega
  · constructor
    · intro hnone
      have hprecedes := neighbourErrors_nil (orderedGroups_sorted _) hnone
      exact (hperm.pairwise_iff hsymm).mp (hprecedes.imp precedes_exclusive)
    · intro hpairs
      apply neighbourErrors_of_pairwise
      have hsorted := (hperm.pairwise_iff hsymm).mpr hpairs
      apply hsorted.imp_of_mem
      intro first second hfirst hsecond hexclusive
      have hmem := fun group hmem => h group (mem_of_mem_filter (hperm.mem_iff.mp hmem))
      exact (mightBothParticipate_eq_false_iff (hmem _ hfirst) (hmem _ hsecond)).mpr hexclusive

/-- A name with errors is that of a group. -/
lemma nameErrors_name (h : nameErrors groups name ≠ []) : name ∈ groups.map (·.name) := by
  by_contra hnot
  apply h
  have hnone : (groups.filter fun group => group.name = name) = [] := by
    rw [filter_eq_nil_iff]
    intro group hmem hname
    rw [decide_eq_true_iff] at hname
    rw [← hname] at hnot
    exact hnot (mem_map_of_mem hmem)
  unfold nameErrors
  rw [hnone]
  rfl

lemma mem_neighbourErrors {error : PatternError} (h : error ∈ neighbourErrors ordered) :
    ∃ group ∈ ordered, error.span = group.span := by
  induction ordered with
  | nil => cases h
  | cons earlier ordered ih =>
    cases ordered with
    | nil => cases h
    | cons later ordered =>
      have hrest : error ∈ neighbourErrors (later :: ordered) →
          ∃ group ∈ earlier :: later :: ordered, error.span = group.span := by
        intro hmem
        obtain ⟨group, hgroup, hspan⟩ := ih hmem
        exact ⟨group, mem_cons_of_mem _ hgroup, hspan⟩
      rw [neighbourErrors] at h
      split at h
      · rcases mem_cons.mp h with rfl | hmem
        · unfold duplicateError
          split
          · exact ⟨later, mem_cons_of_mem _ mem_cons_self, rfl⟩
          · exact ⟨earlier, mem_cons_self, rfl⟩
        · exact hrest hmem
      · exact hrest h

/-- An error about a name is located at one of its groups. -/
lemma nameErrors_span {error : PatternError} (h : error ∈ nameErrors groups name) :
    ∃ group ∈ groups, group.name = name ∧ error.span = group.span := by
  unfold nameErrors at h
  dsimp only at h
  split at h
  · cases h
  · obtain ⟨group, hgroup, hspan⟩ := mem_neighbourErrors h
    have hmem := (mem_insertionSort _).mp hgroup
    rw [mem_filter, decide_eq_true_iff] at hmem
    exact ⟨group, hmem.1, hmem.2, hspan⟩

/-- Two of the groups of a name, at different places of the list, can both participate. -/
def Repeats (groups : List NamedGroupRecord) (name : String) : Prop :=
  ∃ i j : ℕ, ∃ hi : i < groups.length, ∃ hj : j < groups.length, i ≠ j ∧
    groups[i].name = name ∧ groups[j].name = name ∧ ¬Exclusive groups[i].path groups[j].path

lemma nameErrors_iff (h : ∀ group ∈ groups, Within opened group.path) :
    nameErrors groups name ≠ [] ↔ Repeats groups name := by
  rw [ne_eq, nameErrors_nil_iff h, pairwise_filter, pairwise_iff_getElem]
  constructor
  · intro hnot
    push Not at hnot
    obtain ⟨i, j, hi, hj, hlt, hname, hname', hboth⟩ := hnot
    rw [decide_eq_true_iff] at hname hname'
    exact ⟨i, j, hi, hj, hlt.ne, hname, hname', hboth⟩
  · rintro ⟨i, j, hi, hj, hne, hname, hname', hboth⟩ hall
    rcases Nat.lt_or_gt_of_ne hne with hlt | hgt
    · exact hboth (hall i j hi hj hlt (decide_eq_true hname) (decide_eq_true hname'))
    · exact hboth (hall j i hj hi hgt (decide_eq_true hname') (decide_eq_true hname)).symm

/-! ## Runs -/

/-- The paths of a state, each opened where it says. -/
structure Recorded (opened : ℕ → List AlternativePath) (state : ParseState) : Prop where
  path : Within opened state.path
  groups : ∀ group ∈ state.namedGroups, Within opened group.path
  pathBelow : ∀ place ∈ state.path, place.disjunction < state.disjunctionCount
  groupsBelow : ∀ group ∈ state.namedGroups, ∀ place ∈ group.path,
    place.disjunction < state.disjunctionCount

/-- A later state that is back at the same path. -/
def Continues (opened : ℕ → List AlternativePath) (state state' : ParseState) : Prop :=
  ∃ opened', Recorded opened' state' ∧
    (∀ disjunction < state.disjunctionCount, opened' disjunction = opened disjunction) ∧
    state.disjunctionCount ≤ state'.disjunctionCount ∧ state'.path = state.path

/-- A part of the parse that records paths as it should. -/
def Records {α : Type} (run : Parse α) : Prop :=
  ∀ opened state, Recorded opened state → Ensures run state fun _ state' =>
    Continues opened state state'

/-- A state with the same paths. -/
def SamePaths (state state' : ParseState) : Prop :=
  state'.path = state.path ∧ state'.namedGroups = state.namedGroups ∧
    state'.disjunctionCount = state.disjunctionCount

lemma Recorded.of_same (h : Recorded opened state) (hsame : SamePaths state state') :
    Recorded opened state' := by
  obtain ⟨hpath, hgroups, hcount⟩ := hsame
  constructor
  · rw [hpath]
    exact h.path
  · rw [hgroups]
    exact h.groups
  · rw [hpath, hcount]
    exact h.pathBelow
  · rw [hgroups, hcount]
    exact h.groupsBelow

lemma Continues.of_same (h : Recorded opened state) (hsame : SamePaths state state') :
    Continues opened state state' :=
  ⟨opened, h.of_same hsame, fun _ _ => rfl, hsame.2.2.ge, hsame.1⟩

section Rules

variable {α β : Type} {run : Parse α}

lemma Records.bind {next : α → Parse β} (h : Records run) (hnext : ∀ value, Records (next value)) :
    Records (run >>= next) := by
  intro opened state hstate
  apply Ensures.bind (h opened state hstate)
  rintro value state' ⟨opened', hstate', hagrees, hcount, hpath⟩
  apply (hnext value opened' state' hstate').mono
  rintro _ state'' ⟨opened'', hstate'', hagrees', hcount', hpath'⟩
  refine ⟨opened'', hstate'', ?_, hcount.trans hcount', hpath'.trans hpath⟩
  intro disjunction hlt
  rw [hagrees' disjunction (hlt.trans_le hcount), hagrees disjunction hlt]

/-- A part that changes no path. -/
lemma Records.of_same (h : ∀ state, Ensures run state fun _ state' => SamePaths state state') :
    Records run :=
  fun _ state hstate => (h state).mono fun _ _ hsame => .of_same hstate hsame

lemma Records.pure (value : α) : Records (Pure.pure value : Parse α) :=
  .of_same fun _ => .pure ⟨rfl, rfl, rfl⟩

lemma Records.fail (kind : ErrorKind) (message : String) (location : Span) :
    Records (fail kind message location : Parse α) :=
  .of_same fun _ => .throw _

lemma Records.ite {condition : Prop} [Decidable condition] {run' : Parse α} (h : Records run)
    (h' : Records run') : Records (if condition then run else run') := by
  split
  · exact h
  · exact h'

/-- What only moves the cursor. -/
lemma ensures_reading (read : Read α) (state : ParseState) :
    Ensures (reading read) state fun _ state' => ∃ index, state' = { state with index := index } := by
  constructor
  intro value state' hrun
  change (do let result ← read state.index; _) = _ at hrun
  cases hread : read state.index with
  | error error =>
    rw [hread] at hrun
    cases hrun
  | ok result =>
    rw [hread] at hrun
    cases hrun
    exact ⟨result.2, rfl⟩

lemma Records.reading (read : Read α) : Records (reading read) := by
  apply Records.of_same
  intro state
  apply (ensures_reading read state).mono
  rintro _ _ ⟨index, rfl⟩
  exact ⟨rfl, rfl, rfl⟩

end Rules

/-! ## Productions -/

section Productions

variable {budget start rounds : ℕ} {nested : Parse Disjunction}

lemma Records.modify_bind {α : Type} {f : ParseState → ParseState} {next : PUnit → Parse α}
    (hsame : ∀ state, SamePaths state (f state)) (h : Records (next ⟨⟩)) :
    Records (modify f >>= next) := by
  intro opened state hstate
  apply Ensures.modify_bind
  apply (h opened (f state) (hstate.of_same (hsame state))).mono
  rintro _ state' ⟨opened', hstate', hagrees, hcount, hpath⟩
  obtain ⟨hpath', -, hcount'⟩ := hsame state
  rw [hcount'] at hagrees hcount
  exact ⟨opened', hstate', hagrees, hcount, hpath.trans hpath'⟩

lemma parseAtomEscape_records : Records (parseAtomEscape context start) := by
  apply Records.bind (.reading _)
  intro character
  apply Records.ite
  · unfold parseDecimalEscape
    apply Records.bind (.reading _)
    intro digitStart
    apply Records.bind (.reading _)
    intro digits
    apply Records.bind (.reading _)
    intro location
    apply Records.ite
    · apply Records.bind (.reading _)
      intro _
      exact .reading _
    · apply Records.modify_bind
      · intro _
        exact ⟨rfl, rfl, rfl⟩
      · exact .pure _
  · apply Records.ite
    · unfold parseNamedEscape
      apply Records.bind (.reading _)
      intro _
      apply Records.ite
      · apply Records.bind (.reading _)
        intro location
        apply Records.ite
        · exact .pure _
        · exact .fail _ _ _
      · apply Records.bind (.reading _)
        intro name
        apply Records.bind (.reading _)
        intro location
        apply Records.modify_bind
        · intro _
          exact ⟨rfl, rfl, rfl⟩
        · exact .pure _
    · exact .reading _

/-- A group is recorded with the path it is declared at. -/
lemma declareCapture_records (name : Option String) : Records (declareCapture context start name) := by
  intro opened state hstate
  apply Ensures.get_bind
  apply Ensures.bind (ensures_reading _ _)
  rintro location _ ⟨index, rfl⟩
  apply Ensures.check
  intro _
  apply Ensures.set_bind
  apply Ensures.pure
  refine ⟨opened, ?_, fun _ _ => rfl, Nat.le_refl _, rfl⟩
  cases name with
  | none => exact ⟨hstate.path, hstate.groups, hstate.pathBelow, hstate.groupsBelow⟩
  | some name =>
    refine ⟨hstate.path, ?_, hstate.pathBelow, ?_⟩
    · intro group hmem
      rcases mem_append.mp hmem with hmem | hmem
      · exact hstate.groups group hmem
      · rw [mem_singleton.mp hmem]
        exact hstate.path
    · intro group hmem
      rcases mem_append.mp hmem with hmem | hmem
      · exact hstate.groupsBelow group hmem
      · rw [mem_singleton.mp hmem]
        exact hstate.pathBelow

variable (hnested : Records nested)

include hnested

lemma parseGroupBody_records : Records (parseGroupBody context nested start) := by
  apply Records.bind hnested
  intro body
  apply Records.bind (.reading _)
  intro _
  apply Records.bind (.reading _)
  intro span
  exact .pure _

lemma parseCapturingGroup_records (name : Option String) :
    Records (parseCapturingGroup context nested start name) := by
  apply Records.bind (declareCapture_records name)
  intro capture
  apply Records.bind (parseGroupBody_records hnested)
  rintro ⟨body, span⟩
  exact .pure _

lemma parseGroup_records : Records (parseGroup context nested) := by
  apply Records.bind (.reading _)
  intro start
  apply Records.bind (.reading _)
  intro _
  apply Records.bind (.reading _)
  intro question
  apply Records.ite
  · apply Records.bind (.reading _)
    intro colon
    apply Records.ite
    · apply Records.bind (parseGroupBody_records hnested)
      rintro ⟨body, span⟩
      exact .pure _
    · apply Records.bind (.reading _)
      intro character
      apply Records.ite
      · apply Records.bind (.reading _)
        intro name
        exact parseCapturingGroup_records hnested _
      · apply Records.bind (.reading _)
        rintro ⟨enabled, disabled⟩
        apply Records.bind (parseGroupBody_records hnested)
        rintro ⟨body, span⟩
        exact .pure _
  · exact parseCapturingGroup_records hnested _

lemma parseAtom_records : Records (parseAtom context budget nested) := by
  apply Records.bind (.reading _)
  intro start
  apply Records.bind (.reading _)
  intro character
  apply Records.ite
  · apply Records.bind (.reading _)
    intro _
    apply Records.bind (.reading _)
    intro span
    exact .pure _
  · apply Records.ite (parseGroup_records hnested)
    apply Records.ite (.reading _)
    apply Records.ite
    · apply Records.bind (.reading _)
      intro _
      exact parseAtomEscape_records
    · exact .reading _

lemma parseLookaround_records : Records (parseLookaround context nested) := by
  apply Records.bind (.reading _)
  intro start
  apply Records.bind (.reading _)
  intro introducer
  cases introducer with
  | none => exact .pure _
  | some introducer =>
    apply Records.bind (.reading _)
    intro _
    apply Records.bind (parseGroupBody_records hnested)
    rintro ⟨body, span⟩
    exact .pure _

lemma parseTerm_records : Records (parseTerm context budget nested) := by
  apply Records.bind (.reading _)
  intro start
  apply Records.bind (parseLookaround_records hnested)
  intro lookaround
  cases lookaround with
  | some lookaround => exact .ite (.reading _) (.reading _)
  | none =>
    apply Records.bind (.reading _)
    intro assertion
    cases assertion with
    | some assertion =>
      apply Records.bind (.reading _)
      intro span
      exact .reading _
    | none =>
      apply Records.bind (parseAtom_records hnested)
      intro atom
      exact .reading _

lemma parseTerms_records (terms : List Term) :
    Records (parseTerms context budget nested rounds terms) := by
  induction rounds generalizing terms with
  | zero => exact .pure _
  | succ rounds ih =>
    rw [parseTerms]
    apply Records.bind (.reading _)
    intro character
    apply Records.bind (.reading _)
    intro atEnd
    apply Records.ite (.pure _)
    apply Records.bind (parseTerm_records hnested)
    intro term
    exact ih _

lemma parseAlternative_records : Records (parseAlternative context budget nested) := by
  apply Records.bind (.reading _)
  intro start
  apply Records.bind (.reading _)
  intro rounds
  apply Records.bind (parseTerms_records hnested [])
  intro terms
  apply Records.bind (.reading _)
  intro span
  exact .pure _

omit hnested

lemma within_snoc {place : AlternativePath} (h : Within opened path)
    (hplace : opened place.disjunction = path) : Within opened (path ++ [place]) := by
  intro before other after hsplit
  rcases eq_nil_or_concat after with rfl | ⟨after, last, rfl⟩
  · obtain ⟨rfl, hsame⟩ := append_inj' hsplit rfl
    rw [← head_eq_of_cons_eq hsame]
    exact hplace.symm
  · rw [concat_eq_append, ← cons_append, ← append_assoc] at hsplit
    exact h before other after (append_inj' hsplit rfl).1

lemma within_of_snoc {place : AlternativePath} (h : Within opened (path ++ [place])) :
    Within opened path := by
  intro before other after hsplit
  apply h before other (after ++ [place])
  rw [hsplit, append_assoc, cons_append]

/-- A disjunction that is new to the path can be opened anywhere. -/
lemma within_update {disjunction : ℕ} (h : Within opened path)
    (hbelow : ∀ place ∈ path, place.disjunction < disjunction) (here : List AlternativePath) :
    Within (Function.update opened disjunction here) path := by
  intro before place after hsplit
  have hmem : place ∈ path := by
    rw [hsplit]
    exact mem_append_right _ mem_cons_self
  rw [Function.update_of_ne (hbelow place hmem).ne]
  exact h before place after hsplit

lemma Continues.trans {state'' : ParseState} {opened' : ℕ → List AlternativePath}
    (h : Continues opened' state' state'')
    (hagrees : ∀ disjunction < state.disjunctionCount, opened' disjunction = opened disjunction)
    (hcount : state.disjunctionCount ≤ state'.disjunctionCount) (hpath : state'.path = state.path) :
    Continues opened state state'' := by
  obtain ⟨opened'', hstate'', hagrees', hcount', hpath'⟩ := h
  refine ⟨opened'', hstate'', ?_, hcount.trans hcount', hpath'.trans hpath⟩
  intro disjunction hlt
  rw [hagrees' disjunction (hlt.trans_le hcount), hagrees disjunction hlt]

/-- The alternatives of a disjunction that is opened at the path. -/
lemma parseAlternatives_continues (hnested : Records nested) {disjunction index : ℕ}
    (hstate : Recorded opened state) (hopened : opened disjunction = state.path)
    (hbelow : disjunction < state.disjunctionCount) (alternatives : List Alternative) :
    Ensures (parseAlternatives context budget nested disjunction rounds index alternatives) state
      fun _ state' => Continues opened state state' := by
  induction rounds generalizing opened state index alternatives with
  | zero => exact .pure (.of_same hstate ⟨rfl, rfl, rfl⟩)
  | succ rounds ih =>
    rw [parseAlternatives]
    apply Ensures.modify_bind
    have hinside : Recorded opened
        { state with path := state.path ++ [⟨index, disjunction⟩] } := by
      refine ⟨within_snoc hstate.path hopened, hstate.groups, ?_, hstate.groupsBelow⟩
      intro place hmem
      rcases mem_append.mp hmem with hmem | hmem
      · exact hstate.pathBelow place hmem
      · rw [mem_singleton.mp hmem]
        exact hbelow
    apply Ensures.bind (parseAlternative_records hnested opened _ hinside)
    rintro alternative state' ⟨opened', hstate', hagrees, hcount, hpath⟩
    apply Ensures.modify_bind
    -- the alternative leaves the path as it was entered
    have hback : state'.path.dropLast = state.path := by rw [hpath, dropLast_concat]
    have houtside : Recorded opened' { state' with path := state'.path.dropLast } := by
      have hwithin := hstate'.path
      have hpathBelow := hstate'.pathBelow
      rw [hpath] at hwithin hpathBelow
      rw [hback]
      exact ⟨within_of_snoc hwithin, hstate'.groups,
        fun place hmem => hpathBelow place (mem_append_left _ hmem), hstate'.groupsBelow⟩
    apply Ensures.bind (ensures_reading _ _)
    rintro more _ ⟨cursor, rfl⟩
    have hmoved : Recorded opened' { state' with path := state'.path.dropLast, index := cursor } :=
      houtside.of_same ⟨rfl, rfl, rfl⟩
    apply Ensures.ite
    · intro _
      have hopened' : opened' disjunction = state'.path.dropLast := by
        rw [hagrees disjunction hbelow, hopened, hback]
      apply (ih hmoved hopened' (hbelow.trans_le hcount) _).mono
      intro _ _ hcontinues
      exact hcontinues.trans hagrees hcount hback
    · intro _
      exact .pure ⟨opened', hmoved, hagrees, hcount, hback⟩

/-- Every disjunction is recorded where it is opened. -/
lemma parseDisjunction_records (budget : ℕ) : Records (parseDisjunction context budget) := by
  induction budget with
  | zero =>
    rw [parseDisjunction]
    apply Records.bind (.reading _)
    intro start
    exact .fail _ _ _
  | succ budget ih =>
    intro opened state hstate
    rw [parseDisjunction]
    apply Ensures.get_bind
    apply Ensures.modify_bind
    apply Ensures.bind (ensures_reading _ _)
    rintro rounds _ ⟨index, rfl⟩
    have hopen : Recorded (Function.update opened state.disjunctionCount state.path)
        { state with disjunctionCount := state.disjunctionCount + 1, index := index } := by
      refine ⟨within_update hstate.path hstate.pathBelow _, ?_, ?_, ?_⟩
      · intro group hmem
        exact within_update (hstate.groups group hmem) (hstate.groupsBelow group hmem) _
      · intro place hmem
        exact (hstate.pathBelow place hmem).trans (Nat.lt_succ_self _)
      · intro group hmem place hplace
        exact (hstate.groupsBelow group hmem place hplace).trans (Nat.lt_succ_self _)
    apply Ensures.bind (parseAlternatives_continues ih hopen (Function.update_self _ _ _)
      (Nat.lt_succ_self _) [])
    intro alternatives state' hcontinues
    apply Ensures.pure
    apply hcontinues.trans
    · intro disjunction hlt
      exact Function.update_of_ne hlt.ne _ _
    · exact Nat.le_succ _
    · rfl

end Productions

/-! ## Repeated names -/

lemma initialState_recorded : Recorded (fun _ => []) initialState := by
  constructor
  · intro before place after hsplit
    cases before <;> cases hsplit
  · intro group hmem
    cases hmem
  · intro place hmem
    cases hmem
  · intro group hmem
    cases hmem

lemma parseWhole_within {body : Disjunction} (h : parseWhole context initialState = .ok (body, state)) :
    ∃ opened, ∀ group ∈ state.namedGroups, Within opened group.path := by
  have hrecords : Records (parseWhole context) := by
    apply Records.bind (parseDisjunction_records _)
    intro body
    apply Records.bind (.reading _)
    intro atEnd
    apply Records.ite
    · apply Records.bind (.reading _)
      intro index
      exact .fail _ _ _
    · exact .pure _
  obtain ⟨opened, hstate, -⟩ := (hrecords _ _ initialState_recorded).ends body state h
  exact ⟨opened, hstate.groups⟩

/-- The errors of a parse's groups are those of their names, each located at a group of the name, and
a name has errors exactly when two of its groups can both participate in a match. -/
theorem duplicateNames_reported {body : Disjunction}
    (h : parseWhole context initialState = .ok (body, state)) :
    (∀ error, error ∈ duplicateNameErrors state.namedGroups ↔
      ∃ name, error ∈ nameErrors state.namedGroups name) ∧
    (∀ name, ∀ error ∈ nameErrors state.namedGroups name,
      ∃ group ∈ state.namedGroups, group.name = name ∧ error.span = group.span) ∧
    ∀ name, nameErrors state.namedGroups name ≠ [] ↔ Repeats state.namedGroups name := by
  obtain ⟨opened, hwithin⟩ := parseWhole_within h
  refine ⟨?_, fun _ _ => nameErrors_span, fun _ => nameErrors_iff hwithin⟩
  intro error
  unfold duplicateNameErrors
  rw [mem_flatMap]
  constructor
  · rintro ⟨name, -, hmem⟩
    exact ⟨name, hmem⟩
  · rintro ⟨name, hmem⟩
    refine ⟨name, mem_eraseDups.mpr (nameErrors_name ?_), hmem⟩
    exact ne_nil_of_mem hmem

/-- What the parse of a source does not change, without flags and without extensions. -/
def plainContext (source : List CodeUnit) : ParseContext :=
  patternContext ⟨source, [], true, ⟨[], none, none, none⟩, ⟨100, 100, 100, 100⟩⟩
    ⟨false, false, false, false, false, false, "", false, false⟩

/-- The name of two alternatives. -/
theorem duplicateNames_reported_alternatives : ∃ body state,
    parseWhole (plainContext (units "(?<a>x)|(?<a>y)")) initialState = .ok (body, state) ∧
    (∀ error, error ∈ duplicateNameErrors state.namedGroups ↔
      ∃ name, error ∈ nameErrors state.namedGroups name) ∧
    (∀ name, ∀ error ∈ nameErrors state.namedGroups name,
      ∃ group ∈ state.namedGroups, group.name = name ∧ error.span = group.span) ∧
    ∀ name, nameErrors state.namedGroups name ≠ [] ↔ Repeats state.namedGroups name := by
  have hok : (parseWhole (plainContext (units "(?<a>x)|(?<a>y)")) initialState).isOk = true := by
    decide +kernel
  cases hparse : parseWhole (plainContext (units "(?<a>x)|(?<a>y)")) initialState with
  | error _ =>
    rw [hparse] at hok
    cases hok
  | ok result => exact ⟨result.1, result.2, rfl, duplicateNames_reported hparse⟩

end Oseo.RegExpParsing
