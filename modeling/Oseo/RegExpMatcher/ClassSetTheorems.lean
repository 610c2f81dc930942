import Oseo.RegExpMatcher.Build
import Oseo.RegExpMatcher.SetTheorems

/-!
# What a class set denotes

A `v`-mode class set is an expression over sets of sequences of code points: its strings are
sequences, and its characters are sequences of one. Without case folding, the value that the
builder computes holds the sequences of the expression, each of them once.
-/

namespace Oseo.RegExpMatcher

open List hiding set
open Oseo.Library

variable {builder : Builder} {value : ClassValue} {values : List ClassValue}
  {denoted : Set (List ℕ)}

/-! ## Expressions -/

/-- The sequences of one code point. -/
def singles (members : Set ℕ) : Set (List ℕ) := {sequence | ∃ c ∈ members, sequence = [c]}

@[simp] lemma mem_singles {members : Set ℕ} {c : ℕ} : [c] ∈ singles members ↔ c ∈ members := by
  simp [singles]

lemma not_mem_singles {members : Set ℕ} {sequence : List ℕ} (hlength : sequence.length ≠ 1) :
    sequence ∉ singles members := by
  rintro ⟨c, -, rfl⟩
  exact hlength rfl

/-- The members of an inversion list. -/
def setMembers (set : MatcherSet) : Set ℕ := {c | setHas set c = true}

lemma InversionList.inside_iff {set : MatcherSet} (hset : InversionList set) (c : ℕ) :
    inside set c = true ↔ c ∈ setMembers set := by
  unfold setMembers
  rw [Set.mem_ofPred_eq, setHas_eq hset.sorted]

/-- The characters that a class escape names. -/
def ClassEscapeSet.members (data : UnicodeData) : ClassEscapeSet → Set ℕ
  | .digit => Set.Icc 0x30 0x39
  | .space => setMembers namedWhiteSpace ∪ {c | ∃ set, data.spaceSeparators = some set ∧
      c ∈ setMembers set} ∪ setMembers lineTerminators
  | .word => setMembers basicWordCharacters

/-- The members of a set, or what is left of the code points. -/
def negatable (negated : Bool) (members : Set ℕ) : Set ℕ :=
  if negated then Set.compl members else members

/-- The sequences of a Unicode property, of characters or of strings. -/
def UnicodePropertyEscape.sequences (data : UnicodeData) (escape : UnicodePropertyEscape) :
    Set (List ℕ) :=
  match data.propertySet.bind (· escape) with
  | some set => singles (negatable escape.negated (setMembers set))
  | none => {sequence | ∃ strings, data.stringPropertySet.bind (· escape) = some strings ∧
      sequence ∈ strings}

/-- The sequences of one member of a class. -/
def ClassItem.sequences (data : UnicodeData) : ClassItem → Set (List ℕ)
  | .character value _ => singles {value}
  | .range start finish _ => singles (Set.Icc start finish)
  | .classEscape negated set _ => singles (negatable negated (set.members data))
  | .unicodeProperty escape => escape.sequences data

/-- The first operand, joined from the left with every operand after it. -/
def ClassSetOperation.combine (operation : ClassSetOperation) :
    List (Set (List ℕ)) → Set (List ℕ)
  | [] => ∅
  | first :: rest =>
    match operation with
    | .union => rest.foldl (· ∪ ·) first
    | .intersection => rest.foldl (· ∩ ·) first
    | .subtraction => rest.foldl (· \ ·) first

/-- A negated class holds the characters that the class does not hold. -/
def classSequences (negated : Bool) (sequences : Set (List ℕ)) : Set (List ℕ) :=
  if negated then singles {c | [c] ∉ sequences} else sequences

mutual

/-- The sequences that an operand denotes. -/
def ClassSetOperand.sequences (data : UnicodeData) : ClassSetOperand → Set (List ℕ)
  | .item item => item.sequences data
  | .classStrings strings _ => {sequence | sequence ∈ strings}
  | .classSet negated operation operands _ =>
    classSequences negated (operation.combine (operandSequences data operands))

def operandSequences (data : UnicodeData) : List ClassSetOperand → List (Set (List ℕ))
  | [] => []
  | operand :: operands => operand.sequences data :: operandSequences data operands

end

/-! ## Expressions of code points -/

/-- A sequence of code points. -/
def CodePoints (sequence : List ℕ) : Prop := ∀ c ∈ sequence, c ≤ maximumCodePoint

/-- The Unicode data hold inversion lists and strings of code points. -/
structure UnicodeData.WellFormed (data : UnicodeData) : Prop where
  property : ∀ escape set, data.propertySet.bind (· escape) = some set → InversionList set
  strings : ∀ escape strings, data.stringPropertySet.bind (· escape) = some strings →
    ∀ sequence ∈ strings, CodePoints sequence
  separators : ∀ set, data.spaceSeparators = some set → InversionList set

mutual

/-- The pattern writes code points. -/
def ClassSetOperand.Written : ClassSetOperand → Prop
  | .item (.character value _) => value ≤ maximumCodePoint
  | .item (.range _ finish _) => finish ≤ maximumCodePoint
  | .item _ => True
  | .classStrings strings _ => ∀ sequence ∈ strings, CodePoints sequence
  | .classSet _ _ operands _ => OperandsWritten operands

def OperandsWritten : List ClassSetOperand → Prop
  | [] => True
  | operand :: operands => operand.Written ∧ OperandsWritten operands

end

/-! ## Values -/

/-- A value holds the sequences of a set: those of one code point among its characters, the others
among its strings, none of them twice. -/
structure ClassValue.Denotes (value : ClassValue) (sequences : Set (List ℕ)) : Prop where
  list : InversionList value.characters
  characters : ∀ c ≤ maximumCodePoint, setHas value.characters c = true ↔ [c] ∈ sequences
  strings : ∀ sequence, sequence.length ≠ 1 →
    (sequence ∈ value.strings ↔ sequence ∈ sequences)
  longer : ∀ sequence ∈ value.strings, sequence.length ≠ 1
  nodup : value.strings.Nodup

lemma ClassValue.Denotes.inside_iff (hvalue : value.Denotes denoted) {c : ℕ}
    (hc : c ≤ maximumCodePoint) : inside value.characters c = true ↔ [c] ∈ denoted := by
  rw [← setHas_eq hvalue.list.sorted]
  exact hvalue.characters c hc

/-- A value from what its characters and strings hold. -/
lemma ClassValue.denotes_of (hlist : InversionList value.characters)
    (hcharacters : ∀ c ≤ maximumCodePoint, inside value.characters c = true ↔ [c] ∈ denoted)
    (hstrings : ∀ sequence, sequence ∈ value.strings ↔
      sequence.length ≠ 1 ∧ sequence ∈ denoted)
    (hnodup : value.strings.Nodup) : value.Denotes denoted where
  list := hlist
  characters c hc := by
    rw [setHas_eq hlist.sorted]
    exact hcharacters c hc
  strings sequence hlength := by
    rw [hstrings]
    exact and_iff_right hlength
  longer sequence hmem := ((hstrings sequence).mp hmem).1
  nodup := hnodup

lemma ClassValue.Denotes.mem_strings_iff (hvalue : value.Denotes denoted) (sequence : List ℕ) :
    sequence ∈ value.strings ↔ sequence.length ≠ 1 ∧ sequence ∈ denoted := by
  constructor
  · intro hmem
    have hlength := hvalue.longer sequence hmem
    exact ⟨hlength, (hvalue.strings sequence hlength).mp hmem⟩
  · rintro ⟨hlength, hmem⟩
    exact (hvalue.strings sequence hlength).mpr hmem

/-! ## Folding a value into a running union -/

lemma mem_addUnique {unique : List (List ℕ)} {sequence other : List ℕ} :
    other ∈ addUnique unique sequence ↔ other ∈ unique ∨ other = sequence := by
  unfold addUnique
  split
  · next hmem =>
    refine ⟨.inl, ?_⟩
    rintro (h | rfl)
    · exact h
    · exact hmem
  · rw [mem_append, mem_singleton]

lemma nodup_addUnique {unique : List (List ℕ)} (hnodup : unique.Nodup) (sequence : List ℕ) :
    (addUnique unique sequence).Nodup := by
  unfold addUnique
  split
  · exact hnodup
  · next hmem =>
    rw [nodup_append]
    refine ⟨hnodup, nodup_singleton _, fun other hother last hlast => ?_⟩
    rw [mem_singleton.mp hlast]
    rintro rfl
    exact hmem hother

lemma foldl_addUnique {added unique : List (List ℕ)} (hnodup : unique.Nodup) :
    (added.foldl addUnique unique).Nodup ∧
      ∀ sequence, sequence ∈ added.foldl addUnique unique ↔ sequence ∈ unique ∨ sequence ∈ added := by
  induction added generalizing unique with
  | nil => exact ⟨hnodup, fun sequence => by simp⟩
  | cons first added ih =>
    obtain ⟨hfold, hmem⟩ := ih (nodup_addUnique hnodup first)
    refine ⟨hfold, fun sequence => ?_⟩
    rw [foldl_cons, hmem, mem_addUnique, mem_cons, or_assoc]

/-- The one-character strings of a value, as ranges. -/
def singleRanges (strings : List (List ℕ)) : List (ℕ × ℕ) :=
  strings.filterMap fun sequence =>
    match sequence with
    | [character] => some (character, character)
    | _ => none

lemma mem_singleRanges {strings : List (List ℕ)} {range : ℕ × ℕ} :
    range ∈ singleRanges strings ↔ ∃ c, [c] ∈ strings ∧ range = (c, c) := by
  unfold singleRanges
  rw [mem_filterMap]
  constructor
  · rintro ⟨sequence, hmem, hrange⟩
    split at hrange
    · next c =>
      cases hrange
      exact ⟨c, hmem, rfl⟩
    · cases hrange
  · rintro ⟨c, hmem, rfl⟩
    exact ⟨[c], hmem, rfl⟩

lemma singleRanges_covers {strings : List (List ℕ)} {c : ℕ} :
    (singleRanges strings).any (covers · c) = true ↔ [c] ∈ strings := by
  rw [any_eq_true]
  constructor
  · rintro ⟨range, hmem, hcovers⟩
    obtain ⟨single, hsingle, rfl⟩ := mem_singleRanges.mp hmem
    simp only [covers, Bool.and_eq_true, decide_eq_true_eq] at hcovers
    have hsame : c = single := by omega
    rwa [hsame]
  · intro hmem
    exact ⟨(c, c), mem_singleRanges.mpr ⟨c, hmem, rfl⟩, by simp [covers]⟩

/-- What a running union of values holds. -/
structure RunningHolds (running : SetUnionSlots × List (List ℕ)) (denoted : Set (List ℕ)) :
    Prop where
  slots : SlotsHeld running.1
  characters : ∀ c ≤ maximumCodePoint, slotsInside running.1 c = true ↔ [c] ∈ denoted
  strings : ∀ sequence, sequence ∈ running.2 ↔ sequence.length ≠ 1 ∧ sequence ∈ denoted
  nodup : running.2.Nodup

lemma RunningHolds.empty : RunningHolds ([], []) ∅ :=
  ⟨.nil, fun c _ => by simp [slotsInside], fun sequence => by simp, List.nodup_nil⟩

/-- A value whose strings may have one character. -/
lemma RunningHolds.add {running : SetUnionSlots × List (List ℕ)}
    (hrunning : RunningHolds running denoted) (hlist : InversionList value.characters)
    (hsingles : ∀ c, [c] ∈ value.strings → c ≤ maximumCodePoint) :
    RunningHolds (addClassValue running value)
      (denoted ∪ (singles (setMembers value.characters) ∪ {sequence | sequence ∈ value.strings})) := by
  have hsingle : InversionList (setOfRanges (singleRanges value.strings)) := by
    refine (setOfRanges_spec _).2.2 fun range hmem => ?_
    obtain ⟨c, hc, rfl⟩ := mem_singleRanges.mp hmem
    exact hsingles c hc
  obtain ⟨hslots, hinside⟩ := addSetUnion_spec hrunning.slots hlist
  obtain ⟨hslots', hinside'⟩ := addSetUnion_spec hslots hsingle
  obtain ⟨hnodup, hmem⟩ := @foldl_addUnique
    (value.strings.filter fun sequence => sequence.length ≠ 1) _ hrunning.nodup
  have hcharacters : ∀ c, [c] ∈ singles (setMembers value.characters) ↔
      inside value.characters c = true := fun c => mem_singles.trans (hlist.inside_iff c).symm
  have hsplit : addClassValue running value =
      (if (singleRanges value.strings).isEmpty then addSetUnion running.1 value.characters
        else addSetUnion (addSetUnion running.1 value.characters)
          (setOfRanges (singleRanges value.strings)),
        (value.strings.filter fun sequence => sequence.length ≠ 1).foldl addUnique running.2) :=
    rfl
  rw [hsplit]
  constructor
  · dsimp only
    split
    · exact hslots
    · exact hslots'
  · intro c hc
    have hnone : (singleRanges value.strings).isEmpty = true → [c] ∉ value.strings := by
      intro hempty hmem
      rw [List.isEmpty_iff] at hempty
      rw [← singleRanges_covers, hempty] at hmem
      cases hmem
    split
    · next hempty =>
      rw [hinside, Bool.or_eq_true, hrunning.characters c hc, ← hcharacters]
      have := hnone hempty
      simp [this]
    · rw [hinside', hinside, (setOfRanges_spec _).2.1, Bool.or_eq_true, Bool.or_eq_true,
        hrunning.characters c hc, ← hcharacters, singleRanges_covers]
      simp [or_assoc]
  · intro sequence
    rw [hmem, hrunning.strings, mem_filter, decide_eq_true_eq]
    constructor
    · rintro (⟨hlength, hin⟩ | ⟨hin, hlength⟩)
      · exact ⟨hlength, .inl hin⟩
      · exact ⟨hlength, .inr (.inr hin)⟩
    · rintro ⟨hlength, hin | hin | hin⟩
      · exact .inl ⟨hlength, hin⟩
      · exact absurd hin (not_mem_singles hlength)
      · exact .inr ⟨hin, hlength⟩
  · exact hnodup

/-- The end of a running union. -/
lemma RunningHolds.finish {running : SetUnionSlots × List (List ℕ)}
    (hrunning : RunningHolds running denoted) :
    ClassValue.Denotes { characters := finishSetUnion running.1, strings := running.2 } denoted := by
  obtain ⟨hlist, hinside⟩ := finishSetUnion_spec hrunning.slots
  refine ClassValue.denotes_of hlist (fun c hc => ?_) hrunning.strings hrunning.nodup
  rw [hinside]
  exact hrunning.characters c hc

/-- Two sets of the same sequences of code points. -/
def SameSequences (first second : Set (List ℕ)) : Prop :=
  ∀ sequence, (∀ c, sequence = [c] → c ≤ maximumCodePoint) →
    (sequence ∈ first ↔ sequence ∈ second)

section Same

variable {other : Set (List ℕ)}

lemma SameSequences.single (hsame : SameSequences denoted other) {c : ℕ}
    (hc : c ≤ maximumCodePoint) : [c] ∈ denoted ↔ [c] ∈ other := by
  apply hsame
  intro c' hc'
  cases hc'
  exact hc

lemma SameSequences.longer (hsame : SameSequences denoted other) {sequence : List ℕ}
    (hlength : sequence.length ≠ 1) : sequence ∈ denoted ↔ sequence ∈ other := by
  apply hsame
  rintro c rfl
  exact absurd rfl hlength

lemma RunningHolds.congr {running : SetUnionSlots × List (List ℕ)}
    (hrunning : RunningHolds running denoted) (hsame : SameSequences denoted other) :
    RunningHolds running other where
  slots := hrunning.slots
  characters c hc := (hrunning.characters c hc).trans (hsame.single hc)
  strings sequence := (hrunning.strings sequence).trans (and_congr_right hsame.longer)
  nodup := hrunning.nodup

lemma ClassValue.Denotes.congr (hvalue : value.Denotes denoted)
    (hsame : SameSequences denoted other) : value.Denotes other where
  list := hvalue.list
  characters c hc := (hvalue.characters c hc).trans (hsame.single hc)
  strings sequence hlength := (hvalue.strings sequence hlength).trans (hsame.longer hlength)
  longer := hvalue.longer
  nodup := hvalue.nodup

end Same

/-- One-character strings are characters of the normalized value. -/
lemma normalizeClassValue_denotes (hlist : InversionList value.characters)
    (hsingles : ∀ c, [c] ∈ value.strings → c ≤ maximumCodePoint) :
    (normalizeClassValue value).Denotes
      (singles (setMembers value.characters) ∪ {sequence | sequence ∈ value.strings}) := by
  have := (RunningHolds.empty.add hlist hsingles).finish
  rwa [Set.empty_union] at this

lemma ClassValue.Denotes.singles_nil (hvalue : value.Denotes denoted) (c : ℕ)
    (hmem : [c] ∈ value.strings) : c ≤ maximumCodePoint :=
  absurd rfl (hvalue.longer [c] hmem)

lemma ClassValue.Denotes.same (hvalue : value.Denotes denoted) :
    SameSequences (singles (setMembers value.characters) ∪ {sequence | sequence ∈ value.strings})
      denoted := by
  intro sequence hsequence
  by_cases hlength : sequence.length = 1
  · obtain ⟨c, rfl⟩ := length_eq_one_iff.mp hlength
    rw [← hvalue.characters c (hsequence c rfl)]
    have hnot : [c] ∉ value.strings := fun hmem => hvalue.longer _ hmem rfl
    simp [setMembers, hnot]
  · rw [← hvalue.strings sequence hlength]
    simp [not_mem_singles hlength]

/-- A normalized value stays what it is. -/
lemma ClassValue.Denotes.normalized (hvalue : value.Denotes denoted) :
    (normalizeClassValue value).Denotes denoted :=
  (normalizeClassValue_denotes hvalue.list hvalue.singles_nil).congr hvalue.same

/-! ## Union, intersection and subtraction -/

lemma mem_foldl_inter {first : Set (List ℕ)} {rest : List (Set (List ℕ))} {sequence : List ℕ} :
    sequence ∈ rest.foldl (· ∩ ·) first ↔ sequence ∈ first ∧ ∀ set ∈ rest, sequence ∈ set := by
  induction rest generalizing first with
  | nil => simp
  | cons next rest ih => simp [ih, and_assoc]

lemma mem_foldl_diff {first : Set (List ℕ)} {rest : List (Set (List ℕ))} {sequence : List ℕ} :
    sequence ∈ rest.foldl (· \ ·) first ↔ sequence ∈ first ∧ ∀ set ∈ rest, sequence ∉ set := by
  induction rest generalizing first with
  | nil => simp
  | cons next rest ih => simp [ih, and_assoc]

/-- The values of operands, one for each denotation. -/
abbrev AllDenote (values : List ClassValue) (sets : List (Set (List ℕ))) : Prop :=
  List.Forall₂ ClassValue.Denotes values sets

/-- What every value holds, every denotation holds. -/
lemma AllDenote.forall_iff {sets : List (Set (List ℕ))} (hvalues : AllDenote values sets)
    {holds : ClassValue → Prop} {member : Set (List ℕ) → Prop}
    (hholds : ∀ value set, value.Denotes set → (holds value ↔ member set)) :
    (∀ value ∈ values, holds value) ↔ ∀ set ∈ sets, member set := by
  induction hvalues with
  | nil => simp
  | cons hvalue _ ih => simp [ih, hholds _ _ hvalue]

lemma RunningHolds.addAll {running : SetUnionSlots × List (List ℕ)}
    (hrunning : RunningHolds running denoted) {sets : List (Set (List ℕ))}
    (hvalues : AllDenote values sets) :
    RunningHolds (values.foldl addClassValue running) (sets.foldl (· ∪ ·) denoted) := by
  induction hvalues generalizing running denoted with
  | nil => exact hrunning
  | cons hvalue _ ih =>
    refine ih ((hrunning.add hvalue.list hvalue.singles_nil).congr fun sequence hsequence => ?_)
    exact or_congr_right (hvalue.same sequence hsequence)

lemma unionClassSet_denotes {sets : List (Set (List ℕ))} (hvalues : AllDenote values sets) :
    (unionClassSet values).Denotes (ClassSetOperation.union.combine sets) := by
  have hunion := (RunningHolds.empty.addAll hvalues).finish
  cases sets with
  | nil => exact hunion
  | cons first rest =>
    rw [foldl_cons, Set.empty_union] at hunion
    exact hunion

lemma ClassValue.denotes_empty : ClassValue.Denotes { characters := [], strings := [] } ∅ where
  list := .nil
  characters c _ := by simp [setHas, setHasLoop]
  strings sequence _ := by simp
  longer sequence hmem := by cases hmem
  nodup := List.nodup_nil

lemma foldl_setIntersection {sets : List MatcherSet} {first : MatcherSet}
    (hfirst : InversionList first) (hsets : ∀ set ∈ sets, InversionList set) :
    InversionList (sets.foldl setIntersection first) ∧
      ∀ c, inside (sets.foldl setIntersection first) c = true ↔
        inside first c = true ∧ ∀ set ∈ sets, inside set c = true := by
  induction sets generalizing first with
  | nil => exact ⟨hfirst, fun c => by simp⟩
  | cons next sets ih =>
    obtain ⟨hlist, hinside⟩ := setIntersection_spec hfirst (hsets next mem_cons_self)
    obtain ⟨hfold, hfoldInside⟩ := ih hlist fun set hmem => hsets set (mem_cons_of_mem _ hmem)
    refine ⟨hfold, fun c => ?_⟩
    rw [foldl_cons, hfoldInside, hinside, Bool.and_eq_true, and_assoc, forall_mem_cons]

section
variable {sets : List (Set (List ℕ))} (hvalues : AllDenote values sets)
include hvalues

lemma AllDenote.lists :
    ∀ set ∈ values.map ClassValue.characters, InversionList set := by
  induction hvalues with
  | nil => simp
  | cons hvalue _ ih => exact forall_mem_cons.mpr ⟨hvalue.list, ih⟩

lemma intersectClassSet_denotes :
    (intersectClassSet values).Denotes (ClassSetOperation.intersection.combine sets) := by
  cases hvalues with
  | nil => exact ClassValue.denotes_empty
  | @cons first set rights sets hfirst hrights =>
    have hleft := hfirst.normalized
    have hrights : AllDenote rights sets := hrights
    have hfold := @foldl_setIntersection (rights.map ClassValue.characters) _ hleft.list
      hrights.lists
    rw [foldl_map] at hfold
    obtain ⟨hlist, hinside⟩ := hfold
    refine ClassValue.denotes_of hlist (fun c hc => ?_) (fun sequence => ?_) ?_
    · show inside (rights.foldl (fun characters value =>
        setIntersection characters value.characters) (normalizeClassValue first).characters) c =
          true ↔ _
      rw [hinside, hleft.inside_iff hc]
      refine .trans (and_congr_right' ?_) mem_foldl_inter.symm
      rw [forall_mem_map]
      exact hrights.forall_iff fun value set hvalue => hvalue.inside_iff hc
    · show sequence ∈ (normalizeClassValue first).strings.filter _ ↔ _
      rw [mem_filter, decide_eq_true_eq, hleft.mem_strings_iff, and_assoc]
      refine and_congr_right fun hlength => ?_
      refine .trans (and_congr_right' ?_) mem_foldl_inter.symm
      rw [length_filter_eq_length_iff]
      simp only [decide_eq_true_eq]
      exact hrights.forall_iff fun value set hvalue => hvalue.strings sequence hlength
    · exact hleft.nodup.filter _

lemma subtractClassSet_denotes :
    (subtractClassSet values).Denotes (ClassSetOperation.subtraction.combine sets) := by
  cases hvalues with
  | nil =>
    refine ClassValue.Denotes.congr ?_ fun _ _ => .rfl
    exact ClassValue.denotes_empty
  | @cons first set rights sets hfirst hrights =>
    have hleft := hfirst.normalized
    have hrights : AllDenote rights sets := hrights
    have hremoved := finishSetUnion_foldl_spec hrights.lists
    rw [foldl_map] at hremoved
    obtain ⟨hlist, hinside⟩ := setDifference_spec hleft.list hremoved.1
    refine ClassValue.denotes_of hlist (fun c hc => ?_) (fun sequence => ?_) ?_
    · show inside (setDifference (normalizeClassValue first).characters (finishSetUnion
        (rights.foldl (fun slots value => addSetUnion slots value.characters) []))) c = true ↔ _
      rw [hinside, Bool.and_eq_true, hleft.inside_iff hc, hremoved.2]
      refine Iff.trans (and_congr_right' ?_) mem_foldl_diff.symm
      rw [Bool.not_eq_true', any_eq_false, forall_mem_map]
      exact hrights.forall_iff fun value set hvalue => not_congr (hvalue.inside_iff hc)
    · show sequence ∈ (normalizeClassValue first).strings.filter _ ↔ _
      rw [mem_filter, hleft.mem_strings_iff, and_assoc]
      refine and_congr_right fun hlength => ?_
      refine .trans (and_congr_right' ?_) mem_foldl_diff.symm
      rw [all_eq_true]
      simp only [decide_eq_true_eq]
      exact hrights.forall_iff fun value set hvalue =>
        not_congr (hvalue.strings sequence hlength)
    · exact hleft.nodup.filter _

end

/-! ## Leaves -/

/-- A value of characters alone. -/
lemma ClassValue.denotes_singles {set : MatcherSet} {members : Set ℕ} (hlist : InversionList set)
    (hmembers : ∀ c ≤ maximumCodePoint, inside set c = true ↔ c ∈ members) :
    ClassValue.Denotes { characters := set, strings := [] } (singles members) := by
  refine ClassValue.denotes_of hlist (fun c hc => ?_) (fun sequence => ?_) nodup_nil
  · rw [hmembers c hc, mem_singles]
  · exact iff_of_false not_mem_nil fun ⟨hlength, hmem⟩ => not_mem_singles hlength hmem

lemma setOfRange_inside {start finish : ℕ} (hfinish : finish ≤ maximumCodePoint) :
    InversionList (setOfRange start finish) ∧
      ∀ c, inside (setOfRange start finish) c = true ↔ c ∈ Set.Icc start finish := by
  unfold setOfRange
  split
  · next hempty =>
    refine ⟨.nil, fun c => ?_⟩
    rw [inside_nil, Set.mem_Icc]
    simp
    omega
  · next hle =>
    have hlt : start < finish + 1 := by omega
    refine ⟨⟨⟨by simpa using hlt, by simp⟩, fun boundary hmem => ?_⟩, fun c => ?_⟩
    · unfold codePointLimit
      rcases mem_pair.mp hmem with rfl | rfl
      · omega
      · omega
    · have hpair : inside [start, finish + 1] c = inside [finish + 1, start] c := by
        rw [← inside_reverse]
        rfl
      rw [hpair, inside_range (by omega), Set.mem_Icc]
      simp [covers]

lemma namedWhiteSpace_list : InversionList namedWhiteSpace :=
  (setOfRanges_spec _).2.2 (by decide)

lemma lineTerminators_list : InversionList lineTerminators :=
  (setOfRanges_spec _).2.2 (by decide)

lemma basicWordCharacters_list : InversionList basicWordCharacters :=
  (setOfRanges_spec _).2.2 (by decide)

lemma closeSet_plain (hfold : builder.ignoreCase = false) (set : MatcherSet) (span : Span) :
    closeSet builder set span = .ok set := by
  unfold closeSet
  rw [hfold]
  rfl

/-- The named set of a class escape. -/
lemma classEscapeSet_members (hfold : builder.ignoreCase = false)
    (hdata : builder.unicodeData.WellFormed) {escape : ClassEscapeSet} {span : Span}
    {set : MatcherSet} (hset : classEscapeSet builder escape span = .ok set) :
    InversionList set ∧
      ∀ c, inside set c = true ↔ c ∈ escape.members builder.unicodeData := by
  cases escape with
  | digit =>
    cases hset
    exact setOfRange_inside (by decide)
  | word =>
    unfold classEscapeSet wordCharacters at hset
    rw [closeSet_plain hfold] at hset
    cases hset
    exact ⟨basicWordCharacters_list, basicWordCharacters_list.inside_iff⟩
  | space =>
    unfold classEscapeSet spaceCharacters at hset
    dsimp only at hset
    split at hset
    · cases hset
    · next separators hseparators =>
      cases hset
      have hlist := hdata.separators separators hseparators
      obtain ⟨hunion, hinside⟩ := setUnion_spec namedWhiteSpace_list hlist
      obtain ⟨hunion', hinside'⟩ := setUnion_spec hunion lineTerminators_list
      refine ⟨hunion', fun c => ?_⟩
      rw [hinside', hinside, Bool.or_eq_true, Bool.or_eq_true, namedWhiteSpace_list.inside_iff,
        hlist.inside_iff, lineTerminators_list.inside_iff]
      simp [ClassEscapeSet.members, hseparators]

/-- The complement of a list has the code points that it does not have. -/
lemma setComplement_members {set : MatcherSet} {members : Set ℕ} (hlist : InversionList set)
    (hmembers : ∀ c ≤ maximumCodePoint, inside set c = true ↔ c ∈ members) :
    InversionList (setComplement set) ∧
      ∀ c ≤ maximumCodePoint, inside (setComplement set) c = true ↔ c ∈ Set.compl members := by
  obtain ⟨hcomplement, hinside⟩ := setComplement_spec hlist
  refine ⟨hcomplement, fun c hc => ?_⟩
  have hlt : c < codePointLimit := by
    unfold codePointLimit
    omega
  rw [hinside, decide_eq_true hlt, Bool.true_and, Bool.not_eq_true', Bool.eq_false_iff]
  exact not_congr (hmembers c hc)

lemma negatable_denotes {negated : Bool} {set : MatcherSet} {members : Set ℕ}
    (hlist : InversionList set) (hmembers : ∀ c, inside set c = true ↔ c ∈ members) :
    ClassValue.Denotes { characters := if negated then setComplement set else set, strings := [] }
      (singles (negatable negated members)) := by
  cases negated with
  | false => exact ClassValue.denotes_singles hlist fun c _ => hmembers c
  | true =>
    obtain ⟨hcomplement, hinside⟩ := setComplement_members hlist fun c _ => hmembers c
    exact ClassValue.denotes_singles hcomplement hinside

/-- The value of a Unicode property. -/
lemma propertyEscapeClassValue_denotes (hfold : builder.ignoreCase = false)
    (hdata : builder.unicodeData.WellFormed) {escape : UnicodePropertyEscape}
    (hvalue : propertyEscapeClassValue builder escape = .ok value) :
    value.Denotes (escape.sequences builder.unicodeData) := by
  unfold propertyEscapeClassValue at hvalue
  unfold UnicodePropertyEscape.sequences
  cases hproperty : builder.unicodeData.propertySet.bind (· escape) with
  | some set =>
    rw [hproperty] at hvalue
    obtain ⟨resolve, hresolve, hresolved⟩ := Option.bind_eq_some_iff.mp hproperty
    have hlist := hdata.property escape set hproperty
    have hset : propertyEscapeSet builder escape =
        .ok (if escape.negated then setComplement set else set) := by
      unfold propertyEscapeSet
      rw [hresolve]
      dsimp only
      rw [hresolved]
      dsimp only
      rw [hfold, Bool.and_false, if_neg Bool.false_ne_true]
      cases escape.negated <;> rfl
    rw [hset] at hvalue
    cases hvalue
    exact negatable_denotes hlist hlist.inside_iff
  | none =>
    rw [hproperty] at hvalue
    dsimp only at hvalue
    split at hvalue
    · next strings hstrings _ =>
      cases hvalue
      have hnormal := @normalizeClassValue_denotes { characters := [], strings } .nil
        fun c hc => hdata.strings escape strings hstrings [c] hc c mem_cons_self
      refine hnormal.congr fun sequence _ => ?_
      simp [singles, setMembers, setHas, setHasLoop, hstrings]
    · cases hvalue

/-- The value of a member of a class that is no property. -/
lemma classItemSet_denotes (hfold : builder.ignoreCase = false)
    (hdata : builder.unicodeData.WellFormed) {item : ClassItem}
    (hproperty : ∀ escape, item ≠ .unicodeProperty escape)
    (hwritten : (ClassSetOperand.item item).Written) {set : MatcherSet}
    (hset : classItemSet builder item = .ok set) :
    ClassValue.Denotes { characters := set, strings := [] }
      (item.sequences builder.unicodeData) := by
  cases item with
  | character character span =>
    cases hset
    obtain ⟨hlist, hinside⟩ := @setOfRange_inside character character hwritten
    refine ClassValue.denotes_singles hlist fun c _ => ?_
    rw [hinside, Set.Icc_self]
  | range start finish span =>
    cases hset
    obtain ⟨hlist, hinside⟩ := @setOfRange_inside start finish hwritten
    exact ClassValue.denotes_singles hlist fun c _ => hinside c
  | classEscape negated escape span =>
    unfold classItemSet negatableClassEscapeSet at hset
    dsimp only at hset
    cases hnamed : classEscapeSet builder escape span with
    | error refused =>
      rw [hnamed] at hset
      cases hset
    | ok named =>
      rw [hnamed] at hset
      cases hset
      obtain ⟨hlist, hmembers⟩ := classEscapeSet_members hfold hdata hnamed
      exact negatable_denotes hlist hmembers
  | unicodeProperty escape => exact absurd rfl (hproperty escape)

/-! ## Operands -/

mutual

/-- No part of an operand is refused: the data of its items are linked, and what it negates has
no strings. -/
def ClassSetOperand.Resolves (builder : Builder) : ClassSetOperand → Prop
  | .item (.unicodeProperty escape) => ∃ value, propertyEscapeClassValue builder escape = .ok value
  | .item item => ∃ set, classItemSet builder item = .ok set
  | .classStrings _ _ => True
  | .classSet negated operation operands _ =>
    OperandsResolve builder operands ∧ (negated = true → ∀ sequence ∈
      operation.combine (operandSequences builder.unicodeData operands), sequence.length = 1)

def OperandsResolve (builder : Builder) : List ClassSetOperand → Prop
  | [] => True
  | operand :: operands => operand.Resolves builder ∧ OperandsResolve builder operands

end

/-- A build has a result exactly when nothing refuses it, and the result holds what it has to. -/
def Yields {α : Type} (build : Build α) (holds : α → Prop) (allowed : Prop) : Prop :=
  (∀ value, build = .ok value → holds value) ∧ ((∃ value, build = .ok value) ↔ allowed)

section Yields

variable {α β : Type} {holds : α → Prop} {holds' : β → Prop} {allowed allowed' : Prop}

lemma Yields.ok {value : α} (hvalue : holds value) (h : allowed) :
    Yields (.ok value) holds allowed := by
  refine ⟨fun value' heq => ?_, iff_of_true ⟨value, rfl⟩ h⟩
  cases heq
  exact hvalue

lemma Yields.error {refused : PatternError} (h : ¬ allowed) :
    Yields (.error refused) holds allowed :=
  ⟨nofun, iff_of_false nofun h⟩

lemma Yields.bind {build : Build α} {next : α → Build β} (hbuild : Yields build holds allowed)
    (hnext : ∀ value, holds value → Yields (next value) holds' allowed') :
    Yields (build.bind next) holds' (allowed ∧ allowed') := by
  obtain ⟨hholds, hallowed⟩ := hbuild
  cases build with
  | error refused =>
    refine .error fun ⟨h, _⟩ => ?_
    obtain ⟨value, hvalue⟩ := hallowed.mpr h
    cases hvalue
  | ok value =>
    rw [and_iff_right (hallowed.mp ⟨value, rfl⟩)]
    exact hnext value (hholds value rfl)

end Yields

section
variable (hfold : builder.ignoreCase = false)
include hfold

lemma foldOperandValue_plain (operand : ClassSetOperand)
    (value : ClassValue) : foldOperandValue builder operand value = .ok value := by
  unfold foldOperandValue
  rw [hfold, Bool.not_false, Bool.or_true, if_pos rfl]

lemma bind_foldOperandValue (operand : ClassSetOperand) (build : Build ClassValue) :
    (build >>= foldOperandValue builder operand) = build := by
  cases build with
  | error refused => rfl
  | ok value => exact foldOperandValue_plain hfold operand value

/-- The value of a class set is that of its operation, or a complement of characters. -/
lemma combineClassValues_denotes (negated : Bool)
    (operation : ClassSetOperation) (span : Span) {sets : List (Set (List ℕ))}
    (hvalues : AllDenote values sets) :
    Yields (combineClassValues builder negated operation span values)
      (·.Denotes (classSequences negated (operation.combine sets)))
      (negated = true → ∀ sequence ∈ operation.combine sets, sequence.length = 1) := by
  set joined := match operation with
    | .union => unionClassSet values
    | .intersection => intersectClassSet values
    | .subtraction => subtractClassSet values with hjoined
  have hdenotes : joined.Denotes (operation.combine sets) := by
    cases operation with
    | union => exact unionClassSet_denotes hvalues
    | intersection => exact intersectClassSet_denotes hvalues
    | subtraction => exact subtractClassSet_denotes hvalues
  have hcombine : combineClassValues builder negated operation span values =
      if !negated then .ok joined
      else if !joined.strings.isEmpty then
        refuse .unsupported "A negated class set cannot contain strings." span
      else .ok { characters := setComplement joined.characters, strings := [] } := by
    unfold combineClassValues
    dsimp only
    rw [hfold, Bool.and_false, if_neg Bool.false_ne_true] <;> rfl
  rw [hcombine]
  cases negated with
  | false => exact .ok hdenotes nofun
  | true =>
    rw [Bool.not_true, if_neg Bool.false_ne_true]
    have hempty : joined.strings.isEmpty = true ↔
        ∀ sequence ∈ operation.combine sets, sequence.length = 1 := by
      rw [List.isEmpty_iff, List.eq_nil_iff_forall_not_mem]
      constructor
      · intro hnone sequence hmem
        by_contra hlength
        exact hnone sequence ((hdenotes.strings sequence hlength).mpr hmem)
      · intro hall sequence hmem
        have hlength := hdenotes.longer sequence hmem
        exact hlength (hall sequence ((hdenotes.strings sequence hlength).mp hmem))
    cases hstrings : joined.strings.isEmpty with
    | false =>
      refine .error fun hall => ?_
      rw [hempty.mpr (hall rfl)] at hstrings
      cases hstrings
    | true =>
      obtain ⟨hlist, hinside⟩ := @setComplement_members _ {c | [c] ∈ operation.combine sets}
        hdenotes.list fun c hc => hdenotes.inside_iff hc
      exact .ok (ClassValue.denotes_singles hlist hinside) fun _ => hempty.mp hstrings

/-- The value of an item that is no property. -/
lemma item_denotes (hdata : builder.unicodeData.WellFormed)
    (item : ClassItem) (hproperty : ∀ escape, item ≠ .unicodeProperty escape)
    (hwritten : (ClassSetOperand.item item).Written) :
    Yields (classSetOperandValue builder (.item item))
      (·.Denotes ((ClassSetOperand.item item).sequences builder.unicodeData))
      ((ClassSetOperand.item item).Resolves builder) := by
  have hresolves : (ClassSetOperand.item item).Resolves builder ↔
      ∃ set, classItemSet builder item = .ok set := by
    cases item with
    | unicodeProperty escape => exact absurd rfl (hproperty escape)
    | _ => exact .rfl
  rw [classSetOperandValue.eq_4 _ _ hproperty, hresolves]
  cases hset : classItemSet builder item with
  | error refused => exact .error (by simp)
  | ok set =>
    show Yields (foldOperandValue builder _ _) _ _
    rw [foldOperandValue_plain hfold]
    exact .ok (classItemSet_denotes hfold hdata hproperty hwritten hset) ⟨set, rfl⟩

end

mutual

/-- An operand has a value exactly when no part of it is refused, and the value holds what the
operand denotes. -/
lemma classSetOperandValue_denotes (hfold : builder.ignoreCase = false)
    (hdata : builder.unicodeData.WellFormed) (operand : ClassSetOperand)
    (hwritten : operand.Written) :
    Yields (classSetOperandValue builder operand)
      (·.Denotes (operand.sequences builder.unicodeData)) (operand.Resolves builder) := by
  match operand with
  | .classStrings strings span =>
    rw [classSetOperandValue, foldOperandValue_plain hfold]
    have hnormal := @normalizeClassValue_denotes { characters := [], strings } .nil
      fun c hc => hwritten [c] hc c mem_cons_self
    refine .ok (hnormal.congr fun sequence _ => ?_) trivial
    simp [singles, setMembers, setHas, setHasLoop, ClassSetOperand.sequences]
  | .item (.unicodeProperty escape) =>
    rw [classSetOperandValue, bind_foldOperandValue hfold]
    exact ⟨fun value hsome => propertyEscapeClassValue_denotes hfold hdata hsome, .rfl⟩
  | .item (.character character span) => exact item_denotes hfold hdata _ (by simp) hwritten
  | .item (.range start finish span) => exact item_denotes hfold hdata _ (by simp) hwritten
  | .item (.classEscape negated escape span) => exact item_denotes hfold hdata _ (by simp) hwritten
  | .classSet negated operation operands span =>
    rw [classSetOperandValue]
    simp only [bind_foldOperandValue hfold]
    exact (classSetOperandValues_denotes hfold hdata operands hwritten).bind fun _ hvalues =>
      combineClassValues_denotes hfold negated operation span hvalues

lemma classSetOperandValues_denotes (hfold : builder.ignoreCase = false)
    (hdata : builder.unicodeData.WellFormed) (operands : List ClassSetOperand)
    (hwritten : OperandsWritten operands) :
    Yields (classSetOperandValues builder operands)
      (AllDenote · (operandSequences builder.unicodeData operands))
      (OperandsResolve builder operands) := by
  match operands with
  | [] => exact .ok .nil trivial
  | operand :: operands =>
    rw [classSetOperandValues]
    refine (classSetOperandValue_denotes hfold hdata operand hwritten.1).bind fun value hvalue => ?_
    rw [← and_true (OperandsResolve builder operands)]
    exact (classSetOperandValues_denotes hfold hdata operands hwritten.2).bind fun values hvalues =>
      .ok (.cons hvalue hvalues) trivial

end

/-- Without case folding, a class set has a value exactly when no part of it is refused, and the
value holds the sequences of the expression, each once. -/
theorem classSetValue_denotes (hfold : builder.ignoreCase = false)
    (hdata : builder.unicodeData.WellFormed) (negated : Bool) (operation : ClassSetOperation)
    {operands : List ClassSetOperand} (hwritten : OperandsWritten operands) (span : Span) :
    (∀ value, classSetValue builder negated operation operands span = .ok value →
        value.Denotes (classSequences negated
          (operation.combine (operandSequences builder.unicodeData operands)))) ∧
      ((∃ value, classSetValue builder negated operation operands span = .ok value) ↔
        OperandsResolve builder operands ∧ (negated = true → ∀ sequence ∈
          operation.combine (operandSequences builder.unicodeData operands),
            sequence.length = 1)) :=
  (classSetOperandValues_denotes hfold hdata operands hwritten).bind fun _ hvalues =>
    combineClassValues_denotes hfold negated operation span hvalues

/-- A builder of `v` without `i`, with no Unicode data. -/
def plainBuilder : Builder where
  addresses := []
  failLabel := 0
  instructions := []
  limits := defaultRegExpMatcherLimits
  sets := []
  unicodeData := ⟨none, none, none, none, none⟩
  unicodeMode := true
  unicodeSets := true
  dotAll := false
  ignoreCase := false
  lowered := 0
  multiline := false
  registers := 0

/-- The letters and two strings, less the strings and a letter. -/
def letterOperands : List ClassSetOperand :=
  [.classSet false .union [.item (.range 0x61 0x7a ⟨0, 3⟩),
      .classStrings [[0x61, 0x62], [], [0x78]] ⟨3, 9⟩] ⟨0, 9⟩,
    .classStrings [[0x61, 0x62], [0x63]] ⟨11, 20⟩]

theorem classSetValue_denotes_letters :
    (∀ value, classSetValue plainBuilder false .subtraction letterOperands ⟨0, 20⟩ = .ok value →
        value.Denotes (classSequences false (ClassSetOperation.subtraction.combine
          (operandSequences plainBuilder.unicodeData letterOperands)))) ∧
      ((∃ value, classSetValue plainBuilder false .subtraction letterOperands ⟨0, 20⟩ =
          .ok value) ↔
        OperandsResolve plainBuilder letterOperands ∧ (false = true → ∀ sequence ∈
          ClassSetOperation.subtraction.combine
            (operandSequences plainBuilder.unicodeData letterOperands), sequence.length = 1)) :=
  @classSetValue_denotes plainBuilder rfl
    ⟨fun _ _ hset => (by cases hset), fun _ _ hstrings => (by cases hstrings),
      fun _ hset => (by cases hset)⟩
    false .subtraction letterOperands
    ⟨⟨show 0x7a ≤ maximumCodePoint by decide, by simp [ClassSetOperand.Written, CodePoints, maximumCodePoint], trivial⟩,
      by simp [ClassSetOperand.Written, CodePoints, maximumCodePoint], trivial⟩ ⟨0, 20⟩

end Oseo.RegExpMatcher
