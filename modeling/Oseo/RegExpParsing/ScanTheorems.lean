import Oseo.RegExpParsing.ReaderTheorems

/-!
# The textual scans

`countCapturingGroups` and `scanForGroupName` decide what an escape means before the pattern is
parsed. A parse declares a capture for every group that the scans see: the captures so far, followed
by the groups that the rest of the text introduces, stay the same list (`parseDisjunction_declares`).
-/

namespace Oseo.RegExpParsing

open Bool
open List
open Oseo.RegExpMatcher
open Oseo.Library (Ensures)
open Oseo.UriCoding (codeUnit)

variable {context : ParseContext} {unit : CodeUnit} {i j k low start : ℕ}

/-! ## Escapes -/

lemma readClassEscape_ends : Ensures (readClassEscape context start) k fun value j =>
    j = if value.isSome then k + 1 else k := by
  apply unitAt_bind
  cases (context.source[k + 0]?).bind fun unit => classEscapeSets.lookup unit with
  | none => exact .pure rfl
  | some escape =>
    apply advance_bind
    apply spanFrom_bind
    exact .pure rfl

lemma readUnicodePropertyEscape_ends (hmode : context.unicodeMode = false) :
    Ensures (readUnicodePropertyEscape context start) k fun value j => value = none ∧ j = k := by
  apply unitAt_bind
  rw [hmode, Bool.not_false, Bool.true_or, if_pos rfl]
  exact .pure ⟨rfl, rfl⟩

lemma readAtomEscape_reaches (hmode : context.unicodeMode = false) :
    Ensures (readAtomEscape context start) k fun _ j => Reaches context (k + 1) k j := by
  apply Ensures.bind readClassEscape_ends
  rintro (_ | ⟨negated, escapeSet, span⟩) j hj
  · apply Ensures.bind (readUnicodePropertyEscape_ends hmode)
    rintro _ _ ⟨rfl, rfl⟩
    apply spanFrom_bind
    cases hj
    apply Ensures.bind (readCharacterEscape_reaches hmode false)
    intro value j hj
    exact .pure hj
  · cases hj
    exact .pure (reaches_next k)

/-! ## Classes -/

section Classes

variable (hmode : context.unicodeMode = false) (hsets : context.flags.unicodeSets = false)

/-- Inside a class a unit is passed that neither escapes nor closes. -/
lemma inside_unit (hescape : context.source[k]? ≠ some (codeUnit '\\'))
    (hclose : context.source[k]? ≠ some (codeUnit ']')) :
    startsFrom context true k = startsFrom context true (k + 1) := by
  unfold startsFrom
  cases hunit : context.source[k]? with
  | none =>
    have hend := getElem?_eq_none_iff.mp hunit
    rw [drop_end hunit, drop_eq_nil_of_le (by omega)]
  | some unit =>
    rw [hunit, ne_eq, Option.some_inj] at hescape hclose
    rw [drop_unit hunit, groupStarts.eq_def]
    dsimp only
    rw [if_neg hescape, if_pos rfl, decide_eq_true hclose]

include hmode hsets

/-- An atom of a class is passed inside of the class. -/
lemma parseClassAtom_inside (hclose : context.source[k]? ≠ some (codeUnit ']')) :
    Ensures (parseClassAtom context) k fun _ j =>
      startsFrom context true k = startsFrom context true j ∧ k < j := by
  apply Ensures.get_bind
  apply eat_bind
  · intro hescape
    have hunit := unit_of_eaten (codeUnit '\\') [] hescape
    have hescaped : ∀ {j}, Reaches context (k + 2) (k + 1) j →
        startsFrom context true k = startsFrom context true j ∧ k < j :=
      fun hj => ⟨(passes_escape hunit true).trans (hj.passes true), hj.above⟩
    rw [Bool.not_true, if_neg Bool.false_ne_true]
    show Ensures _ (k + 1) _
    apply unitAt_bind
    apply Ensures.ite
    · intro _
      apply advance_bind
      apply spanFrom_bind
      exact Ensures.pure (hescaped (reaches_next _))
    · intro _
      apply Ensures.bind readClassEscape_ends
      rintro (_ | ⟨negated, escapeSet, span⟩) j hj
      · apply Ensures.bind (readUnicodePropertyEscape_ends hmode)
        rintro _ _ ⟨rfl, rfl⟩
        apply spanFrom_bind
        cases hj
        unfold readClassSetCharacterEscape
        rw [bind_assoc]
        apply unitAt_bind
        rw [hmode, hsets, Bool.false_and, Bool.false_and, Bool.or_false, if_neg Bool.false_ne_true]
        apply Ensures.bind (readCharacterEscape_reaches hmode true)
        intro value j hj
        exact Ensures.pure (hescaped hj)
      · cases hj
        exact Ensures.pure (hescaped (reaches_next _))
  · intro hescape
    have hnot : context.source[k]? ≠ some (codeUnit '\\') :=
      fun hunit => hescape (eaten_of_unit hunit)
    rw [Bool.not_false, if_pos rfl]
    apply Ensures.bind (readCharacter_ends hmode)
    rintro ⟨value, span⟩ _ rfl
    exact Ensures.pure ⟨inside_unit hnot hclose, Nat.lt_succ_self k⟩

lemma parseClassItems_inside (hclose : context.source[k]? ≠ some (codeUnit ']')) :
    Ensures (parseClassItems context) k fun _ j =>
      startsFrom context true k = startsFrom context true j ∧ k < j := by
  apply Ensures.bind (parseClassAtom_inside hmode hsets hclose)
  rintro first j ⟨hfirst, hlt⟩
  apply unitAt_bind
  apply unitAt_bind
  rw [Nat.add_zero]
  apply Ensures.ite
  · intro hrange
    rw [and_eq_true, and_eq_true, not_eq_true', isCharacter_iff] at hrange
    obtain ⟨⟨hdash, hafter⟩, -⟩ := hrange
    -- the second atom is no end of the class, as the dash would stand for itself before one
    have hclose' : context.source[j + 1]? ≠ some (codeUnit ']') := by
      intro hend
      rw [isCharacter_iff.mpr hend] at hafter
      cases hafter
    have hpassed := passes_unit hdash (ordinary_of_toNat (by decide)) true
    apply Ensures.get_bind
    apply advance_bind
    apply Ensures.bind (parseClassAtom_inside hmode hsets hclose')
    rintro second j' ⟨hsecond, hlt'⟩
    have hboth : startsFrom context true k = startsFrom context true j' ∧ k < j' :=
      ⟨hfirst.trans (hpassed.trans hsecond), by omega⟩
    apply spanFrom_bind
    split
    · apply Ensures.ite
      · intro _
        exact Ensures.throw _
      · intro _
        exact Ensures.pure hboth
    · apply Ensures.ite
      · intro _
        exact Ensures.pure hboth
      · intro _
        exact Ensures.throw _
  · intro _
    exact Ensures.pure ⟨hfirst, hlt⟩

/-- A class is passed up to its end. -/
lemma parseClassLoop_inside (rounds : ℕ) (items : List ClassItem)
    (hrounds : context.source.length < k + rounds) :
    Ensures (parseClassLoop context start rounds items) k fun _ j =>
      startsFrom context true k = startsFrom context false j := by
  induction rounds generalizing k items with
  | zero =>
    -- the rounds never run out: no unit is left
    unfold startsFrom
    rw [drop_eq_nil_of_le (by omega)]
    apply Ensures.pure
    rw [drop_eq_nil_of_le (by omega)]
    rfl
  | succ rounds ih =>
    rw [parseClassLoop]
    apply done_bind
    apply Ensures.ite
    · intro _
      apply spanFrom_bind
      exact .throw _
    · intro hmore
      rw [decide_eq_true_iff] at hmore
      apply eat_bind
      · intro hclose
        have hunit := unit_of_eaten (codeUnit ']') [] hclose
        rw [if_pos rfl]
        apply Ensures.pure
        unfold startsFrom
        rw [drop_unit hunit, groupStarts.eq_def]
        rfl
      · intro hclose
        have hnot : context.source[k]? ≠ some (codeUnit ']') :=
          fun hunit => hclose (eaten_of_unit hunit)
        rw [if_neg Bool.false_ne_true]
        apply Ensures.bind (parseClassItems_inside hmode hsets hnot)
        rintro more j ⟨hpassed, hlt⟩
        apply (ih _ (by omega)).mono
        intro _ _ hrest
        exact hpassed.trans hrest

lemma parseCharacterClass_passes (hunit : context.source[k]? = some (codeUnit '[')) (budget : ℕ) :
    Ensures (parseCharacterClass context budget) k fun _ j =>
      startsFrom context false k = startsFrom context false j := by
  have hopen : startsFrom context false k = startsFrom context true (k + 1) := by
    unfold startsFrom
    rw [drop_unit hunit, groupStarts.eq_def]
    rfl
  apply Ensures.get_bind
  rw [hsets, if_neg Bool.false_ne_true]
  apply advance_bind
  apply Ensures.bind (Skims.reaches (reaches_next k) (.eat (units_ordinary rfl)))
  intro negated j hj
  apply roundsLeft_bind
  apply Ensures.bind (parseClassLoop_inside hmode hsets _ _ (by omega))
  intro items j' hrest
  apply spanFrom_bind
  exact Ensures.pure (hopen.trans ((hj.passes true).trans hrest))

end Classes

/-! ## Terms -/

lemma reaches_self (i : ℕ) : Reaches context i i i := ⟨.refl i, Nat.le_refl i⟩

lemma Skims.outside {α : Type} {read : Read α} (h : Skims context k k read) :
    Ensures read k fun _ j => startsFrom context false k = startsFrom context false j := by
  apply (h k (reaches_self k)).mono
  intro _ _ hj
  exact hj.passes false

lemma quantifyLookahead_skims (lookahead : Lookaround) :
    Skims context i low (quantifyLookahead context lookahead) := by
  apply Skims.bind parseQuantifier_skims
  intro quantifier
  cases quantifier with
  | none => exact .pure _
  | some quantifier => exact .bind (.spanFrom _) fun _ => .pure _

lemma finishTerm_skims (start : ℕ) (atom : Atom) :
    Skims context i low (finishTerm context start atom) := by
  apply Skims.bind parseQuantifier_skims
  intro quantifier
  cases quantifier with
  | none => exact .pure _
  | some quantifier => exact .bind (.spanFrom _) fun _ => .pure _

lemma rejectQuantifier_skims (term : Term) :
    Skims context i low (rejectQuantifier context term) := by
  intro k hk
  apply Ensures.get_bind
  apply unitAt_bind
  apply Ensures.bind bracedQuantifierFollows_ends
  rintro braced _ rfl
  apply Ensures.ite
  · intro _
    apply Ensures.check
    intro _
    exact .throw _
  · intro _
    exact .pure hk

/-- An assertion declares no group. -/
lemma readAssertion_ends : Ensures (readAssertion context) k fun value j =>
    if value.isSome then startsFrom context false k = startsFrom context false j else j = k := by
  apply unitAt_bind
  apply unitAt_bind
  rw [Nat.add_zero]
  apply Ensures.ite
  · intro hedge
    rw [or_eq_true, isCharacter_iff, isCharacter_iff] at hedge
    apply advance_bind
    apply Ensures.pure
    rcases hedge with hstart | hfinish
    · exact passes_unit hstart (ordinary_of_toNat (by decide)) false
    · exact passes_unit hfinish (ordinary_of_toNat (by decide)) false
  · intro _
    apply Ensures.ite
    · intro hboundary
      rw [and_eq_true, isCharacter_iff] at hboundary
      apply advance_bind
      exact .pure (passes_escape hboundary.1 false)
    · intro _
      exact .pure rfl

/-! ## Introducers -/

/-- One character is eaten if it is there. -/
lemma eat_ends (expected : Char) {text : String} (htext : units text = [codeUnit expected]) :
    Ensures (eat context text) k fun value j =>
      isCharacter context.source[k]? expected = value ∧ j = if value then k + 1 else k := by
  rw [← bind_pure (eat context text)]
  apply eat_bind
  · intro heaten
    rw [htext] at heaten ⊢
    exact .pure ⟨isCharacter_iff.mpr (unit_of_eaten _ [] heaten), rfl⟩
  · intro heaten
    rw [htext] at heaten
    refine .pure ⟨?_, rfl⟩
    rw [eq_false_iff]
    exact fun hunit => heaten (eaten_of_unit (isCharacter_iff.mp hunit))

/-- No lookbehind starts at an index. -/
structure NoLookbehind (context : ParseContext) (index : ℕ) : Prop where
  positive : ¬units "(?<=" <+: context.source.drop index
  negative : ¬units "(?<!" <+: context.source.drop index

/-- What a group introducer adds. -/
lemma starts_group (hunit : context.source[k]? = some (codeUnit '(')) :
    startsFrom context false k =
      (groupStart (context.source.drop (k + 1))).toList ++ startsFrom context false (k + 1) := by
  unfold startsFrom
  rw [drop_unit hunit, groupStarts.eq_def]
  rfl

lemma groupStart_drop : groupStart (context.source.drop k) =
    if !isCharacter context.source[k]? '?' then some false
    else if !isCharacter context.source[k + 1]? '<' then none
    else if !isCharacter context.source[k + 2]? '=' && !isCharacter context.source[k + 2]? '!' then
      some true
    else none := by
  rw [groupStart, getElem?_drop, getElem?_drop, getElem?_drop, Nat.add_zero]

/-- A pattern character, outside of a class. -/
lemma readPatternCharacter_passes (hmode : context.unicodeMode = false)
    (hescape : context.source[k]? ≠ some (codeUnit '\\'))
    (hopen : context.source[k]? ≠ some (codeUnit '['))
    (hgroup : context.source[k]? ≠ some (codeUnit '(')) :
    Ensures (readPatternCharacter context) k fun _ j =>
      startsFrom context false k = startsFrom context false j := by
  have hpassed : startsFrom context false k = startsFrom context false (k + 1) := by
    unfold startsFrom
    cases hunit : context.source[k]? with
    | none =>
      have hend := getElem?_eq_none_iff.mp hunit
      rw [drop_end hunit, drop_eq_nil_of_le (by omega)]
    | some unit =>
      rw [hunit, ne_eq, Option.some_inj] at hescape hopen hgroup
      rw [drop_unit hunit, groupStarts.eq_def]
      dsimp only
      rw [if_neg hescape, if_neg Bool.false_ne_true, if_neg hopen, if_pos hgroup]
  have hread : Ensures (do
      let result ← readCharacter context
      pure (Atom.character result.1 result.2)) k fun _ j =>
        startsFrom context false k = startsFrom context false j := by
    apply Ensures.bind (readCharacter_ends hmode)
    rintro ⟨value, span⟩ _ rfl
    exact Ensures.pure hpassed
  apply Ensures.get_bind
  apply unitAt_bind
  apply Ensures.check
  intro _
  apply Ensures.bind bracedQuantifierFollows_ends
  rintro braced _ rfl
  apply Ensures.check
  intro _
  apply Ensures.check
  intro _
  apply Ensures.check
  intro _
  exact hread

/-- Ordinary units after a parenthesis that introduces no capturing group. -/
lemma passes_introducer (rest : List CodeUnit) (hrest : avoids rest.contains = true)
    (hnone : ∀ after, groupStart (rest ++ after) = none)
    (hfollows : codeUnit '(' :: rest <+: context.source.drop k) :
    startsFrom context false k = startsFrom context false (k + 1 + rest.length) := by
  have hunit := unit_of_eaten (codeUnit '(') rest hfollows
  rw [drop_unit hunit, cons_prefix_cons] at hfollows
  obtain ⟨after, hafter⟩ := hfollows.2
  rw [starts_group hunit, ← hafter, hnone, Option.toList_none, nil_append]
  apply passes_units hfollows.2
  exact fun _ hmem => ordinary_of_avoids _ hrest (contains_iff_mem.mpr hmem)

/-- The introducer of a lookaround declares no group. -/
lemma lookaroundIntroducer_ends : Ensures (lookaroundIntroducer context) k fun value j =>
    match value with
    | none => j = k ∧ NoLookbehind context k
    | some (_, _, length) =>
      j = k ∧ startsFrom context false k = startsFrom context false (k + length) := by
  apply follows_bind
  apply Ensures.ite
  · intro hfollows
    rw [List.isPrefixOf_iff_prefix] at hfollows
    have hpassed := passes_introducer [codeUnit '?', codeUnit '<', codeUnit '='] rfl (fun _ => rfl) hfollows
    exact .pure ⟨rfl, hpassed⟩
  · intro hpositive
    apply follows_bind
    apply Ensures.ite
    · intro hfollows
      rw [List.isPrefixOf_iff_prefix] at hfollows
      have hpassed := passes_introducer [codeUnit '?', codeUnit '<', codeUnit '!'] rfl (fun _ => rfl) hfollows
      exact .pure ⟨rfl, hpassed⟩
    · intro hnegative
      rw [List.isPrefixOf_iff_prefix] at hpositive hnegative
      apply follows_bind
      apply Ensures.ite
      · intro hfollows
        rw [List.isPrefixOf_iff_prefix] at hfollows
        have hpassed := passes_introducer [codeUnit '?', codeUnit '='] rfl (fun _ => rfl) hfollows
        exact .pure ⟨rfl, hpassed⟩
      · intro _
        apply follows_bind
        apply Ensures.ite
        · intro hfollows
          rw [List.isPrefixOf_iff_prefix] at hfollows
          have hpassed := passes_introducer [codeUnit '?', codeUnit '!'] rfl (fun _ => rfl) hfollows
          exact .pure ⟨rfl, hpassed⟩
        · intro _
          exact .pure ⟨rfl, hpositive, hnegative⟩

/-! ## Declared groups -/

section Rules

variable {α β : Type} {read : Read α} {run : Parse α} {state : ParseState}

/-- The groups that are declared, followed by those that the rest of the text introduces. -/
def groupsOf (context : ParseContext) (state : ParseState) : List Bool :=
  state.captures.map (·.name.isSome) ++ startsFrom context false state.index

lemma groupsOf_eq {state' : ParseState} (hcaptures : state'.captures = state.captures)
    (hpassed : startsFrom context false state.index = startsFrom context false state'.index) :
    groupsOf context state' = groupsOf context state := by
  rw [groupsOf, groupsOf, hcaptures, hpassed]

/-- A part of the parse that declares the groups it passes. -/
def Declares (context : ParseContext) (run : Parse α) : Prop :=
  ∀ state, Ensures run state fun _ state' => groupsOf context state' = groupsOf context state

lemma reading_ends {post : α → ℕ → Prop} (h : Ensures read state.index post) :
    Ensures (reading read) state fun value state' =>
      ∃ index, state' = { state with index := index } ∧ post value index := by
  constructor
  intro value state' hrun
  change (do let result ← read state.index; _) = _ at hrun
  cases hread : read state.index with
  | error error =>
    rw [hread] at hrun
    cases hrun
  | ok result =>
    rw [hread] at hrun
    cases hrun
    exact ⟨result.2, rfl, h.ends result.1 result.2 hread⟩

lemma reading_bind {next : α → Parse β} {post : α → ℕ → Prop} {last : β → ParseState → Prop}
    (h : Ensures read state.index post) (hnext : ∀ value index, post value index →
      Ensures (next value) { state with index := index } last) :
    Ensures (reading read >>= next) state last := by
  apply Ensures.bind (reading_ends h)
  rintro value _ ⟨index, rfl, hpost⟩
  exact hnext value index hpost

/-- A reader that only looks, or moves the cursor by a number. -/
lemma reading_ok_bind {next : α → Parse β} {last : β → ParseState → Prop} {value : α} {index : ℕ}
    (hread : read state.index = .ok (value, index))
    (h : Ensures (next value) { state with index := index } last) :
    Ensures (reading read >>= next) state last := by
  have hends : Ensures read state.index fun value' index' => value' = value ∧ index' = index := by
    constructor
    intro value' index' hrun
    rw [hread] at hrun
    cases hrun
    exact ⟨rfl, rfl⟩
  apply reading_bind hends
  rintro _ _ ⟨rfl, rfl⟩
  exact h

/-- A reader that declares nothing passes no group. -/
lemma reading_declares {groups : List Bool} (hgroups : groupsOf context state = groups)
    (h : Ensures read state.index fun _ j =>
      startsFrom context false state.index = startsFrom context false j) :
    Ensures (reading read) state fun _ state' => groupsOf context state' = groups := by
  apply (reading_ends h).mono
  rintro _ _ ⟨index, rfl, hpassed⟩
  have hsame : groupsOf context { state with index := index } = groupsOf context state :=
    groupsOf_eq rfl hpassed
  exact hsame.trans hgroups

namespace Declares

lemma bind {next : α → Parse β} (h : Declares context run)
    (hnext : ∀ value, Declares context (next value)) : Declares context (run >>= next) := by
  intro state
  apply Ensures.bind (h state)
  intro value state' hstate'
  apply (hnext value state').mono
  intro _ _ hlast
  exact hlast.trans hstate'

lemma pure (value : α) : Declares context (Pure.pure value : Parse α) := fun _ => .pure rfl

lemma fail (kind : ErrorKind) (message : String) (location : Span) :
    Declares context (fail kind message location : Parse α) :=
  fun _ => .throw _

lemma ite {condition : Prop} [Decidable condition] {run' : Parse α} (h : Declares context run)
    (h' : Declares context run') : Declares context (if condition then run else run') := by
  split
  · exact h
  · exact h'

lemma reading (h : ∀ i, Skims context i i read) : Declares context (reading read) := by
  intro state
  apply reading_declares rfl
  apply (h state.index state.index ⟨.refl _, Nat.le_refl _⟩).mono
  intro _ _ hj
  exact hj.passes false

end Declares

end Rules

/-! ## Productions -/

section Productions

variable {budget : ℕ} {state : ParseState} {nested : Parse Disjunction}
  (hmode : context.unicodeMode = false) (hsets : context.flags.unicodeSets = false)

include hmode in
/-- An atom escape is passed with the unit its backslash hides. -/
lemma parseAtomEscape_ends : Ensures (parseAtomEscape context start) state fun _ state' =>
    state'.captures = state.captures ∧ Passes context (state.index + 1) state'.index := by
  apply reading_ok_bind rfl
  apply Ensures.ite
  · intro hdigit
    have hunit := ordinary_of_test hdigit rfl rfl
    obtain ⟨unit, hunit, hordinary⟩ := hunit
    apply reading_ok_bind rfl
    have hdigits : Skims context state.index 0 (readDecimalDigits context) := .readWhile rfl
    apply reading_bind (hdigits state.index ⟨.refl _, Nat.zero_le _⟩)
    intro digits index hindex
    apply reading_ok_bind rfl
    apply Ensures.ite
    · intro _
      apply reading_ok_bind rfl
      have hpast : Ensures (readPastCaptures context start) state.index fun _ j =>
          Reaches context (state.index + 1) state.index j := by
        apply unitAt_bind
        apply Ensures.ite
        · intro _
          apply advance_bind
          apply spanFrom_bind
          exact .pure (reaches_next _)
        · intro _
          apply Ensures.bind readLegacyOctalEscape_reaches
          intro value j hj
          apply spanFrom_bind
          exact .pure hj
      apply (reading_ends hpast).mono
      rintro _ _ ⟨index, rfl, hreached⟩
      exact ⟨rfl, hreached.passes⟩
    · intro _
      apply Ensures.modify_bind
      apply Ensures.pure
      exact ⟨rfl, (passes_unit hunit hordinary).symm.trans hindex.passes⟩
  · intro _
    apply Ensures.ite
    · intro _
      apply reading_ok_bind rfl
      apply Ensures.ite
      · intro _
        apply reading_ok_bind rfl
        refine .ite (fun _ => .pure ⟨rfl, .refl _⟩) fun _ => ?_
        exact .throw _
      · intro _
        apply reading_bind (readGroupName_skims start _ (reaches_next state.index))
        intro name index hindex
        apply reading_ok_bind rfl
        apply Ensures.modify_bind
        exact .pure ⟨rfl, hindex.passes⟩
    · intro _
      apply (reading_ends (readAtomEscape_reaches hmode)).mono
      rintro _ _ ⟨index, rfl, hreached⟩
      exact ⟨rfl, hreached.passes⟩

/-- A declaration adds a group. -/
lemma declareCapture_ends (name : Option String) :
    Ensures (declareCapture context start name) state fun _ state' =>
      state'.captures.map (·.name.isSome) = state.captures.map (·.name.isSome) ++ [name.isSome] ∧
      state'.index = state.index := by
  apply Ensures.get_bind
  apply reading_ok_bind rfl
  apply Ensures.check
  intro _
  apply Ensures.set_bind
  apply Ensures.pure
  refine ⟨?_, rfl⟩
  show (state.captures ++ [_]).map _ = _
  rw [map_append]
  rfl

section Nested

variable (hnested : Declares context nested)

include hnested

lemma parseGroupBody_declares : Declares context (parseGroupBody context nested start) := by
  apply Declares.bind hnested
  intro body
  have hend : Declares context (reading (expectGroupEnd context start)) := by
    apply Declares.reading
    intro i
    apply Skims.bind (.eat (units_ordinary rfl))
    intro closed
    exact .ite (.bind (.spanFrom _) fun _ => .fail _ _ _) (.pure _)
  apply Declares.bind hend
  intro _
  apply Declares.bind (.reading fun _ => .spanFrom _)
  intro span
  exact .pure _

/-- A capturing group whose introducer was passed. -/
lemma parseCapturingGroup_ends (name : Option String) :
    Ensures (parseCapturingGroup context nested start name) state fun _ state' =>
      groupsOf context state' = state.captures.map (·.name.isSome) ++
        name.isSome :: startsFrom context false state.index := by
  apply Ensures.bind (declareCapture_ends name)
  rintro capture state' ⟨hcaptures, hindex⟩
  apply Ensures.bind (parseGroupBody_declares hnested state')
  rintro ⟨body, span⟩ state'' hgroups
  apply Ensures.pure
  rw [hgroups, groupsOf, hcaptures, hindex, append_assoc, singleton_append]

/-- A group is declared if the scans count it. -/
lemma parseGroup_ends (hunit : context.source[state.index]? = some (codeUnit '('))
    (hlookbehind : NoLookbehind context state.index) :
    Ensures (parseGroup context nested) state fun _ state' =>
      groupsOf context state' = groupsOf context state := by
  have hgroup : groupsOf context state = state.captures.map (·.name.isSome) ++
      ((groupStart (context.source.drop (state.index + 1))).toList ++
        startsFrom context false (state.index + 1)) := by
    rw [groupsOf, starts_group hunit]
  rw [groupStart_drop] at hgroup
  apply reading_ok_bind rfl
  apply reading_ok_bind rfl
  apply reading_bind (eat_ends '?' rfl)
  rintro eaten index ⟨hquestion, hindex⟩
  change isCharacter context.source[state.index + 1]? '?' = eaten at hquestion
  cases eaten with
  | false =>
    cases hindex
    rw [hquestion] at hgroup
    rw [if_neg Bool.false_ne_true]
    apply (parseCapturingGroup_ends hnested none).mono
    intro _ _ hdeclared
    rw [hdeclared, hgroup]
    rfl
  | true =>
    cases hindex
    rw [hquestion, Bool.not_true, if_neg Bool.false_ne_true] at hgroup
    have hpassed := passes_unit (isCharacter_iff.mp hquestion) (ordinary_of_toNat (by decide))
    -- a group without an angle bracket is not counted
    have hplain : ∀ {index}, isCharacter context.source[state.index + 2]? '<' = false →
        Passes context (state.index + 2) index →
        groupsOf context { state with index := index } = groupsOf context state := by
      intro index hangle hrest
      rw [hgroup, show state.index + 1 + 1 = state.index + 2 from rfl, hangle, Bool.not_false,
        if_pos rfl, (hpassed.trans hrest) false]
      rfl
    -- one with an angle bracket has a name, as it is no lookbehind
    have hnamed : isCharacter context.source[state.index + 2]? '<' = true →
        groupsOf context state = state.captures.map (·.name.isSome) ++
          true :: startsFrom context false (state.index + 1) := by
      intro hangle
      have hnot : ∀ character : Char,
          isCharacter context.source[state.index + 3]? character = true →
          [codeUnit '(', codeUnit '?', codeUnit '<', codeUnit character] <+:
            context.source.drop state.index := by
        intro character hnext
        rw [drop_unit hunit, drop_unit (isCharacter_iff.mp hquestion),
          drop_unit (isCharacter_iff.mp hangle), drop_unit (isCharacter_iff.mp hnext)]
        exact ⟨_, rfl⟩
      have hequals := eq_false_iff.mpr fun hnext => hlookbehind.positive (hnot '=' hnext)
      have hbang := eq_false_iff.mpr fun hnext => hlookbehind.negative (hnot '!' hnext)
      rw [hgroup, show state.index + 1 + 1 = state.index + 2 from rfl, hangle, Bool.not_true,
        if_neg Bool.false_ne_true, show state.index + 1 + 2 = state.index + 3 from rfl, hequals, hbang,
        Bool.not_false, Bool.and_self, if_pos rfl]
      rfl
    rw [if_pos rfl]
    apply reading_bind (eat_ends ':' rfl)
    rintro eaten index ⟨hcolon, hindex⟩
    change isCharacter context.source[state.index + 2]? ':' = eaten at hcolon
    cases eaten with
    | false =>
      cases hindex
      rw [if_neg Bool.false_ne_true]
      apply reading_ok_bind rfl
      apply Ensures.ite
      · intro hangle
        apply reading_bind (readGroupName_skims state.index _ (reaches_self _))
        intro name index hname
        apply (parseCapturingGroup_ends hnested (some name)).mono
        intro _ _ hdeclared
        rw [hdeclared, hnamed hangle, (hpassed.trans hname.passes) false]
        rfl
      · intro hangle
        rw [not_eq_true] at hangle
        apply reading_bind (readModifiers_skims state.index _ (reaches_self _))
        rintro ⟨enabled, disabled⟩ index hmodifiers
        apply Ensures.bind (parseGroupBody_declares hnested _)
        rintro ⟨body, span⟩ state' hbody
        apply Ensures.pure
        exact hbody.trans (hplain hangle hmodifiers.passes)
    | true =>
      cases hindex
      rw [if_pos rfl]
      apply Ensures.bind (parseGroupBody_declares hnested _)
      rintro ⟨body, span⟩ state' hbody
      apply Ensures.pure
      rw [isCharacter_iff] at hcolon
      apply hbody.trans (hplain _ (passes_unit hcolon (ordinary_of_toNat (by decide))))
      rw [hcolon]
      rfl

include hmode hsets

/-- An atom that is no lookbehind. -/
lemma parseAtom_ends (hlookbehind : NoLookbehind context state.index) :
    Ensures (parseAtom context budget nested) state fun _ state' =>
      groupsOf context state' = groupsOf context state := by
  apply reading_ok_bind rfl
  apply reading_ok_bind rfl
  apply Ensures.ite
  · intro hdot
    have hpassed := passes_unit (isCharacter_iff.mp hdot) (ordinary_of_toNat (by decide)) false
    apply reading_ok_bind rfl
    apply reading_ok_bind rfl
    exact .pure (groupsOf_eq rfl hpassed)
  · intro _
    apply Ensures.ite
    · intro hgroup
      exact parseGroup_ends hnested (isCharacter_iff.mp hgroup) hlookbehind
    · intro hgroup
      apply Ensures.ite
      · intro hopen
        exact reading_declares rfl (parseCharacterClass_passes hmode hsets
          (isCharacter_iff.mp hopen) _)
      · intro hopen
        apply Ensures.ite
        · intro hescape
          have hpassed := passes_escape (isCharacter_iff.mp hescape)
          apply reading_ok_bind rfl
          apply (parseAtomEscape_ends hmode).mono
          rintro _ state' ⟨hcaptures, hindex⟩
          exact groupsOf_eq hcaptures ((hpassed false).trans (hindex false))
        · intro hescape
          rw [isCharacter_iff] at hgroup hopen hescape
          exact reading_declares rfl (readPatternCharacter_passes hmode hescape hopen hgroup)

omit hmode hsets in
/-- A lookaround declares what its body does, and without one there is no lookbehind. -/
lemma parseLookaround_ends : Ensures (parseLookaround context nested) state fun lookaround state' =>
    groupsOf context state' = groupsOf context state ∧
      (lookaround = none → state' = state ∧ NoLookbehind context state.index) := by
  apply reading_ok_bind rfl
  apply reading_bind lookaroundIntroducer_ends
  rintro (_ | ⟨direction, negated, length⟩) index hintroducer
  · obtain ⟨rfl, hlookbehind⟩ := hintroducer
    exact .pure ⟨rfl, fun _ => ⟨rfl, hlookbehind⟩⟩
  · obtain ⟨rfl, hpassed⟩ := hintroducer
    apply reading_ok_bind rfl
    apply Ensures.bind (parseGroupBody_declares hnested _)
    rintro ⟨body, span⟩ state' hbody
    refine .pure ⟨hbody.trans (groupsOf_eq rfl hpassed), fun hnone => ?_⟩
    cases hnone

lemma parseTerm_declares : Declares context (parseTerm context budget nested) := by
  intro state
  apply reading_ok_bind rfl
  apply Ensures.bind (parseLookaround_ends hnested)
  rintro lookaround state' ⟨hgroups, hnone⟩
  cases lookaround with
  | some lookaround =>
    apply Ensures.ite
    · intro _
      exact reading_declares hgroups (Skims.outside (quantifyLookahead_skims _))
    · intro _
      exact reading_declares hgroups (Skims.outside (rejectQuantifier_skims _))
  | none =>
    obtain ⟨rfl, hlookbehind⟩ := hnone rfl
    apply reading_bind readAssertion_ends
    rintro assertion index hassertion
    cases assertion with
    | some assertion =>
      apply reading_ok_bind rfl
      exact reading_declares (groupsOf_eq rfl hassertion) (Skims.outside (rejectQuantifier_skims _))
    | none =>
      cases hassertion
      apply Ensures.bind (parseAtom_ends hmode hsets hnested hlookbehind)
      intro atom state' hgroups
      exact reading_declares hgroups (Skims.outside (finishTerm_skims _ _))

lemma parseTerms_declares (rounds : ℕ) (terms : List Term) :
    Declares context (parseTerms context budget nested rounds terms) := by
  induction rounds generalizing terms with
  | zero => exact .pure _
  | succ rounds ih =>
    intro state
    rw [parseTerms]
    apply reading_ok_bind rfl
    apply reading_ok_bind rfl
    refine .ite (fun _ => .pure rfl) fun _ => ?_
    apply Ensures.bind (parseTerm_declares hmode hsets hnested _)
    intro term state' hgroups
    apply (ih _ state').mono
    intro _ _ hrest
    exact hrest.trans hgroups

lemma parseAlternative_declares : Declares context (parseAlternative context budget nested) := by
  intro state
  apply reading_ok_bind rfl
  apply reading_ok_bind rfl
  apply Ensures.bind (parseTerms_declares hmode hsets hnested _ [] state)
  intro terms state' hgroups
  apply reading_ok_bind rfl
  exact .pure hgroups

lemma parseAlternatives_declares (disjunction rounds index : ℕ) (alternatives : List Alternative) :
    Declares context
      (parseAlternatives context budget nested disjunction rounds index alternatives) := by
  induction rounds generalizing index alternatives with
  | zero => exact .pure _
  | succ rounds ih =>
    intro state
    rw [parseAlternatives]
    apply Ensures.modify_bind
    apply Ensures.bind (parseAlternative_declares hmode hsets hnested _)
    intro alternative state' hgroups
    apply Ensures.modify_bind
    have hbar : Declares context (reading (eat context "|")) :=
      .reading fun _ => .eat (units_ordinary rfl)
    apply Ensures.bind (hbar _)
    intro more state'' hgroups'
    apply Ensures.ite
    · intro _
      apply (ih _ _ state'').mono
      intro _ _ hrest
      exact hrest.trans (hgroups'.trans hgroups)
    · intro _
      exact .pure (hgroups'.trans hgroups)

end Nested

include hmode hsets

/-- Without the `u` and `v` flags, a disjunction declares the groups that the scans see in it. -/
theorem parseDisjunction_declares (budget : ℕ) : Declares context (parseDisjunction context budget) := by
  induction budget with
  | zero =>
    intro state
    rw [parseDisjunction]
    apply reading_ok_bind rfl
    exact .throw _
  | succ budget ih =>
    intro state
    rw [parseDisjunction]
    apply Ensures.get_bind
    apply Ensures.modify_bind
    apply reading_ok_bind rfl
    apply Ensures.bind (parseAlternatives_declares hmode hsets ih _ _ _ _ _)
    intro alternatives state' hgroups
    exact .pure hgroups

/-- The captures of a whole parse are the groups of the source. -/
lemma parseWhole_captures {body : Disjunction}
    (h : parseWhole context initialState = .ok (body, state)) :
    state.captures.map (·.name.isSome) = groupStarts false context.source := by
  have hwhole : Ensures (parseWhole context) initialState fun _ state' =>
      state'.captures.map (·.name.isSome) = groupStarts false context.source := by
    apply Ensures.bind (parseDisjunction_declares hmode hsets _ _)
    intro body state' hgroups
    apply reading_ok_bind rfl
    apply Ensures.ite
    · intro _
      apply reading_ok_bind rfl
      exact .throw _
    · intro hdone
      rw [not_eq_true, not_eq_false', decide_eq_true_iff] at hdone
      apply Ensures.pure
      rw [groupsOf, startsFrom, drop_eq_nil_of_le hdone, groupStarts, append_nil] at hgroups
      exact hgroups
  exact hwhole.ends body state h

end Productions

/-! ## The scans and the parse -/

/-- The flags that are seen are those of the text. -/
lemma parseFlagsLoop_seen {text seen seen' : List CodeUnit} {index : ℕ}
    (h : parseFlagsLoop text index seen = .ok seen') : seen' = seen ++ text := by
  induction text generalizing index seen with
  | nil =>
    cases h
    exact (append_nil _).symm
  | cons character text ih =>
    rw [parseFlagsLoop] at h
    split at h
    · cases h
    · split at h
      · cases h
      · rw [ih h, append_assoc, singleton_append]

lemma parseFlags_mode {text : List CodeUnit} {flags : Flags} (h : parseFlags text = .ok flags)
    (hunicode : codeUnit 'u' ∉ text) (hsets : codeUnit 'v' ∉ text) :
    flags.unicode = false ∧ flags.unicodeSets = false := by
  unfold parseFlags at h
  cases hseen : parseFlagsLoop text 0 [] with
  | error error =>
    rw [hseen] at h
    cases h
  | ok seen =>
    rw [hseen] at h
    have htext := parseFlagsLoop_seen hseen
    rw [nil_append] at htext
    subst htext
    have hu : seen.contains (codeUnit 'u') = false :=
      eq_false_iff.mpr fun hmem => hunicode (contains_iff_mem.mp hmem)
    have hv : seen.contains (codeUnit 'v') = false :=
      eq_false_iff.mpr fun hmem => hsets (contains_iff_mem.mp hmem)
    change (if seen.contains (codeUnit 'u') && seen.contains (codeUnit 'v') then _ else _) = _ at h
    rw [hu, hv, Bool.false_and, if_neg Bool.false_ne_true] at h
    cases h
    exact ⟨hu, hv⟩

/-- A pattern that is accepted was parsed from its source. -/
lemma parseRegExpPattern_ok {input : PatternInput} {pattern : Pattern}
    (h : parseRegExpPattern input = .ok pattern) :
    ∃ flags, parseFlags input.flags = .ok flags ∧ ∃ body state,
      parseWhole (patternContext input flags) initialState = .ok (body, state) ∧
      finishPattern (patternContext input flags) body state = .ok pattern := by
  unfold parseRegExpPattern at h
  split at h
  · cases h
  · split at h
    · cases h
    · next flags hflags =>
      split at h
      · cases h
      · next body state hparse =>
        refine ⟨flags, hflags, body, state, hparse, ?_⟩
        cases hfinish : finishPattern (patternContext input flags) body state with
        | error errors =>
          rw [hfinish] at h
          cases h
        | ok pattern' =>
          rw [hfinish] at h
          cases h
          rfl

lemma finishPattern_captures {body : Disjunction} {state : ParseState} {pattern : Pattern}
    (h : finishPattern context body state = .ok pattern) : pattern.captures = state.captures := by
  unfold finishPattern at h
  dsimp only at h
  split at h
  · cases h
  · cases h
    rfl

/-- Without the `u` and `v` flags the scans agree with the parse of an accepted pattern: they count
its captures, and find a name if one of them has a name. The parse took every escape for what these
captures make it. -/
theorem scans_agree {input : PatternInput} {pattern : Pattern} (hannexB : input.annexB = true)
    (hunicode : codeUnit 'u' ∉ input.flags) (hsets : codeUnit 'v' ∉ input.flags)
    (h : parseRegExpPattern input = .ok pattern) :
    countCapturingGroups input.source = pattern.captures.length ∧
    (scanForGroupName input.source = true ↔ ∃ capture ∈ pattern.captures, capture.name.isSome) ∧
    ∃ flags body state, parseFlags input.flags = .ok flags ∧
      let context := { patternContext input flags with
        captureCount := pattern.captures.length
        groupNameDeclared := pattern.captures.any (·.name.isSome) }
      parseWhole context initialState = .ok (body, state) ∧
        finishPattern context body state = .ok pattern := by
  obtain ⟨flags, hflags, body, state, hparse, hfinish⟩ := parseRegExpPattern_ok h
  obtain ⟨hu, hv⟩ := parseFlags_mode hflags hunicode hsets
  have hmode : (patternContext input flags).unicodeMode = false := by
    show (flags.unicode || flags.unicodeSets) = false
    rw [hu, hv, Bool.or_false]
  have hgroups := parseWhole_captures hmode hv hparse
  rw [← finishPattern_captures hfinish] at hgroups
  change _ = groupStarts false input.source at hgroups
  have hcount : countCapturingGroups input.source = pattern.captures.length := by
    rw [countCapturingGroups, countGroupsLoop_eq, Nat.zero_add, ← hgroups, length_map]
  have hname : scanForGroupName input.source = pattern.captures.any (·.name.isSome) := by
    rw [scanForGroupName, scanGroupNameLoop_eq, ← hgroups, any_map]
    rfl
  refine ⟨hcount, ?_, flags, body, state, hflags, ?_⟩
  · rw [hname, any_eq_true]
  · have hcontext : { patternContext input flags with
        captureCount := pattern.captures.length
        groupNameDeclared := pattern.captures.any (·.name.isSome) } = patternContext input flags := by
      unfold patternContext at hmode ⊢
      dsimp only at hmode ⊢
      rw [hmode, hannexB, ← hcount, ← hname]
      rfl
    rw [hcontext]
    exact ⟨hparse, hfinish⟩

/-- A named group, a parenthesis inside of a class, and decimal escapes on both sides of the count. -/
def scannedInput : PatternInput :=
  ⟨units "(?<a>x)\\k<a>[(](y)\\2\\3", [], true, ⟨[], none, none, none⟩, ⟨100, 100, 100, 100⟩⟩

theorem scans_agree_escapes : ∃ pattern, parseRegExpPattern scannedInput = .ok pattern ∧
    countCapturingGroups scannedInput.source = pattern.captures.length ∧
    (scanForGroupName scannedInput.source = true ↔
      ∃ capture ∈ pattern.captures, capture.name.isSome) ∧
    ∃ flags body state, parseFlags scannedInput.flags = .ok flags ∧
      let context := { patternContext scannedInput flags with
        captureCount := pattern.captures.length
        groupNameDeclared := pattern.captures.any (·.name.isSome) }
      parseWhole context initialState = .ok (body, state) ∧
        finishPattern context body state = .ok pattern := by
  have hok : (parseRegExpPattern scannedInput).isOk = true := by decide +kernel
  cases hparse : parseRegExpPattern scannedInput with
  | error _ =>
    rw [hparse] at hok
    cases hok
  | ok pattern =>
    exact ⟨pattern, rfl, scans_agree rfl not_mem_nil not_mem_nil hparse⟩

end Oseo.RegExpParsing
