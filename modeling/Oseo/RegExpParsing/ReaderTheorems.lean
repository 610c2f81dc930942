import Oseo.RegExpParsing.DuplicateNames

/-!
# What readers pass

The textual scans see a text as the list of the groups it introduces (`groupStarts`). A function
that moves the cursor passes units that introduce no group, inside a class and outside of one
(`Passes`): names, digits, quantifiers, and an escape together with the unit that its backslash hides
from the scans.
-/

namespace Oseo.RegExpParsing

open Nat
open Bool
open List
open Oseo.RegExpMatcher
open Oseo.Library (Ensures)
open Oseo.UriCoding (codeUnit between between_iff)

variable {context : ParseContext} {text : List CodeUnit} {unit : CodeUnit} {i j k low start : ℕ}

/-! ## Group introducers -/

/-- What an opening parenthesis introduces: a capturing group, with a name or without one. -/
def groupStart (text : List CodeUnit) : Option Bool :=
  if !isCharacter text[0]? '?' then some false
  else if !isCharacter text[1]? '<' then none
  else if !isCharacter text[2]? '=' && !isCharacter text[2]? '!' then some true
  else none

/-- The groups that a text introduces, from inside a class on or from outside. -/
def groupStarts : (insideClass : Bool) → (text : List CodeUnit) → List Bool
  | _, [] => []
  | insideClass, character :: text =>
    if character = codeUnit '\\' then
      match text with
      | [] => []
      | _ :: text => groupStarts insideClass text
    else if insideClass then groupStarts (character ≠ codeUnit ']') text
    else if character = codeUnit '[' then groupStarts true text
    else if character ≠ codeUnit '(' then groupStarts false text
    else (groupStart text).toList ++ groupStarts false text

lemma countGroupsLoop_eq (insideClass : Bool) (text : List CodeUnit) (count : ℕ) :
    countGroupsLoop insideClass text count = count + (groupStarts insideClass text).length := by
  fun_induction groupStarts insideClass text generalizing count with
  | case1 => rfl
  | case2 => rfl
  | case3 _ _ _ ih => exact ih count
  | case4 text character hescape ih =>
    rw [countGroupsLoop.eq_def]
    simp only [hescape, ↓reduceIte, ih]
  | case5 insideClass text hescape hinside ih =>
    rw [countGroupsLoop.eq_def]
    simp only [hescape, hinside, false_eq_true, ↓reduceIte, ih]
  | case6 insideClass character text hescape hinside hclass hgroup ih =>
    rw [countGroupsLoop.eq_def]
    simp only [hescape, hinside, hclass, if_pos hgroup, false_eq_true, ↓reduceIte, ih]
  | case7 insideClass character text hescape hinside hclass hgroup ih =>
    rw [countGroupsLoop.eq_def]
    simp only [hescape, hinside, hclass, if_neg hgroup, false_eq_true, ↓reduceIte, groupStart, ih]
    split_ifs <;> simp +arith

lemma scanGroupNameLoop_eq (insideClass : Bool) (text : List CodeUnit) :
    scanGroupNameLoop insideClass text = (groupStarts insideClass text).any id := by
  fun_induction groupStarts insideClass text with
  | case1 => rfl
  | case2 => rfl
  | case3 _ _ _ ih => exact ih
  | case4 text character hescape ih =>
    rw [scanGroupNameLoop.eq_def]
    simp only [hescape, ↓reduceIte, ih]
  | case5 insideClass text hescape hinside ih =>
    rw [scanGroupNameLoop.eq_def]
    simp only [hescape, hinside, false_eq_true, ↓reduceIte, ih]
  | case6 insideClass character text hescape hinside hclass hgroup ih =>
    rw [scanGroupNameLoop.eq_def]
    simp only [hescape, hinside, hclass, if_pos hgroup, false_eq_true, ↓reduceIte, ih]
  | case7 insideClass character text hescape hinside hclass hgroup ih =>
    rw [scanGroupNameLoop.eq_def]
    simp only [hescape, hinside, hclass, if_neg hgroup, false_eq_true, ↓reduceIte, groupStart, ih]
    split_ifs <;> simp_all

/-! ## Passed units -/

/-- The groups from an index of the source on. -/
def startsFrom (context : ParseContext) (insideClass : Bool) (index : ℕ) : List Bool :=
  groupStarts insideClass (context.source.drop index)

/-- No group is introduced between two indices, inside a class or outside of one. -/
def Passes (context : ParseContext) (i j : ℕ) : Prop :=
  ∀ insideClass, startsFrom context insideClass i = startsFrom context insideClass j

lemma Passes.refl (i : ℕ) : Passes context i i := fun _ => rfl

lemma Passes.symm (h : Passes context i j) : Passes context j i :=
  fun insideClass => (h insideClass).symm

lemma Passes.trans (h : Passes context i j) (h' : Passes context j k) : Passes context i k :=
  fun insideClass => (h insideClass).trans (h' insideClass)

/-- Units that neither scan looks at. -/
structure Ordinary (unit : CodeUnit) : Prop where
  notEscape : unit ≠ codeUnit '\\'
  notOpen : unit ≠ codeUnit '['
  notClose : unit ≠ codeUnit ']'
  notGroup : unit ≠ codeUnit '('

lemma ordinary_of_toNat (h : unit.toNat ≠ 92 ∧ unit.toNat ≠ 91 ∧ unit.toNat ≠ 93 ∧ unit.toNat ≠ 40) :
    Ordinary unit := by
  obtain ⟨hescape, hopen, hclose, hgroup⟩ := h
  constructor
  · rintro rfl
    exact hescape rfl
  · rintro rfl
    exact hopen rfl
  · rintro rfl
    exact hclose rfl
  · rintro rfl
    exact hgroup rfl

lemma drop_unit (h : context.source[i]? = some unit) :
    context.source.drop i = unit :: context.source.drop (i + 1) := by
  obtain ⟨hlt, hunit⟩ := List.getElem?_eq_some_iff.mp h
  rw [List.drop_eq_getElem_cons hlt, hunit]

lemma drop_end (h : context.source[i]? = none) : context.source.drop i = [] :=
  drop_eq_nil_of_le (getElem?_eq_none_iff.mp h)

/-- A text that follows starts with its first unit. -/
lemma unit_of_eaten (unit : CodeUnit) (expected : List CodeUnit)
    (h : unit :: expected <+: context.source.drop i) : context.source[i]? = some unit := by
  obtain ⟨rest, hrest⟩ := h
  rw [← head?_drop, ← hrest]
  rfl

lemma eaten_of_unit (h : context.source[i]? = some unit) : [unit] <+: context.source.drop i := by
  rw [drop_unit h]
  exact ⟨_, rfl⟩

lemma passes_unit (h : context.source[i]? = some unit) (hunit : Ordinary unit) :
    Passes context i (i + 1) := by
  intro insideClass
  unfold startsFrom
  rw [drop_unit h, groupStarts.eq_def]
  dsimp only
  rw [if_neg hunit.notEscape, if_neg hunit.notOpen, if_pos hunit.notGroup,
    decide_eq_true hunit.notClose]
  cases insideClass with
  | false => rfl
  | true => rfl

/-- A backslash hides the unit after it. -/
lemma passes_escape (h : context.source[i]? = some (codeUnit '\\')) : Passes context i (i + 2) := by
  intro insideClass
  unfold startsFrom
  rw [drop_unit h, groupStarts.eq_def]
  dsimp only
  rw [if_pos rfl]
  cases hnext : context.source[i + 1]? with
  | none =>
    rw [drop_end hnext, drop_eq_nil_of_le]
    · rfl
    · have hend := getElem?_eq_none_iff.mp hnext
      omega
  | some next => rw [drop_unit hnext]

/-- Units that are all ordinary. -/
lemma passes_units {passed : List CodeUnit} (h : passed <+: context.source.drop i)
    (hunits : ∀ unit ∈ passed, Ordinary unit) : Passes context i (i + passed.length) := by
  induction passed generalizing i with
  | nil => exact .refl i
  | cons unit passed ih =>
    have hunit := unit_of_eaten unit passed h
    obtain ⟨rest, hrest⟩ := h
    rw [drop_unit hunit, cons_append, cons_inj_right] at hrest
    apply (passes_unit hunit (hunits unit mem_cons_self)).trans
    rw [length_cons, add_comm passed.length, ← add_assoc]
    exact ih ⟨rest, hrest⟩ fun unit hmem => hunits unit (mem_cons_of_mem _ hmem)

/-! ## Characters -/

lemma isCharacter_iff {character : Option CodeUnit} {expected : Char} :
    isCharacter character expected = true ↔ character = some (codeUnit expected) :=
  decide_eq_true_iff

/-- A test that no unit passes that the scans look at. -/
def avoids (test : CodeUnit → Bool) : Bool := (units "\\[](").all fun unit => !test unit

lemma ordinary_of_avoids (test : CodeUnit → Bool) (havoids : avoids test = true)
    (h : test unit = true) : Ordinary unit := by
  have hnot : unit ∉ units "\\[](" := by
    intro hmem
    have hfails := all_eq_true.mp havoids unit hmem
    rw [h] at hfails
    cases hfails
  constructor
  · rintro rfl
    exact hnot (by decide)
  · rintro rfl
    exact hnot (by decide)
  · rintro rfl
    exact hnot (by decide)
  · rintro rfl
    exact hnot (by decide)

/-- A character that passes such a test is an ordinary unit. -/
lemma ordinary_of_test {character : Option CodeUnit} {test : Option CodeUnit → Bool}
    (h : test character = true) (hnone : test none = false)
    (havoids : avoids (fun unit => test (some unit)) = true) :
    ∃ unit, character = some unit ∧ Ordinary unit := by
  cases character with
  | none =>
    rw [hnone] at h
    cases h
  | some unit => exact ⟨unit, rfl, ordinary_of_avoids _ havoids h⟩

/-- The units of a text without any that the scans look at. -/
lemma units_ordinary {expected : String} (havoids : avoids (units expected).contains = true) :
    ∀ unit ∈ units expected, Ordinary unit :=
  fun _ hmem => ordinary_of_avoids _ havoids (contains_iff_mem.mpr hmem)

/-! ## Readers -/

section Readers

variable {α β : Type} {read : Read α} {post : β → ℕ → Prop}

/-- An index since `i`, with no group between, that is not below `low`. -/
structure Reaches (context : ParseContext) (i low j : ℕ) : Prop where
  passes : Passes context i j
  above : low ≤ j

lemma Reaches.forward (h : Reaches context i low k) (hpasses : Passes context k j) (hle : k ≤ j) :
    Reaches context i low j :=
  ⟨h.passes.trans hpasses, h.above.trans hle⟩

/-- A reader that reaches an index wherever it starts from such an index. -/
def Skims (context : ParseContext) (i low : ℕ) (read : Read α) : Prop :=
  ∀ k, Reaches context i low k → Ensures read k fun _ j => Reaches context i low j

/-- The unit at the cursor is looked at first. -/
lemma unitAt_bind {next : Option CodeUnit → Read β} {offset : ℕ}
    (h : Ensures (next context.source[k + offset]?) k post) :
    Ensures (unitAt context offset >>= next) k post :=
  ⟨h.ends⟩

lemma advance_bind {next : Unit → Read β} {count : ℕ} (h : Ensures (next ()) (k + count) post) :
    Ensures (advance count >>= next) k post :=
  ⟨h.ends⟩

lemma spanFrom_bind {next : Span → Read β} (h : Ensures (next ⟨start, k⟩) k post) :
    Ensures (spanFrom start >>= next) k post :=
  ⟨h.ends⟩

lemma roundsLeft_bind {next : ℕ → Read β}
    (h : Ensures (next (context.source.length - k + 1)) k post) :
    Ensures (roundsLeft context >>= next) k post :=
  ⟨h.ends⟩

lemma done_bind {next : Bool → Read β} (h : Ensures (next (context.source.length ≤ k)) k post) :
    Ensures (done context >>= next) k post :=
  ⟨h.ends⟩

lemma follows_bind {next : Bool → Read β} {expected : String}
    (h : Ensures (next ((units expected).isPrefixOf (context.source.drop k))) k post) :
    Ensures (follows context expected >>= next) k post :=
  ⟨h.ends⟩

/-- A text is eaten or the cursor stays. -/
lemma eat_bind {next : Bool → Read β} {expected : String}
    (h : units expected <+: context.source.drop k →
      Ensures (next true) (k + (units expected).length) post)
    (h' : ¬units expected <+: context.source.drop k → Ensures (next false) k post) :
    Ensures (eat context expected >>= next) k post := by
  unfold eat
  rw [bind_assoc]
  apply follows_bind
  have hlength : (units expected).length = expected.length := by
    rw [units, length_map, String.length_toList]
  by_cases heaten : units expected <+: context.source.drop k
  · rw [hlength] at h
    rw [List.isPrefixOf_iff_prefix.mpr heaten]
    exact ⟨(h heaten).ends⟩
  · rw [eq_false_iff.mpr fun hfollows => heaten (List.isPrefixOf_iff_prefix.mp hfollows)]
    exact ⟨(h' heaten).ends⟩

namespace Skims

lemma reaches (hk : Reaches context i low k) (h : Skims context i low read) :
    Ensures read k fun _ j => Reaches context i low j :=
  h k hk

lemma bind {next : α → Read β} (h : Skims context i low read) (hnext : ∀ value, Skims context i low (next value)) :
    Skims context i low (read >>= next) :=
  fun k hk => .bind (h k hk) fun value j hj => hnext value j hj

lemma pure (value : α) : Skims context i low (Pure.pure value) := fun _ hk => .pure hk

lemma fail (kind : ErrorKind) (message : String) (location : Span) :
    Skims context i low (fail kind message location : Read α) :=
  fun _ _ => .throw _

lemma refuseAnnexB (invalidMessage subject : String) (location : Span) :
    Skims context i low (refuseAnnexB context invalidMessage subject location : Read α) :=
  fun _ _ => .throw _

lemma ite {condition : Prop} [Decidable condition] {read' : Read α} (h : Skims context i low read)
    (h' : Skims context i low read') : Skims context i low (if condition then read else read') := by
  split
  · exact h
  · exact h'

lemma spanFrom (start : ℕ) : Skims context i low (spanFrom start) := fun _ hk => ⟨fun _ _ hrun => by
  cases hrun
  exact hk⟩

lemma unitAt (offset : ℕ) : Skims context i low (unitAt context offset) := fun _ hk => ⟨fun _ _ hrun => by
  cases hrun
  exact hk⟩

/-- The unit at the cursor is looked at first. -/
lemma unitAt_bind {next : Option CodeUnit → Read β} (h : ∀ k, Reaches context i low k →
    Ensures (next context.source[k]?) k fun _ j => Reaches context i low j) :
    Skims context i low (RegExpParsing.unitAt context 0 >>= next) :=
  fun k hk => ⟨(h k hk).ends⟩

/-- An ordinary unit is passed. -/
lemma advance_bind {next : Unit → Read β} (hk : Reaches context i low k)
    (hunit : context.source[k]? = some unit) (hordinary : Ordinary unit)
    (h : Skims context i low (next ())) :
    Ensures (RegExpParsing.advance 1 >>= next) k fun _ j => Reaches context i low j :=
  ⟨(h (k + 1) (hk.forward (passes_unit hunit hordinary) (le_succ k))).ends⟩

lemma eat {expected : String} (hordinary : ∀ unit ∈ units expected, Ordinary unit) :
    Skims context i low (eat context expected) := by
  intro k hk
  rw [← bind_pure (RegExpParsing.eat context expected)]
  apply eat_bind
  · intro heaten
    exact .pure (hk.forward (passes_units heaten hordinary) (le_add_right _ _))
  · intro _
    exact .pure hk

lemma readWhile {test : Option CodeUnit → Bool}
    (havoids : avoids (fun unit => test (some unit)) = true) :
    Skims context i low (readWhile context test) := by
  intro k hk
  apply Ensures.get_bind
  apply RegExpParsing.advance_bind
  apply Ensures.pure
  apply hk.forward _ (le_add_right _ _)
  apply passes_units (List.takeWhile_prefix _)
  intro unit hmem
  exact ordinary_of_avoids _ havoids (all_eq_true.mp all_takeWhile unit hmem)

end Skims

end Readers

/-! ## Escapes -/

lemma readHexValue_skims (digits : ℕ) : Skims context i low (readHexValue context digits) := by
  intro k hk
  apply Ensures.get_bind
  apply Ensures.ite
  · intro hdigits
    rw [and_eq_true, decide_eq_true_iff] at hdigits
    obtain ⟨hlength, hhex⟩ := hdigits
    apply advance_bind
    apply Ensures.pure
    apply hk.forward _ (le_add_right _ _)
    have hpassed := passes_units (List.take_prefix digits (context.source.drop k)) fun unit hmem =>
      ordinary_of_avoids (isHexDigit ∘ some) rfl (all_eq_true.mp hhex unit hmem)
    rw [hlength] at hpassed
    exact hpassed
  · intro _
    exact .pure hk

lemma readUnicodeEscape_skims (unicodeSyntax : Bool) (start : ℕ) :
    Skims context i low (readUnicodeEscape context unicodeSyntax start) := by
  apply Skims.unitAt_bind
  intro k hk
  apply Ensures.ite
  · intro hbrace
    rw [and_eq_true, isCharacter_iff] at hbrace
    apply Skims.advance_bind hk hbrace.2 (ordinary_of_toNat (by decide))
    apply Skims.bind (.readWhile rfl)
    intro digits
    apply Skims.unitAt_bind
    intro k hk
    apply Ensures.ite
    · intro _
      apply spanFrom_bind
      exact .throw _
    · intro hclosed
      rw [not_eq_true, or_eq_false_iff, not_eq_false', isCharacter_iff] at hclosed
      apply Skims.advance_bind hk hclosed.2 (ordinary_of_toNat (by decide))
      apply Skims.ite
      · exact .bind (.spanFrom _) fun _ => .fail _ _ _
      · exact .pure _
  · intro _
    apply Skims.reaches hk
    apply Skims.bind (readHexValue_skims 4)
    intro value
    cases value with
    | none =>
      apply Skims.bind (.spanFrom _)
      intro location
      exact .ite (.fail _ _ _) (.ite (.pure _) (.refuseAnnexB _ _ _))
    | some value =>
      intro k hk
      apply follows_bind
      apply Ensures.ite
      · intro hpair
        rw [and_eq_true, isPrefixOf_iff_prefix] at hpair
        have hescape := unit_of_eaten (codeUnit '\\') [codeUnit 'u'] hpair.2
        apply Ensures.get_bind
        apply advance_bind
        apply Ensures.bind (readHexValue_skims 4 _ (hk.forward (passes_escape hescape) (le_add_right _ _)))
        intro trail j hj
        refine .ite (fun _ => .pure hj) fun _ => ?_
        exact .set_bind (.pure hk)
      · intro _
        exact .pure hk

/-- A unit that an escape starts with is passed. -/
lemma reaches_next (i : ℕ) : Reaches context (i + 1) i (i + 1) := ⟨.refl _, le_succ i⟩

lemma readLegacyOctalEscape_reaches : Ensures (readLegacyOctalEscape context) k fun _ j =>
    Reaches context (k + 1) k j := by
  apply unitAt_bind
  apply advance_bind
  apply Skims.reaches (reaches_next k)
  apply Skims.unitAt_bind
  intro j hj
  refine .ite (fun _ => .pure hj) fun hsecond => ?_
  rw [not_eq_true, not_eq_false'] at hsecond
  obtain ⟨second, hunit, hordinary⟩ := ordinary_of_test hsecond rfl rfl
  apply Skims.advance_bind hj hunit hordinary
  apply Skims.unitAt_bind
  intro j hj
  refine .ite (fun _ => .pure hj) fun hthird => ?_
  rw [not_eq_true, or_eq_false_iff, not_eq_false'] at hthird
  obtain ⟨third, hunit, hordinary⟩ := ordinary_of_test hthird.2 rfl rfl
  exact Skims.advance_bind hj hunit hordinary (.pure _)

/-- The letter of `\c` is passed with it, and a `\c` without one stands before its `c`. -/
lemma readControlLetter_reaches (inClass : Bool) (h : context.source[k]? = some (codeUnit 'c')) :
    Ensures (readControlLetter context start inClass) k fun _ j => Reaches context (k + 1) k j := by
  have hletter : ∀ {test : Option CodeUnit → Bool}, test context.source[k + 1]? = true →
      test none = false → avoids (fun unit => test (some unit)) = true →
      Reaches context (k + 1) k (k + 2) := by
    intro test htest hnone havoids
    obtain ⟨unit, hunit, hunit'⟩ := ordinary_of_test htest hnone havoids
    exact (reaches_next k).forward (passes_unit hunit hunit') (le_succ _)
  apply Ensures.get_bind
  apply unitAt_bind
  apply Ensures.ite
  · intro hascii
    apply advance_bind
    exact .pure (hletter hascii rfl rfl)
  · intro _
    apply Ensures.ite
    · intro _
      apply Ensures.ite
      · intro hclass
        rw [and_eq_true, or_eq_true] at hclass
        apply advance_bind
        apply Ensures.pure
        rcases hclass.2 with hdigit | hline
        · exact hletter hdigit rfl rfl
        · exact @hletter (fun character => isCharacter character '_') hline rfl rfl
      · intro _
        have hpassed := passes_unit h (ordinary_of_toNat (by decide))
        exact .pure ⟨hpassed.symm, le_refl k⟩
    · intro _
      exact .throw _

/-- A character is one unit. -/
lemma readCharacter_ends (hmode : context.unicodeMode = false) :
    Ensures (readCharacter context) k fun _ j => j = k + 1 := by
  apply Ensures.get_bind
  rw [hmode]
  have hsmall : (characterAt context.source k false).getD 0 ≤ 0xffff := by
    unfold characterAt charCodeAt
    cases context.source[k]? with
    | none => exact zero_le _
    | some unit => exact le_of_lt_succ unit.toNat_lt
  dsimp only
  rw [if_neg hsmall.not_gt]
  apply advance_bind
  apply spanFrom_bind
  exact .pure rfl

/-- Code points that are no unit the scans look at. -/
def OrdinaryPoint (codePoint : ℕ) : Prop :=
  codePoint ≠ 92 ∧ codePoint ≠ 91 ∧ codePoint ≠ 93 ∧ codePoint ≠ 40

/-- What may stand in a name is ordinary. -/
lemma identifierProperty_ends {codePoint : ℕ} {isStart : Bool} {subject : String} {location : Span} :
    Ensures (identifierProperty context codePoint isStart subject location) k fun admitted j =>
      j = k ∧ (admitted = true → OrdinaryPoint codePoint) := by
  apply Ensures.ite
  · intro hascii
    have hpoint : Ordinary (UInt16.ofNat codePoint) → OrdinaryPoint codePoint := by
      rintro ⟨hescape, hopen, hclose, hgroup⟩
      refine ⟨?_, ?_, ?_, ?_⟩
      · rintro rfl
        exact hescape rfl
      · rintro rfl
        exact hopen rfl
      · rintro rfl
        exact hclose rfl
      · rintro rfl
        exact hgroup rfl
    apply Ensures.ite
    · intro hletter
      exact .pure ⟨rfl, fun _ => hpoint (ordinary_of_avoids (fun unit => isAsciiLetter (some unit)) rfl hletter)⟩
    · intro _
      apply Ensures.ite
      · intro _
        exact .pure ⟨rfl, fun hfalse => absurd hfalse false_ne_true⟩
      · intro _
        refine .pure ⟨rfl, fun hpart => ?_⟩
        exact hpoint (ordinary_of_avoids
          (fun unit => between '0' '9' unit || unit = codeUnit '_') rfl hpart)
  · intro hlarge
    cases if isStart then context.extensions.identifierStart else context.extensions.identifierPart with
    | none => exact .throw _
    | some classify =>
      refine .pure ⟨rfl, fun _ => ?_⟩
      unfold OrdinaryPoint
      omega

lemma readIdentityEscape_ends (hmode : context.unicodeMode = false) :
    Ensures (readIdentityEscape context start) k fun _ j => j = k + 1 := by
  apply Ensures.bind (readCharacter_ends hmode)
  rintro ⟨escaped, span⟩ _ rfl
  apply spanFrom_bind
  rw [hmode, if_neg Bool.false_ne_true]
  apply Ensures.check
  intro _
  refine .ite (fun _ => .pure rfl) fun _ => ?_
  apply Ensures.bind identifierProperty_ends
  rintro admitted _ ⟨rfl, -⟩
  apply Ensures.check
  intro _
  exact .pure rfl

lemma readCharacterEscape_reaches (hmode : context.unicodeMode = false) (inClass : Bool) :
    Ensures (readCharacterEscape context start inClass) k fun _ j => Reaches context (k + 1) k j := by
  apply unitAt_bind
  rw [add_zero]
  cases hunit : context.source[k]? with
  | none =>
    apply spanFrom_bind
    exact .throw _
  | some unit =>
    dsimp only
    cases controlEscapes.lookup unit with
    | some control =>
      apply advance_bind
      exact .pure (reaches_next k)
    | none =>
      apply Ensures.ite
      · intro hcontrol
        rw [isCharacter_iff] at hcontrol
        rw [hcontrol] at hunit
        exact readControlLetter_reaches inClass hunit
      · intro _
        refine .ite (fun _ => readLegacyOctalEscape_reaches) fun _ => ?_
        apply Ensures.ite
        · intro _
          apply unitAt_bind
          apply Ensures.ite
          · intro _
            apply Ensures.get_bind
            exact .throw _
          · intro _
            apply advance_bind
            exact .pure (reaches_next k)
        · intro _
          apply Ensures.ite
          · intro _
            apply advance_bind
            apply Skims.reaches (reaches_next k)
            apply Skims.bind (readHexValue_skims 2)
            intro value
            cases value with
            | some value => exact .pure _
            | none => exact .ite (.pure _) (.bind (.spanFrom _) fun _ => .refuseAnnexB _ _ _)
          · intro _
            apply Ensures.ite
            · intro _
              apply advance_bind
              exact Skims.reaches (reaches_next k) (readUnicodeEscape_skims _ _)
            · intro _
              apply (readIdentityEscape_ends hmode).mono
              rintro _ _ rfl
              exact reaches_next k

/-! ## Names, modifiers and quantifiers -/

lemma ordinary_of_point (h : OrdinaryPoint unit.toNat) : Ordinary unit := ordinary_of_toNat h

/-- A code point is that of its unit, or of a surrogate pair. -/
lemma characterAt_unit (hunit : context.source[k]? = some unit) :
    (characterAt context.source k true).getD 0 = unit.toNat ∨
    0xffff < (characterAt context.source k true).getD 0 ∧ 0xd800 ≤ unit.toNat ∧
      ∃ trail : CodeUnit, context.source[k + 1]? = some trail ∧ 0xdc00 ≤ trail.toNat := by
  unfold characterAt charCodeAt
  rw [hunit, Option.map_some]
  dsimp only
  split
  · exact .inl rfl
  · next hlead =>
    rw [Bool.not_true, Bool.false_or, Bool.not_eq_true, Bool.not_eq_false', isLead, Bool.and_eq_true,
      decide_eq_true_iff] at hlead
    cases htrail : context.source[k + 1]? with
    | none => exact .inl rfl
    | some trail =>
      rw [Option.map_some]
      dsimp only
      split
      · next hisTrail =>
        rw [isTrail, and_eq_true, decide_eq_true_iff] at hisTrail
        refine .inr ⟨?_, hlead.1, trail, rfl, hisTrail.1⟩
        rw [Option.getD_some, pairCodePoint]
        omega
      · exact .inl rfl

/-- A code point is passed with the units it takes. -/
lemma passes_character (hpoint : OrdinaryPoint ((characterAt context.source k true).getD 0)) :
    Passes context k
      (k + if 0xffff < (characterAt context.source k true).getD 0 then 2 else 1) := by
  cases hunit : context.source[k]? with
  | none =>
    intro insideClass
    unfold startsFrom
    have hend := getElem?_eq_none_iff.mp hunit
    rw [drop_end hunit, drop_eq_nil_of_le (by omega)]
  | some unit =>
    rcases characterAt_unit hunit with hvalue | ⟨hpair, hlow, trail, htrail, hlow'⟩
    · rw [hvalue] at hpoint ⊢
      have hlt := unit.toNat_lt
      rw [if_neg (by omega)]
      exact passes_unit hunit (ordinary_of_point hpoint)
    · rw [if_pos hpair]
      exact (passes_unit hunit (ordinary_of_toNat (by omega))).trans
        (passes_unit htrail (ordinary_of_toNat (by omega)))

/-- A code point of a name is passed if it is an ordinary one. -/
lemma readNameCodePoint_reaches (hk : Reaches context i low k) :
    Ensures (readNameCodePoint context) k fun value j =>
      OrdinaryPoint value.1 → Reaches context i low j := by
  apply Ensures.get_bind
  apply eat_bind
  · intro hescape
    rw [if_pos rfl]
    have hunit := unit_of_eaten (codeUnit '\\') [] hescape
    apply eat_bind
    · intro _
      have hpassed := hk.forward (passes_escape hunit) (le_add_right _ _)
      apply Ensures.bind (Skims.reaches hpassed (readUnicodeEscape_skims true k))
      intro value j hj
      exact .pure fun _ => hj
    · intro _
      apply spanFrom_bind
      exact .throw _
  · intro _
    rw [if_neg Bool.false_ne_true]
    apply advance_bind
    apply Ensures.pure
    intro hpoint
    exact hk.forward (passes_character hpoint) (le_add_right _ _)

lemma readGroupNameLoop_skims (rounds : ℕ) (name : List ℕ) :
    Skims context i low (readGroupNameLoop context rounds name) := by
  induction rounds generalizing name with
  | zero => exact .pure _
  | succ rounds ih =>
    intro k hk
    rw [readGroupNameLoop]
    apply done_bind
    apply unitAt_bind
    refine .ite (fun _ => .pure hk) fun _ => ?_
    apply Ensures.bind (readNameCodePoint_reaches hk)
    rintro ⟨codePoint, characterStart⟩ j hj
    apply spanFrom_bind
    -- whatever is admitted is an ordinary code point
    have hrest : ∀ admitted : Bool, (admitted = true → OrdinaryPoint codePoint) →
        Ensures (if !admitted then
            fail .invalid "This character is not allowed in a group name." ⟨characterStart, j⟩
          else readGroupNameLoop context rounds (name ++ [codePoint])) j
          fun _ j => Reaches context i low j := by
      intro admitted hpoint
      apply Ensures.check
      intro hnot
      rw [not_eq_true, not_eq_false'] at hnot
      exact Skims.reaches (hj (hpoint hnot)) (ih _)
    apply Ensures.ite
    · intro hspecial
      rw [pure_bind]
      apply hrest
      intro _
      simp only [or_eq_true, and_eq_true, decide_eq_true_iff] at hspecial
      unfold OrdinaryPoint
      omega
    · intro _
      apply Ensures.bind identifierProperty_ends
      rintro admitted _ ⟨rfl, hpoint⟩
      exact hrest admitted hpoint

lemma readGroupName_skims (start : ℕ) : Skims context i low (readGroupName context start) := by
  intro k hk
  apply eat_bind
  · intro hopen
    have hpassed := hk.forward (passes_units hopen (units_ordinary rfl)) (le_add_right _ _)
    rw [Bool.not_true, if_neg Bool.false_ne_true]
    apply roundsLeft_bind
    apply Skims.reaches hpassed
    apply Skims.bind (readGroupNameLoop_skims _ _)
    intro name
    apply Skims.bind (.eat (units_ordinary rfl))
    intro closed
    exact .ite (.bind (.spanFrom _) fun _ => .fail _ _ _) (.pure _)
  · intro _
    apply spanFrom_bind
    exact .throw _

lemma readModifierFlagsLoop_skims (rounds : ℕ) (selected : List ModifierFlag) :
    Skims context i low (readModifierFlagsLoop context start rounds selected) := by
  induction rounds generalizing selected with
  | zero => exact .pure _
  | succ rounds ih =>
    rw [readModifierFlagsLoop]
    apply Skims.unitAt_bind
    intro k hk
    cases hunit : context.source[k]? with
    | none => exact .pure hk
    | some unit =>
      rw [Option.bind_some]
      cases hflag : modifierFlags.lookup unit with
      | none => exact .pure hk
      | some flag =>
        apply Ensures.ite
        · intro _
          apply Ensures.get_bind
          exact .throw _
        · intro _
          have hfound : (modifierFlags.lookup unit).isSome = true := by rw [hflag, Option.isSome_some]
          apply Skims.advance_bind hk hunit
          · exact ordinary_of_avoids (fun unit => (modifierFlags.lookup unit).isSome) rfl hfound
          · exact ih _

lemma readModifierFlags_skims (start : ℕ) : Skims context i low (readModifierFlags context start) := by
  intro k hk
  apply roundsLeft_bind
  exact Skims.reaches hk (readModifierFlagsLoop_skims _ _)

lemma readBracedQuantifier_skims : Skims context i low (readBracedQuantifier context) := by
  have hdigits : Skims context i low (readDecimalDigits context) :=
    .readWhile rfl
  apply Skims.bind hdigits
  intro minimumDigits
  apply Skims.ite (.pure _)
  apply Skims.bind (.eat (units_ordinary rfl))
  intro comma
  have hclose : ∀ digits : Option (List CodeUnit), Skims context i low (do
      if !(← eat context "\x7d") then pure none
      else
        pure (some (⟨digits.map decimalValue, digits, decimalValue minimumDigits,
          minimumDigits⟩ : QuantifierBounds))) := by
    intro digits
    apply Skims.bind (.eat (units_ordinary rfl))
    intro closed
    exact .ite (.pure _) (.pure _)
  apply Skims.ite
  · apply Skims.bind hdigits
    intro written
    rw [pure_bind]
    exact hclose _
  · rw [pure_bind]
    exact hclose _

lemma finishQuantifier_skims (minimum : ℕ) (maximum : Option ℕ) :
    Skims context i low (finishQuantifier context minimum maximum) := by
  apply Skims.bind (.eat (units_ordinary rfl))
  intro lazy
  exact .pure _

lemma validateQuantifierBounds_skims (bounds : QuantifierBounds) (start : ℕ) :
    Skims context i low (validateQuantifierBounds context bounds start) := by
  apply Skims.bind (.spanFrom _)
  intro location
  exact .ite (.fail _ _ _) (.ite (.fail _ _ _) (.pure _))

lemma parseQuantifier_skims : Skims context i low (parseQuantifier context) := by
  intro start hstart
  apply Ensures.get_bind
  apply unitAt_bind
  rw [add_zero]
  apply Ensures.ite
  · intro hstar
    exact Skims.advance_bind hstart (isCharacter_iff.mp hstar) (ordinary_of_toNat (by decide))
      (finishQuantifier_skims _ _)
  · intro _
    apply Ensures.ite
    · intro hplus
      exact Skims.advance_bind hstart (isCharacter_iff.mp hplus) (ordinary_of_toNat (by decide))
        (finishQuantifier_skims _ _)
    · intro _
      apply Ensures.ite
      · intro hquestion
        exact Skims.advance_bind hstart (isCharacter_iff.mp hquestion)
          (ordinary_of_toNat (by decide)) (finishQuantifier_skims _ _)
      · intro _
        apply Ensures.ite
        · intro hbrace
          apply Skims.advance_bind hstart (isCharacter_iff.mp hbrace)
            (ordinary_of_toNat (by decide))
          apply Skims.bind readBracedQuantifier_skims
          intro braced
          cases braced with
          | none =>
            -- a brace that starts no quantifier is left to be read as a character
            intro k _
            apply Ensures.set_bind
            refine .ite (fun _ => .pure hstart) fun _ => ?_
            exact .throw _
          | some braced =>
            apply Skims.bind (validateQuantifierBounds_skims _ _)
            intro bounds
            exact finishQuantifier_skims _ _
        · intro _
          exact .pure hstart

lemma bracedQuantifierFollows_ends :
    Ensures (bracedQuantifierFollows context) k fun _ j => j = k := by
  apply Ensures.get_bind
  apply advance_bind
  have hread : Ensures (readBracedQuantifier context) (k + 1) fun _ _ => True :=
    ⟨fun _ _ _ => trivial⟩
  apply Ensures.bind hread
  intro braced j _
  apply Ensures.set_bind
  exact .pure rfl

lemma readModifiers_skims (start : ℕ) : Skims context i low (readModifiers context start) := by
  apply Skims.bind (readModifierFlags_skims _)
  intro enabled
  apply Skims.bind (.eat (units_ordinary rfl))
  intro dash
  refine .ite (.bind (readModifierFlags_skims _) ?_) (.bind (.pure _) ?_)
  all_goals
    intro disabled
    apply Skims.bind (.eat (units_ordinary rfl))
    intro colon
    apply Skims.ite
    · intro k _
      apply Ensures.get_bind
      exact .throw _
    · apply Skims.bind (.spanFrom _)
      intro location
      exact .ite (.fail _ _ _) (.ite (.fail _ _ _) (.ite (.fail _ _ _) (.pure _)))

end Oseo.RegExpParsing
