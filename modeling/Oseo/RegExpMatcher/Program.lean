import Mathlib.Data.List.Sort

/-!
# Patterns and matcher programs

The set operations of `regexp-matcher.ts` on inversion lists, the tree `parseRegExpPattern` hands to
the builder, the artifact it becomes, and the reading functions of `regexp-execute.ts`.

* a binary search is given the length of its list as `fuel`, a merge of two lists the number of
  boundaries still to come;
* a maximum of infinity is `none`, and so is a character outside the text (the source has NaN, which
  is in no set and equal to nothing);
* a target field holds a label while instructions are emitted and an address afterwards.
-/

namespace Oseo.RegExpMatcher

/-- The largest Unicode code point. -/
def maximumCodePoint : ℕ := 0x10ffff

/-- One past the largest code point. -/
def codePointLimit : ℕ := maximumCodePoint + 1

/-- An inversion list. -/
abbrev MatcherSet := List ℕ

scoped instance lawfulMatcherSet : LawfulBEq MatcherSet := inferInstance

/-- The loop of `setHas`: the position of the first boundary above `codePoint`. -/
def setHasLoop (set : MatcherSet) (codePoint : ℕ) : (fuel low high : ℕ) → ℕ
  | 0, low, _ => low
  | fuel + 1, low, high =>
    if low < high then
      let middle := (low + high) / 2
      if set[middle]?.getD 0 ≤ codePoint then setHasLoop set codePoint fuel (middle + 1) high
      else setHasLoop set codePoint fuel low middle
    else low

/-- Whether one inversion list holds one code point. -/
def setHas (set : MatcherSet) (codePoint : ℕ) : Bool :=
  setHasLoop set codePoint set.length 0 set.length % 2 = 1

/-- One inclusive code-point range as an inversion list. -/
def setOfRange (start finish : ℕ) : MatcherSet :=
  if start > finish then [] else [start, finish + 1]

/-- The change of depth at a boundary, by the parity of its position. -/
def openingAt (index : ℕ) : ℤ :=
  if index % 2 = 0 then 1 else -1

/-- The loop of `setUnion`. -/
def setUnionLoop (left right : MatcherSet) :
    (fuel leftIndex rightIndex : ℕ) → (depth : ℤ) → List ℕ
  | 0, _, _, _ => []
  | fuel + 1, leftIndex, rightIndex, depth =>
    if leftIndex < left.length ∨ rightIndex < right.length then
      let leftValue := left[leftIndex]?.getD (codePointLimit + 1)
      let rightValue := right[rightIndex]?.getD (codePointLimit + 1)
      let value := min leftValue rightValue
      let atLeft := leftValue = value
      let atRight := rightValue = value
      let opening :=
        (if atLeft then openingAt leftIndex else 0) +
          (if atRight then openingAt rightIndex else 0)
      let rest := setUnionLoop left right fuel (if atLeft then leftIndex + 1 else leftIndex)
        (if atRight then rightIndex + 1 else rightIndex) (depth + opening)
      if depth = 0 ∧ depth + opening > 0 then value :: rest
      else if depth > 0 ∧ depth + opening = 0 then value :: rest
      else rest
    else []

/-- The union of two inversion lists. -/
def setUnion (left right : MatcherSet) : MatcherSet :=
  setUnionLoop left right (left.length + right.length) 0 0 0

/-- A running union: slot `rank` holds the union of a run of `2 ^ rank` lists. -/
abbrev SetUnionSlots := List (Option MatcherSet)

/-- Add one inversion list to a running union, carrying upward. -/
def addSetUnion : SetUnionSlots → (carry : MatcherSet) → SetUnionSlots
  | [], carry => [some carry]
  | none :: slots, carry => some carry :: slots
  | some held :: slots, carry => none :: addSetUnion slots (setUnion held carry)

/-- The union every slot of a running union holds together. -/
def finishSetUnion (slots : SetUnionSlots) : MatcherSet :=
  slots.foldl (fun union held => match held with
    | none => union
    | some set => setUnion union set) []

/-- The loop of `setComplement`, two boundaries a round. -/
def setComplementLoop : (position : ℕ) → MatcherSet → List ℕ
  | position, start :: finish :: rest =>
    (if start > position then [position, start] else []) ++ setComplementLoop finish rest
  | position, _ => if position < codePointLimit then [position, codePointLimit] else []

/-- The complement of one inversion list over the whole code-point range. -/
def setComplement (set : MatcherSet) : MatcherSet :=
  setComplementLoop 0 set

/-- The loop of `combineSets` over its points; the last point only ends the list. -/
def combineSetsLoop (left right : MatcherSet) (choose : Bool → Bool → Bool) :
    (points : List ℕ) → (included : Bool) → List ℕ
  | point :: next :: points, included =>
    let now := choose (setHas left point) (setHas right point)
    (if now ≠ included then [point] else []) ++
      combineSetsLoop left right choose (next :: points) now
  | _, included => if included then [codePointLimit] else []

/-- Membership combined at every boundary of either list. -/
def combineSets (left right : MatcherSet) (choose : Bool → Bool → Bool) : MatcherSet :=
  let points := (0 :: left ++ right ++ [codePointLimit]).dedup.insertionSort (· ≤ ·)
  combineSetsLoop left right choose points false

/-- The intersection of two inversion lists. -/
def setIntersection (left right : MatcherSet) : MatcherSet :=
  combineSets left right fun inLeft inRight => inLeft && inRight

/-- The members of the first inversion list absent from the second. -/
def setDifference (left right : MatcherSet) : MatcherSet :=
  combineSets left right fun inLeft inRight => inLeft && !inRight

/-- The loop of `setOfRanges` over sorted ranges; `boundaries` has its last element first. -/
def setOfRangesLoop : (boundaries : List ℕ) → (ranges : List (ℕ × ℕ)) → List ℕ
  | boundaries, [] => boundaries
  | [], (start, finish) :: ranges => setOfRangesLoop [finish + 1, start] ranges
  | previousEnd :: before, (start, finish) :: ranges =>
    if start ≤ previousEnd then
      if finish + 1 > previousEnd then setOfRangesLoop ((finish + 1) :: before) ranges
      else setOfRangesLoop (previousEnd :: before) ranges
    else setOfRangesLoop ((finish + 1) :: start :: previousEnd :: before) ranges

/-- A normalized inversion list from unsorted inclusive ranges. -/
def setOfRanges (ranges : List (ℕ × ℕ)) : MatcherSet :=
  let sorted := (ranges.filter fun range => range.1 ≤ range.2).insertionSort
    fun first second => first.1 ≤ second.1
  (setOfRangesLoop [] sorted).reverse

/-! ## Named sets -/

/-- The four code points the `LineTerminator` production names. -/
def lineTerminators : MatcherSet :=
  setOfRanges [(0x0a, 0x0a), (0x0d, 0x0d), (0x2028, 0x2029)]

/-- The sixty-three characters `WordCharacters` calls basic. -/
def basicWordCharacters : MatcherSet :=
  setOfRanges [(0x30, 0x39), (0x41, 0x5a), (0x5f, 0x5f), (0x61, 0x7a)]

/-- The decimal digits `\d` names. -/
def decimalDigits : MatcherSet := setOfRange 0x30 0x39

/-- The whitespace `\s` names apart from `General_Category=Space_Separator`. -/
def namedWhiteSpace : MatcherSet :=
  setOfRanges [(0x09, 0x09), (0x0b, 0x0c), (0xfeff, 0xfeff)]

/-! ## Pattern trees -/

/-- A UTF-16 code unit. -/
abbrev CodeUnit := UInt16

/-- A half-open span of UTF-16 code units. -/
structure Span where
  start : ℕ
  finish : ℕ
deriving DecidableEq

/-- The validated flag set of one pattern with its original text. -/
structure Flags where
  dotAll : Bool
  isGlobal : Bool
  hasIndices : Bool
  ignoreCase : Bool
  multiline : Bool
  sticky : Bool
  text : String
  unicode : Bool
  unicodeSets : Bool
deriving DecidableEq

/-- Whether a flag set selects the grammar's UnicodeMode parameter. -/
def regExpUnicodeMode (flags : Flags) : Bool :=
  flags.unicode || flags.unicodeSets

/-- The input-position assertions that consume nothing. -/
inductive AssertionKind
  | finish
  | nonWordBoundary
  | start
  | wordBoundary
deriving DecidableEq

/-- Direction one lookaround assertion searches from the current position. -/
inductive LookaroundDirection
  | ahead
  | behind
deriving DecidableEq

/-- One repetition bound pair with its choice priority. -/
structure Quantifier where
  greedy : Bool
  maximum : Option ℕ
  minimum : ℕ
deriving DecidableEq

/-- The three character class escapes that need no Unicode property name. -/
inductive ClassEscapeSet
  | digit
  | space
  | word
deriving DecidableEq

/-- One `\p{...}` or `\P{...}` escape, as written. -/
structure UnicodePropertyEscape where
  negated : Bool
  property : String
  span : Span
  value : Option String
deriving DecidableEq

/-- One member of a character class body. -/
inductive ClassItem
  | character (value : ℕ) (span : Span)
  | range (start finish : ℕ) (span : Span)
  | classEscape (negated : Bool) (set : ClassEscapeSet) (span : Span)
  | unicodeProperty (escape : UnicodePropertyEscape)
deriving DecidableEq

/-- The operation joining operands in one `v`-mode character class. -/
inductive ClassSetOperation
  | intersection
  | subtraction
  | union
deriving DecidableEq

/-- One operand of a `v`-mode class-set expression. -/
inductive ClassSetOperand
  | item (item : ClassItem)
  | classStrings (strings : List (List ℕ)) (span : Span)
  | classSet (negated : Bool) (operation : ClassSetOperation)
      (operands : List ClassSetOperand) (span : Span)

/-- One flag an inline modifier group may add or remove. -/
inductive ModifierFlag
  | i
  | m
  | s
deriving DecidableEq

mutual

/-- One pattern element that a quantifier may repeat. -/
inductive Atom
  | backreference (index : ℕ) (span : Span)
  | capturingGroup (body : Disjunction) (index : ℕ) (span : Span)
  | character (value : ℕ) (span : Span)
  | characterClass (items : List ClassItem) (negated : Bool) (span : Span)
  | classSet (negated : Bool) (operation : ClassSetOperation)
      (operands : List ClassSetOperand) (span : Span)
  | classEscape (negated : Bool) (set : ClassEscapeSet) (span : Span)
  | dot (span : Span)
  | group (body : Disjunction) (span : Span)
  | modifierGroup (body : Disjunction) (disabled enabled : List ModifierFlag) (span : Span)
  | namedBackreference (indices : List ℕ) (name : String) (span : Span)
  | unicodeProperty (escape : UnicodePropertyEscape)

/-- One element of an alternative. -/
inductive Term
  | atom (atom : Atom)
  | assertion (kind : AssertionKind) (span : Span)
  | lookaround (body : Disjunction) (direction : LookaroundDirection) (negated : Bool)
      (span : Span)
  | quantified (atom : Atom) (quantifier : Quantifier) (span : Span)

/-- An ordered, possibly empty term sequence. -/
inductive Alternative
  | mk (terms : List Term) (span : Span)

/-- Ordered alternatives whose order is the observable choice priority. -/
inductive Disjunction
  | mk (alternatives : List Alternative)

end

/-- One capturing group recorded in ascending index order. -/
structure Capture where
  index : ℕ
  name : Option String
  span : Span
deriving DecidableEq

/-- One validated pattern. -/
structure Pattern where
  body : Disjunction
  captures : List Capture
  flags : Flags
  groupNames : List String
  source : List CodeUnit

/-- Whether a rejected construct is invalid, unadmitted, or over a limit. -/
inductive ErrorKind
  | invalid
  | limit
  | unsupported
deriving DecidableEq

/-- Which text of a pattern one error span addresses. -/
inductive ErrorSection
  | flags
  | pattern
deriving DecidableEq

/-- One rejected construct located inside the pattern. -/
structure PatternError where
  kind : ErrorKind
  message : String
  errorSection : ErrorSection
  span : Span
deriving DecidableEq

/-! ## Matcher programs -/

/-- The two edges an assertion names: `^` and `$`. -/
inductive Edge
  | start
  | finish
deriving DecidableEq

/-- One instruction of a matcher artifact. -/
inductive Instruction
  /-- Consume one character of the input in the instruction's direction. -/
  | consume (backward : Bool) (set : ℕ)
  /-- Assert `^` or `$` at the current position. -/
  | edge (assertion : Edge) (multiline : Bool)
  /-- Assert `\b` or `\B` at the current position. -/
  | boundary (negated : Bool) (set : ℕ)
  /-- Record the current position in one capture register. -/
  | save (slot : ℕ)
  /-- Reset a contiguous capture register range to unset. -/
  | clear (first last : ℕ)
  /-- Try one continuation first and keep the other for backtracking. -/
  | fork (alternative preferred : ℕ)
  | jump (target : ℕ)
  /-- Decide whether one repetition iterates again. -/
  | repetition (counter enter exit : ℕ) (greedy : Bool) (maximum : Option ℕ) (minimum : ℕ)
  /-- Begin one repetition, discarding the count of any earlier entry. -/
  | repeatInit (counter : ℕ)
  /-- Start one repetition iteration, clearing the captures it may set. -/
  | repeatEnter (body clearFrom clearTo counter position : ℕ)
  /-- Finish one repetition iteration. -/
  | repeatEnd (counter head minimum position : ℕ)
  /-- Enter one lookaround body. -/
  | lookStart (body frame : ℕ) (negated : Bool) (onFail : ℕ)
  /-- Leave one lookaround body that matched. -/
  | lookEnd (exit frame : ℕ) (negated : Bool)
  /-- Match the text one earlier capture holds. -/
  | backreference (backward ignoreCase : Bool) (slots : List ℕ)
  | accept
  | fail
deriving DecidableEq

/-- Each cased character with its canonical form, by increasing character. -/
structure Canonicalization where
  canonical : List ℕ
  characters : List ℕ
deriving DecidableEq

/-- One immutable matcher artifact. Registers `2 * index` and `2 * index + 1` hold capturing
group `index`, the rest are counters, positions and frames. -/
structure MatcherProgram where
  canonicalization : Option Canonicalization
  captures : List Capture
  flags : Flags
  groupNames : List String
  instructions : List Instruction
  registers : ℕ
  sets : List MatcherSet
  source : List CodeUnit
  unicodeMode : Bool

/-- Unicode facts the builder cannot derive on its own. -/
structure UnicodeData where
  caseEquivalenceClasses : Option (Bool → List (List ℕ))
  propertySet : Option (UnicodePropertyEscape → Option MatcherSet)
  stringPropertySet : Option (UnicodePropertyEscape → Option (List (List ℕ)))
  generalCategoryValue : Option (String → Bool)
  spaceSeparators : Option MatcherSet

/-- Owned boundaries applied while one artifact is built. -/
structure MatcherLimits where
  instructions : ℕ
  registers : ℕ

def defaultRegExpMatcherLimits : MatcherLimits where
  instructions := 0x100000
  registers := 0x40000

/-! ## Reading characters -/

/-- The code unit at an index. -/
def charCodeAt (text : List CodeUnit) (index : ℕ) : Option ℕ :=
  text[index]?.map UInt16.toNat

/-- A leading surrogate. -/
def isLead (unit : ℕ) : Bool := 0xd800 ≤ unit && unit ≤ 0xdbff

/-- A trailing surrogate. -/
def isTrail (unit : ℕ) : Bool := 0xdc00 ≤ unit && unit ≤ 0xdfff

/-- The code point of a surrogate pair. -/
def pairCodePoint (lead trail : ℕ) : ℕ :=
  (lead - 0xd800) * 0x400 + (trail - 0xdc00) + 0x10000

/-- One character of the input read forward from `index`. -/
def characterAt (text : List CodeUnit) (index : ℕ) (unicodeMode : Bool) : Option ℕ :=
  match charCodeAt text index with
  | none => none
  | some unit =>
    if !unicodeMode || !isLead unit then some unit
    else
      match charCodeAt text (index + 1) with
      | none => some unit
      | some trail => if isTrail trail then some (pairCodePoint unit trail) else some unit

/-- How many code units the character starting at `index` occupies. -/
def widthAt (text : List CodeUnit) (index : ℕ) (unicodeMode : Bool) : ℕ :=
  if (characterAt text index unicodeMode).any (0xffff < ·) then 2 else 1

/-- Whether the two code units before `index` are a surrogate pair. -/
def pairedBefore (text : List CodeUnit) (index : ℕ) : Bool :=
  (charCodeAt text (index - 1)).any isTrail && (charCodeAt text (index - 2)).any isLead

/-- How many code units the character ending at `index` occupies. -/
def widthBefore (text : List CodeUnit) (index : ℕ) (unicodeMode : Bool) : ℕ :=
  if !unicodeMode || index < 2 then 1
  else if pairedBefore text index then 2 else 1

/-- The character ending at `index`, none at the start of the input. -/
def characterBefore (text : List CodeUnit) (index : ℕ) (unicodeMode : Bool) : Option ℕ :=
  if index = 0 then none
  else characterAt text (index - widthBefore text index unicodeMode) unicodeMode

/-- The position one attempt actually starts at. -/
def alignedStart (text : List CodeUnit) (index : ℕ) (unicodeMode : Bool) : ℕ :=
  if !unicodeMode || index = 0 || text.length ≤ index then index
  else if (charCodeAt text index).any isTrail && (charCodeAt text (index - 1)).any isLead then
    index - 1
  else index

/-- The four code points the LineTerminator production names. -/
def isLineTerminator (character : ℕ) : Bool :=
  character = 0x0a || character = 0x0d || character = 0x2028 || character = 0x2029

/-- The loop of `canonicalize`. -/
def canonicalizeLoop (table : Canonicalization) (character : ℕ) : (fuel low high : ℕ) → ℕ
  | 0, _, _ => character
  | fuel + 1, low, high =>
    if low < high then
      let middle := (low + high) / 2
      let value := table.characters[middle]?.getD 0
      if value = character then table.canonical[middle]?.getD character
      else if value < character then canonicalizeLoop table character fuel (middle + 1) high
      else canonicalizeLoop table character fuel low middle
    else character

def canonicalize (table : Option Canonicalization) (character : ℕ) : ℕ :=
  match table with
  | none => character
  | some table =>
    canonicalizeLoop table character table.characters.length 0 table.characters.length

/-! ## Code points of a text

The code points a text of UTF-16 code units encodes, and the positions between them. Reading a
character in unicode mode goes from one boundary to the next (`codePoints_eq_cons`,
`boundary_after`, `boundary_before`).
-/

open Option

variable {text : List CodeUnit} {index start finish : ℕ}

/-- A position that is not between the two units of a surrogate pair. -/
def CodePointBoundary (text : List CodeUnit) (index : ℕ) : Prop :=
  ¬(0 < index ∧ (charCodeAt text (index - 1)).any isLead = true ∧
    (charCodeAt text index).any isTrail = true)

instance (text : List CodeUnit) (index : ℕ) : Decidable (CodePointBoundary text index) :=
  inferInstanceAs (Decidable (¬_))

/-- The code points some code units encode; a lone surrogate is one of its own. -/
def decode : List CodeUnit → List ℕ
  | [] => []
  | [unit] => [unit.toNat]
  | lead :: trail :: units =>
    if isLead lead.toNat && isTrail trail.toNat then
      pairCodePoint lead.toNat trail.toNat :: decode units
    else lead.toNat :: decode (trail :: units)

/-- The code points of the text between two positions. -/
def codePoints (text : List CodeUnit) (start finish : ℕ) : List ℕ :=
  decode ((text.take finish).drop start)

/-! ## Code units -/

lemma charCodeAt_eq_some (h : index < text.length) :
    charCodeAt text index = some text[index].toNat := by
  unfold charCodeAt
  rw [List.getElem?_eq_getElem h]
  rfl

lemma charCodeAt_eq_none (h : text.length ≤ index) : charCodeAt text index = none := by
  unfold charCodeAt
  rw [List.getElem?_eq_none h]
  rfl

/-- No unit is a leading and a trailing surrogate. -/
lemma isTrail_eq_false {unit : ℕ} (h : isLead unit = true) : isTrail unit = false := by
  unfold isLead at h
  unfold isTrail
  simp only [Bool.and_eq_true, decide_eq_true_eq] at h
  simp only [Bool.and_eq_false_iff, decide_eq_false_iff_not]
  omega

/-- The code point of a pair is above the code units. -/
lemma lt_pairCodePoint (lead trail : ℕ) : 0xffff < pairCodePoint lead trail := by
  exact Nat.lt_of_lt_of_le (Nat.lt_succ_self _) (Nat.le_add_left _ _)

lemma unit_le (unit : CodeUnit) : unit.toNat ≤ 0xffff := Nat.le_of_lt_succ unit.toNat_lt

/-- A character within the code units is one unit wide, any other two. -/
lemma widthAt_eq {character : ℕ} (h : characterAt text index true = some character) :
    widthAt text index true = if 0xffff < character then 2 else 1 := by
  unfold widthAt
  rw [h, any_some]
  simp only [decide_eq_true_eq]

/-- What is read at a position: a pair, or one unit. -/
lemma characterAt_cases (h : index < text.length) :
    (∃ trail, charCodeAt text (index + 1) = some trail ∧ isLead text[index].toNat = true ∧
      isTrail trail = true ∧ widthAt text index true = 2 ∧
      characterAt text index true = some (pairCodePoint text[index].toNat trail)) ∨
    ((isLead text[index].toNat = true → (charCodeAt text (index + 1)).any isTrail = false) ∧
      widthAt text index true = 1 ∧
      characterAt text index true = some text[index].toNat) := by
  have hunit := charCodeAt_eq_some h
  have hone : characterAt text index true = some text[index].toNat →
      widthAt text index true = 1 := by
    intro hcharacter
    rw [widthAt_eq hcharacter, if_neg (Nat.not_lt_of_le (unit_le _))]
  by_cases hlead : isLead text[index].toNat = true
  · cases hnext : charCodeAt text (index + 1) with
    | none =>
      have hcharacter : characterAt text index true = some text[index].toNat := by
        simp [characterAt, hunit, hlead, hnext]
      exact .inr ⟨fun _ => rfl, hone hcharacter, hcharacter⟩
    | some trail =>
      cases htrail : isTrail trail with
      | true =>
        have hcharacter : characterAt text index true =
            some (pairCodePoint text[index].toNat trail) := by
          simp [characterAt, hunit, hlead, hnext, htrail]
        refine .inl ⟨trail, rfl, hlead, htrail, ?_, hcharacter⟩
        rw [widthAt_eq hcharacter, if_pos (lt_pairCodePoint _ _)]
      | false =>
        have hcharacter : characterAt text index true = some text[index].toNat := by
          simp [characterAt, hunit, hlead, hnext, htrail]
        exact .inr ⟨fun _ => by simpa using htrail, hone hcharacter, hcharacter⟩
  · have hcharacter : characterAt text index true = some text[index].toNat := by
      simp [characterAt, hunit, hlead]
    exact .inr ⟨fun hcontra => absurd hcontra hlead, hone hcharacter, hcharacter⟩

/-! ## Boundaries -/

lemma boundary_zero : CodePointBoundary text 0 := fun h => Nat.lt_irrefl 0 h.1

lemma boundary_end (h : text.length ≤ index) : CodePointBoundary text index := by
  rintro ⟨-, -, htrail⟩
  rw [charCodeAt_eq_none h] at htrail
  cases htrail

/-- A position after something that is no leading surrogate. -/
lemma boundary_succ (h : index < text.length) (hlead : isLead text[index].toNat = false) :
    CodePointBoundary text (index + 1) := by
  rintro ⟨-, hbefore, -⟩
  rw [Nat.add_sub_cancel, charCodeAt_eq_some h, any_some, hlead] at hbefore
  cases hbefore

/-- The position after a character is a boundary, wherever it was read. -/
lemma boundary_after (h : index < text.length) :
    CodePointBoundary text (index + widthAt text index true) := by
  rcases characterAt_cases h with ⟨trail, hnext, -, htrail, hwidth, -⟩ | ⟨halone, hwidth, -⟩
  · rw [hwidth]
    rintro ⟨-, hbefore, -⟩
    rw [show index + 2 - 1 = index + 1 by omega, hnext, any_some] at hbefore
    rw [isTrail_eq_false hbefore] at htrail
    cases htrail
  · rw [hwidth]
    cases hlead : isLead text[index].toNat with
    | true =>
      rintro ⟨-, -, htrail⟩
      rw [halone hlead] at htrail
      cases htrail
    | false => exact boundary_succ h hlead

/-- The position before the character that ends at a boundary is one. -/
lemma boundary_before : CodePointBoundary text (index - widthBefore text index true) := by
  unfold widthBefore
  by_cases hlt : index < 2
  · rw [if_pos (by simpa using hlt), show index - 1 = 0 by omega]
    exact boundary_zero
  · rw [if_neg (by simpa using hlt)]
    by_cases hpaired : pairedBefore text index = true
    · rw [if_pos hpaired]
      unfold pairedBefore at hpaired
      rw [Bool.and_eq_true] at hpaired
      rintro ⟨-, -, htrail⟩
      obtain ⟨unit, hunit, hlead⟩ := (any_eq_true _ _).mp hpaired.2
      rw [hunit, any_some, isTrail_eq_false hlead] at htrail
      cases htrail
    · rw [if_neg hpaired]
      rintro ⟨-, hlead, htrail⟩
      apply hpaired
      unfold pairedBefore
      rw [Bool.and_eq_true]
      exact ⟨htrail, by rwa [show index - 2 = index - 1 - 1 by omega]⟩

lemma boundary_alignedStart : CodePointBoundary text (alignedStart text start true) := by
  unfold alignedStart
  by_cases hzero : start = 0
  · subst hzero
    exact boundary_zero
  by_cases hend : text.length ≤ start
  · rw [if_pos (by simp [hend])]
    exact boundary_end hend
  · rw [if_neg (by simp [hzero, hend])]
    split
    · rename_i hpair
      rw [Bool.and_eq_true] at hpair
      rintro ⟨-, -, htrail⟩
      obtain ⟨unit, hunit, hlead⟩ := (any_eq_true _ _).mp hpair.2
      rw [hunit, any_some, isTrail_eq_false hlead] at htrail
      cases htrail
    · rename_i hpair
      rintro ⟨-, hlead, htrail⟩
      exact hpair (by rw [hlead, htrail]; rfl)

/-! ## Code points -/

@[simp] lemma codePoints_self : codePoints text start start = [] := by
  simp [codePoints, decode]

lemma slice_eq_cons (hlt : start < finish) (hle : finish ≤ text.length) :
    (text.take finish).drop start =
      text[start] :: (text.take finish).drop (start + 1) := by
  rw [List.drop_eq_getElem_cons (by simp; omega), List.getElem_take]

/-- The first code point up to a boundary is the character that is read. -/
theorem codePoints_eq_cons (hlt : start < finish) (hle : finish ≤ text.length)
    (hfinish : CodePointBoundary text finish) :
    ∃ character, characterAt text start true = some character ∧
      start + widthAt text start true ≤ finish ∧
      codePoints text start finish =
        character :: codePoints text (start + widthAt text start true) finish := by
  unfold codePoints
  rw [slice_eq_cons hlt hle]
  rcases characterAt_cases (Nat.lt_of_lt_of_le hlt hle) with
    ⟨trail, hnext, hlead, htrail, hwidth, hcharacter⟩ | ⟨halone, hwidth, hcharacter⟩
  · -- A pair is not cut by the boundary.
    have hinside : start + 1 < finish := by
      rcases Nat.lt_or_ge (start + 1) finish with h | h
      · exact h
      · have heq : finish = start + 1 := by omega
        subst heq
        refine absurd ⟨by omega, ?_, ?_⟩ hfinish
        · rw [Nat.add_sub_cancel, charCodeAt_eq_some (by omega), any_some, hlead]
        · rw [hnext, any_some, htrail]
    have hunit : trail = text[start + 1].toNat := by
      rw [charCodeAt_eq_some (by omega)] at hnext
      exact (some.inj hnext).symm
    refine ⟨_, hcharacter, by omega, ?_⟩
    rw [slice_eq_cons hinside hle, decode, hwidth, hlead, ← hunit, htrail]
    rfl
  · refine ⟨_, hcharacter, by omega, ?_⟩
    rw [hwidth]
    rcases Nat.lt_or_ge (start + 1) finish with hinside | hlast
    · rw [slice_eq_cons hinside hle, decode, if_neg]
      rw [Bool.and_eq_true]
      rintro ⟨hlead, htrail⟩
      have hfalse := halone hlead
      rw [charCodeAt_eq_some (by omega), any_some, htrail] at hfalse
      cases hfalse
    · have hnil : (text.take finish).drop (start + 1) = [] := by
        rw [List.drop_eq_nil_iff, List.length_take]
        omega
      rw [hnil]
      rfl

/-! ## The executor of a matcher program

`matchRegExpMatcher` and `searchRegExpMatcher` of `regexp-execute.ts`.

* both stacks have their top first, an entry of the backtrack stack is one element;
* `step` is one round of the loop; the loops are given `fuel`;
* a limit of `none` is removed;
* a register holds -1 for unset, and `none` where nothing was written.
-/

/-- One owned resource boundary the executor can reach. -/
inductive ExecutionLimit
  | backtrackEntries
  | steps
  | trailEntries
deriving DecidableEq

/-- Owned boundaries applied while one match attempt runs. -/
structure ExecutionLimits where
  backtrackEntries : Option ℕ
  steps : Option ℕ
  trailEntries : Option ℕ

/-- The limits removed. -/
def ExecutionLimits.removed : ExecutionLimits where
  backtrackEntries := none
  steps := none
  trailEntries := none

def defaultRegExpExecutionLimits : ExecutionLimits where
  backtrackEntries := some 0x400000
  steps := some 0x1000000
  trailEntries := some 0x400000

/-- Whether a count has reached its limit. -/
def limitAt (limit : Option ℕ) (count : ℕ) : Bool := limit.any (· ≤ count)

/-- One match attempt over one artifact. -/
structure ExecutionInput where
  limits : ExecutionLimits
  program : MatcherProgram
  startIndex : ℤ
  text : List CodeUnit

/-- The outcome of one match attempt. -/
inductive Execution
  | matched (captures : List (Option Span)) (steps : ℕ)
  | unmatched (steps : ℕ)
  | limit (limit : ExecutionLimit) (steps : ℕ)
deriving DecidableEq

/-- An unset capture register. -/
def unset : ℤ := -1

/-- One entry of the backtrack stack. -/
structure BacktrackEntry where
  address : ℕ
  index : ℕ
  trail : ℕ
deriving DecidableEq

/-- One entry of the trail: a register and what it held. -/
structure TrailEntry where
  register : ℕ
  value : ℤ
deriving DecidableEq

/-- The mutable state of one attempt. -/
structure Machine where
  address : ℕ
  index : ℕ
  registers : ℕ → Option ℤ
  stack : List BacktrackEntry
  steps : ℕ
  trail : List TrailEntry

/-- What a register holds, `default` if nothing was written. -/
def Machine.read (machine : Machine) (register : ℕ) (default : ℤ) : ℤ :=
  (machine.registers register).getD default

/-- Write one register, recording what it held; none at the trail limit. -/
def write (limits : ExecutionLimits) (machine : Machine) (register : ℕ) (value : ℤ) :
    Option Machine :=
  if limitAt limits.trailEntries machine.trail.length then none
  else some { machine with
    trail := ⟨register, machine.read register unset⟩ :: machine.trail
    registers := Function.update machine.registers register (some value) }

/-- Write unset to `count` registers from `slot` on. -/
def writeUnset (limits : ExecutionLimits) : (count : ℕ) → (slot : ℕ) → Machine → Option Machine
  | 0, _, machine => some machine
  | count + 1, slot, machine => do
    let machine ← write limits machine slot unset
    writeUnset limits count (slot + 1) machine

/-- Undo the trail down to a height. -/
def undoTrail (height : ℕ) : List TrailEntry → (ℕ → Option ℤ) →
    List TrailEntry × (ℕ → Option ℤ)
  | [], registers => ([], registers)
  | entry :: trail, registers =>
    if trail.length + 1 > height then
      undoTrail height trail (Function.update registers entry.register (some entry.value))
    else (entry :: trail, registers)

/-- Push a choice; none at the backtrack limit. -/
def push (limits : ExecutionLimits) (machine : Machine) (address : ℕ) : Option Machine :=
  if limitAt limits.backtrackEntries machine.stack.length then none
  else some { machine with
    stack := ⟨address, machine.index, machine.trail.length⟩ :: machine.stack }

/-- Take the latest choice; none when none is left. -/
def pop (machine : Machine) : Option Machine :=
  match machine.stack with
  | [] => none
  | entry :: stack =>
    let undone := undoTrail entry.trail machine.trail machine.registers
    some { machine with
      address := entry.address
      index := entry.index
      stack
      trail := undone.1
      registers := undone.2 }

/-! ## Backreferences and assertions -/

/-- The outcome of one backreference, with the steps a lowering charges. -/
structure BackreferenceAttempt where
  limited : Bool
  matched : Bool
  steps : ℕ
deriving DecidableEq

/-- The comparison loop of `matchBackreference`, over the captured characters. -/
def sameCharacters (text : List CodeUnit) (unicodeMode : Bool)
    (table : Option Canonicalization) : (fuel source finish compared : ℕ) → Bool
  | 0, _, _, _ => true
  | fuel + 1, source, finish, compared =>
    if source < finish then
      let width := widthAt text source unicodeMode
      match characterAt text source unicodeMode, characterAt text compared unicodeMode with
      | some left, some right =>
        if canonicalize table left = canonicalize table right then
          sameCharacters text unicodeMode table fuel (source + width) finish (compared + width)
        else false
      | _, _ => false
    else true

/-- Where the region a candidate is compared with starts. -/
def candidateTarget (backward : Bool) (index : ℕ) (start finish : ℤ) : ℤ :=
  if backward then index - (finish - start) else index

/-- One candidate capture that participated: the position after it, none if it refuses. -/
def matchCapture (text : List CodeUnit) (unicodeMode : Bool) (table : Option Canonicalization)
    (backward : Bool) (start finish : ℤ) (index : ℕ) : Option ℕ :=
  let length := finish - start
  let target := candidateTarget backward index start finish
  if target < 0 ∨ target + length > text.length then none
  else if sameCharacters text unicodeMode table length.toNat start.toNat finish.toNat
      target.toNat then
    some (if backward then target.toNat else (target + length).toNat)
  else none

/-- The loop of `matchBackreference` over its candidates, with the position it leaves. -/
def matchCandidates (program : MatcherProgram) (text : List CodeUnit) (machine : Machine)
    (backward ignoreCase : Bool) (allowed : Option ℕ) :
    (slots : List (Option ℕ)) → (candidate index : ℕ) → BackreferenceAttempt × ℕ
  | [], candidate, index => ({ limited := false, matched := true, steps := candidate }, index)
  | slot :: slots, candidate, index =>
    if limitAt allowed candidate then
      ({ limited := true, matched := false, steps := allowed.getD 0 }, index)
    else
      match slot with
      | none => matchCandidates program text machine backward ignoreCase allowed slots
          (candidate + 1) index
      | some slot =>
        let start := machine.read slot unset
        let finish := machine.read (slot + 1) unset
        if start = unset ∨ finish = unset then
          matchCandidates program text machine backward ignoreCase allowed slots
            (candidate + 1) index
        else
          let table := if ignoreCase then program.canonicalization else none
          match matchCapture text program.unicodeMode table backward start finish index with
          | none => ({ limited := false, matched := false, steps := candidate + 1 }, index)
          | some index => matchCandidates program text machine backward ignoreCase allowed
              slots (candidate + 1) index

/-- The candidates of a backreference; an empty list still takes one round. -/
def candidateSlots (slots : List ℕ) : List (Option ℕ) :=
  if slots.isEmpty then [none] else slots.map some

/-- Match one backreference, or report that the path fails. -/
def matchBackreference (program : MatcherProgram) (text : List CodeUnit) (machine : Machine)
    (slots : List ℕ) (backward ignoreCase : Bool) (allowed : Option ℕ) :
    BackreferenceAttempt × ℕ :=
  matchCandidates program text machine backward ignoreCase allowed (candidateSlots slots) 0
    machine.index

def matchesBoundary (text : List CodeUnit) (unicodeMode : Bool) (index : ℕ)
    (set : MatcherSet) : Bool :=
  let wordBefore := (characterBefore text index unicodeMode).any (setHas set)
  let wordAfter := index < text.length && (characterAt text index unicodeMode).any (setHas set)
  wordBefore != wordAfter

def matchesEdge (text : List CodeUnit) (unicodeMode : Bool) (index : ℕ) (assertion : Edge)
    (multiline : Bool) : Bool :=
  match assertion with
  | .start =>
    if index = 0 then true
    else if !multiline then false
    else (characterBefore text index unicodeMode).any isLineTerminator
  | .finish =>
    if index = text.length then true
    else if !multiline then false
    else (characterAt text index unicodeMode).any isLineTerminator

/-- One capture of the machine, none if one of its registers is unset. -/
def collectCapture (machine : Machine) (index : ℕ) : Option Span :=
  let start := machine.read (2 * index) unset
  let finish := machine.read (2 * index + 1) unset
  if start = unset ∨ finish = unset then none else some ⟨start.toNat, finish.toNat⟩

def collectCaptures (program : MatcherProgram) (machine : Machine) : List (Option Span) :=
  (List.range (program.captures.length + 1)).map (collectCapture machine)

/-! ## The main loop -/

/-- What one round of the loop leaves: an outcome, or the machine of the next round. -/
inductive StepResult
  | done (execution : Execution)
  | running (machine : Machine)

/-- Abandon the current path. -/
def backtrack (machine : Machine) : StepResult :=
  match pop machine with
  | none => .done (.unmatched machine.steps)
  | some machine => .running machine

/-- Continue at an address. -/
def Machine.goto (machine : Machine) (address : ℕ) : Machine := { machine with address }

/-- Continue with a machine that may have reached a limit. -/
def orLimit (limit : ExecutionLimit) (steps : ℕ) : Option Machine → StepResult
  | none => .done (.limit limit steps)
  | some machine => .running machine

/-- One `consume` instruction. -/
def stepConsume (program : MatcherProgram) (text : List CodeUnit) (machine : Machine)
    (backward : Bool) (set : ℕ) : StepResult :=
  let unicodeMode := program.unicodeMode
  let members := program.sets[set]?.getD []
  if backward then
    let width := widthBefore text machine.index unicodeMode
    if machine.index < width ∨ text.length ≤ machine.index - width then backtrack machine
    else if (characterAt text (machine.index - width) unicodeMode).any (setHas members) then
      .running { machine with index := machine.index - width, address := machine.address + 1 }
    else backtrack machine
  else
    let next := machine.index + widthAt text machine.index unicodeMode
    if text.length ≤ machine.index ∨ text.length < next then backtrack machine
    else if (characterAt text machine.index unicodeMode).any (setHas members) then
      .running { machine with index := next, address := machine.address + 1 }
    else backtrack machine

/-- One `repeat` instruction. -/
def stepRepetition (limits : ExecutionLimits) (machine : Machine) (counter enter exit : ℕ)
    (greedy : Bool) (maximum : Option ℕ) (minimum : ℕ) : StepResult :=
  let done := machine.read counter 0
  if done < minimum then .running (machine.goto enter)
  else if maximum.any (fun bound : ℕ => decide ((bound : ℤ) ≤ done)) then
    .running (machine.goto exit)
  else if greedy then
    orLimit .backtrackEntries machine.steps
      ((push limits machine exit).map (Machine.goto · enter))
  else
    orLimit .backtrackEntries machine.steps
      ((push limits machine enter).map (Machine.goto · exit))

/-- One `repeat-enter` instruction. -/
def stepRepeatEnter (limits : ExecutionLimits) (machine : Machine)
    (body clearFrom clearTo counter position : ℕ) : StepResult :=
  orLimit .trailEntries machine.steps do
    let done := machine.read counter 0
    let counted ← write limits machine counter (done + 1)
    let placed ← write limits counted position counted.index
    let cleared ← writeUnset limits (clearTo - clearFrom) clearFrom placed
    return cleared.goto body

/-- One `repeat-end` instruction. -/
def stepRepeatEnd (machine : Machine) (counter head minimum position : ℕ) : StepResult :=
  let done := machine.read counter 1 - 1
  let started := machine.read position unset
  if (minimum : ℤ) ≤ done ∧ started = machine.index then backtrack machine
  else .running (machine.goto head)

/-- One `look-start` instruction. -/
def stepLookStart (limits : ExecutionLimits) (machine : Machine) (body frame onFail : ℕ) :
    StepResult :=
  match push limits machine onFail with
  | none => .done (.limit .backtrackEntries machine.steps)
  | some pushed =>
    orLimit .trailEntries machine.steps
      ((write limits pushed frame (pushed.stack.length - 1 : ℕ)).map (Machine.goto · body))

/-- One `look-end` instruction: back to the entry of the frame, which is dropped with every
choice above it. -/
def stepLookEnd (machine : Machine) (exit frame : ℕ) (negated : Bool) : StepResult :=
  let frame := (machine.read frame 0).toNat
  let entry : Option BacktrackEntry := machine.stack.reverse[frame]?
  let left := { machine with
    stack := machine.stack.drop (machine.stack.length - frame)
    index := (entry.map BacktrackEntry.index).getD 0 }
  if negated then
    let undone := undoTrail ((entry.map BacktrackEntry.trail).getD 0) machine.trail machine.registers
    backtrack { left with trail := undone.1, registers := undone.2 }
  else .running (left.goto exit)

/-- One `backreference` instruction. -/
def stepBackreference (limits : ExecutionLimits) (program : MatcherProgram)
    (text : List CodeUnit) (machine : Machine) (slots : List ℕ)
    (backward ignoreCase : Bool) : StepResult :=
  let allowed := limits.steps.map (· - machine.steps + 1)
  let (attempt, index) :=
    matchBackreference program text machine slots backward ignoreCase allowed
  let machine := { machine with index, steps := machine.steps + attempt.steps - 1 }
  if attempt.limited then .done (.limit .steps machine.steps)
  else if attempt.matched then .running (machine.goto (machine.address + 1))
  else backtrack machine

/-- What one instruction does. -/
def execute (limits : ExecutionLimits) (program : MatcherProgram) (text : List CodeUnit)
    (machine : Machine) : Instruction → StepResult
  | .accept => .done (.matched (collectCaptures program machine) machine.steps)
  | .consume backward set => stepConsume program text machine backward set
  | .edge assertion multiline =>
    if matchesEdge text program.unicodeMode machine.index assertion multiline then
      .running (machine.goto (machine.address + 1))
    else backtrack machine
  | .boundary negated set =>
    if matchesBoundary text program.unicodeMode machine.index
        (program.sets[set]?.getD []) != negated then
      .running (machine.goto (machine.address + 1))
    else backtrack machine
  | .save slot =>
    orLimit .trailEntries machine.steps
      ((write limits machine slot machine.index).map (Machine.goto · (machine.address + 1)))
  | .clear first last =>
    orLimit .trailEntries machine.steps
      ((writeUnset limits (last - first) first machine).map (Machine.goto · (machine.address + 1)))
  | .fork alternative preferred =>
    orLimit .backtrackEntries machine.steps
      ((push limits machine alternative).map (Machine.goto · preferred))
  | .jump target => .running (machine.goto target)
  | .repetition counter enter exit greedy maximum minimum =>
    stepRepetition limits machine counter enter exit greedy maximum minimum
  | .repeatInit counter =>
    orLimit .trailEntries machine.steps
      ((write limits machine counter 0).map (Machine.goto · (machine.address + 1)))
  | .repeatEnter body clearFrom clearTo counter position =>
    stepRepeatEnter limits machine body clearFrom clearTo counter position
  | .repeatEnd counter head minimum position =>
    stepRepeatEnd machine counter head minimum position
  | .lookStart body frame _ onFail => stepLookStart limits machine body frame onFail
  | .lookEnd exit frame negated => stepLookEnd machine exit frame negated
  | .backreference backward ignoreCase slots =>
    stepBackreference limits program text machine slots backward ignoreCase
  | .fail => backtrack machine

/-- One round of the loop. -/
def step (limits : ExecutionLimits) (program : MatcherProgram) (text : List CodeUnit)
    (machine : Machine) : StepResult :=
  if limitAt limits.steps machine.steps then .done (.limit .steps machine.steps)
  else
    let machine := { machine with steps := machine.steps + 1 }
    match program.instructions[machine.address]? with
    | none => .done (.unmatched machine.steps)
    | some instruction => execute limits program text machine instruction

/-- The loop of `matchRegExpMatcher`. -/
def matchLoop (limits : ExecutionLimits) (program : MatcherProgram) (text : List CodeUnit) :
    (fuel : ℕ) → Machine → Option Execution
  | 0, _ => none
  | fuel + 1, machine =>
    match step limits program text machine with
    | .done execution => some execution
    | .running machine => matchLoop limits program text fuel machine

/-- The machine one attempt starts with. -/
def initialMachine (program : MatcherProgram) (text : List CodeUnit) (start : ℕ) : Machine where
  address := 0
  index := alignedStart text start program.unicodeMode
  registers register :=
    if register < program.registers then
      some (if register < 2 * (program.captures.length + 1) then unset else 0)
    else none
  stack := []
  steps := 0
  trail := []

/-! ## The scan of `^set+$` -/

/-- The instructions around the consume of `^set+$`. -/
def anchoredRepeatPrefix : List Instruction :=
  [.save 0, .edge .start false, .repeatInit 2, .repetition 2 4 7 true none 1,
    .repeatEnter 5 0 0 2 3]

def anchoredRepeatSuffix : List Instruction :=
  [.repeatEnd 2 3 1 3, .edge .finish false, .save 1, .accept, .fail]

/-- The set of a program that is exactly `^set+$`. -/
def anchoredRepeatSet (program : MatcherProgram) : Option MatcherSet :=
  if program.flags.text ∈ ["", "u", "v"] ∧ program.captures.length = 0 ∧
      program.registers = 4 ∧ program.instructions.take 5 = anchoredRepeatPrefix ∧
      program.instructions.drop 6 = anchoredRepeatSuffix then
    match program.instructions[(5 : ℕ)]? with
    | some (.consume false set) => program.sets[set]?
    | _ => none
  else none

/-- The loop of `scanAnchoredRepeat`. -/
def scanLoop (limits : ExecutionLimits) (text : List CodeUnit) (unicodeMode : Bool)
    (set : MatcherSet) : (fuel index steps : ℕ) → Execution
  | 0, _, steps => .unmatched steps
  | fuel + 1, index, steps =>
    if limitAt limits.steps steps then .limit .steps steps
    else if index < text.length then
      match characterAt text index unicodeMode with
      | some character =>
        if !setHas set character then .unmatched (steps + 1)
        else
          scanLoop limits text unicodeMode set fuel
            (index + if 0xffff < character then 2 else 1) (steps + 1)
      | none => .unmatched (steps + 1)
    else if index = 0 then .unmatched (steps + 1)
    else .matched [some ⟨0, index⟩] (steps + 1)

/-- Constant-state scan of a proved complete pattern. -/
def scanAnchoredRepeat (limits : ExecutionLimits) (program : MatcherProgram)
    (text : List CodeUnit) (start : ℕ) (set : MatcherSet) : Execution :=
  if limitAt limits.steps 0 then .limit .steps 0
  else if alignedStart text start program.unicodeMode ≠ 0 then .unmatched 1
  else scanLoop limits text program.unicodeMode set (text.length + 1) 0 1

/-! ## Attempts and searches -/

/-- Run one anchored match attempt at one position. -/
def matchRegExpMatcher (request : ExecutionInput) (fuel : ℕ) : Option Execution :=
  if request.startIndex < 0 ∨ request.startIndex > request.text.length then
    some (.unmatched 0)
  else
    let start := request.startIndex.toNat
    match anchoredRepeatSet request.program with
    | some set =>
      some (scanAnchoredRepeat request.limits request.program request.text start set)
    | none =>
      matchLoop request.limits request.program request.text fuel
        (initialMachine request.program request.text start)

/-- The limits that are left when some steps are taken. -/
def ExecutionLimits.less (limits : ExecutionLimits) (steps : ℕ) : ExecutionLimits :=
  { limits with steps := limits.steps.map (· - steps) }

/-- The position loop of `searchRegExpMatcher`, given how one position is attempted. -/
def searchLoop (attempt : ExecutionLimits → ℕ → Option Execution) (limits : ExecutionLimits)
    (program : MatcherProgram) (text : List CodeUnit) :
    (fuel index steps : ℕ) → Option Execution
  | 0, _, _ => none
  | fuel + 1, index, steps =>
    match attempt (limits.less steps) index with
    | none => none
    | some (.matched captures taken) => some (.matched captures (steps + taken))
    | some (.limit limit taken) => some (.limit limit (steps + taken))
    | some (.unmatched taken) =>
      if program.flags.sticky || text.length ≤ index then some (.unmatched (steps + taken))
      else
        searchLoop attempt limits program text fuel (index + widthAt text index program.unicodeMode)
          (steps + taken)

/-- The search of `searchRegExpMatcher` without the scan of `^set+$`. -/
def searchOrdinarily (request : ExecutionInput) (fuel attemptFuel : ℕ) : Option Execution :=
  if request.startIndex < 0 ∨ request.startIndex > request.text.length then some (.unmatched 0)
  else
    searchLoop (fun limits index => matchLoop limits request.program request.text attemptFuel
        (initialMachine request.program request.text index))
      request.limits request.program request.text fuel
      (alignedStart request.text request.startIndex.toNat request.program.unicodeMode) 0

/-- Search for the first match at or after one position. -/
def searchRegExpMatcher (request : ExecutionInput) (fuel attemptFuel : ℕ) : Option Execution :=
  if request.startIndex < 0 ∨ request.startIndex > request.text.length then some (.unmatched 0)
  else
    match anchoredRepeatSet request.program with
    | some set =>
      some (scanAnchoredRepeat request.limits request.program request.text
        request.startIndex.toNat set)
    | none =>
      searchLoop (fun limits index =>
          matchRegExpMatcher { request with limits, startIndex := index } attemptFuel)
        request.limits request.program request.text fuel
        (alignedStart request.text request.startIndex.toNat request.program.unicodeMode) 0

end Oseo.RegExpMatcher
