import Oseo.RegExpMatcher.Program
import Oseo.Library.Backtracking

/-!
# Matcher code and what it finds

The structure a program is emitted from, with its terms in evaluation order, and the list of
everything it matches from a place, in the order the executor tries it (`Code.results`). The
executor keeps one of these at a time; `CodeSearch` says that it goes through all of them.

* a direction is given to a piece of code from outside, a lookaround gives its body its own;
* captures are numbered as in the pattern, a repetition clears the slots of its body.

From a place whose captures are in order and where its own are unset, a piece of code only moves
onward, sets only its own captures, and leaves them in order (`Code.results_extends`).
-/

namespace Oseo.RegExpMatcher

section

/-- What a match reads: the text, and how it is read. -/
structure Reader where
  text : List CodeUnit
  unicodeMode : Bool
  canonicalization : Option Canonicalization

/-- A place in a match: the position, and what each capture slot holds. -/
@[ext]
structure Place where
  index : ℕ
  captures : ℕ → Option ℕ

/-- Matcher code. -/
inductive Code
  | skip
  | consume (set : MatcherSet)
  | edge (assertion : Edge) (multiline : Bool)
  | boundary (negated : Bool) (set : MatcherSet)
  | backreference (ignoreCase : Bool) (indices : List ℕ)
  | sequence (first second : Code)
  | alternate (preferred alternative : Code)
  | capture (index : ℕ) (body : Code)
  | repetition (minimum : ℕ) (maximum : Option ℕ) (greedy : Bool) (clearFrom clearTo : ℕ)
      (body : Code)
  | look (behind negated : Bool) (body : Code)

/-! ## Single steps -/

/-- The position after one character of a set is consumed. -/
def consumeAt (text : List CodeUnit) (unicodeMode backward : Bool) (set : MatcherSet)
    (index : ℕ) : Option ℕ :=
  if backward then
    let width := widthBefore text index unicodeMode
    if index < width ∨ text.length ≤ index - width then none
    else if (characterAt text (index - width) unicodeMode).any (setHas set) then
      some (index - width)
    else none
  else
    let next := index + widthAt text index unicodeMode
    if text.length ≤ index ∨ text.length < next then none
    else if (characterAt text index unicodeMode).any (setHas set) then some next
    else none

/-- The position after the candidates of a backreference, one after the other. -/
def backreferenceAt (reader : Reader) (backward ignoreCase : Bool)
    (captures : ℕ → Option ℕ) : (indices : List ℕ) → (index : ℕ) → Option ℕ
  | [], index => some index
  | capture :: indices, index =>
    match captures (2 * capture), captures (2 * capture + 1) with
    | some start, some finish =>
      (matchCapture reader.text reader.unicodeMode
        (if ignoreCase then reader.canonicalization else none) backward start finish index).bind
        (backreferenceAt reader backward ignoreCase captures indices)
    | _, _ => backreferenceAt reader backward ignoreCase captures indices index

/-- A place that is moved to a position, if there is one. -/
def Place.movedTo (place : Place) : Option ℕ → List Place
  | none => []
  | some index => [{ place with index }]

/-- A place if a test succeeds. -/
def Place.when (place : Place) (test : Bool) : List Place :=
  if test then [place] else []

/-- The current position saved in a slot. -/
def Place.save (place : Place) (slot : ℕ) : Place :=
  { place with captures := Function.update place.captures slot (some place.index) }

/-- The slots of a range reset to unset. -/
def Place.clear (place : Place) (clearFrom clearTo : ℕ) : Place :=
  { place with captures := fun slot =>
      if clearFrom ≤ slot ∧ slot < clearTo then none else place.captures slot }

/-- The slot a capture saves first in a direction. -/
def openSlot (backward : Bool) (index : ℕ) : ℕ := if backward then 2 * index + 1 else 2 * index

/-- The slot a capture saves last. -/
def closeSlot (backward : Bool) (index : ℕ) : ℕ := if backward then 2 * index else 2 * index + 1

/-! ## Results -/

/-- The results of a repetition that has done `count` iterations. An iteration past the minimum
that consumes nothing is dropped. -/
def repeatResults (body : Place → List Place) (minimum : ℕ) (maximum : Option ℕ)
    (greedy : Bool) : (fuel count : ℕ) → Place → List Place
  | 0, _, _ => []
  | fuel + 1, count, place =>
    let more := ((body place).filter fun next =>
        decide (count < minimum) || decide (next.index ≠ place.index)).flatMap
      (repeatResults body minimum maximum greedy fuel (count + 1))
    if count < minimum then more
    else if maximum.any (· ≤ count) then [place]
    else if greedy then more ++ [place]
    else place :: more

/-- The results of a lookaround from those of its body. -/
def lookResults (negated : Bool) (place : Place) : List Place → List Place
  | [] => if negated then [place] else []
  | found :: _ => if negated then [] else [{ found with index := place.index }]

/-- Every place a piece of code matches up to, in the order they are tried. -/
def Code.results (reader : Reader) : Code → (backward : Bool) → Place → List Place
  | .skip, _, place => [place]
  | .consume set, backward, place =>
    place.movedTo (consumeAt reader.text reader.unicodeMode backward set place.index)
  | .edge assertion multiline, _, place =>
    place.when (matchesEdge reader.text reader.unicodeMode place.index assertion multiline)
  | .boundary negated set, _, place =>
    place.when (matchesBoundary reader.text reader.unicodeMode place.index set != negated)
  | .backreference ignoreCase indices, backward, place =>
    place.movedTo
      (backreferenceAt reader backward ignoreCase place.captures indices place.index)
  | .sequence first second, backward, place =>
    (first.results reader backward place).flatMap (second.results reader backward)
  | .alternate preferred alternative, backward, place =>
    preferred.results reader backward place ++ alternative.results reader backward place
  | .capture index body, backward, place =>
    (body.results reader backward (place.save (openSlot backward index))).map
      fun found => found.save (closeSlot backward index)
  | .repetition minimum maximum greedy clearFrom clearTo body, backward, place =>
    repeatResults (fun place => body.results reader backward (place.clear clearFrom clearTo))
      minimum maximum greedy (minimum + reader.text.length + 2) 0 place
  | .look behind negated body, _, place =>
    lookResults negated place (body.results reader behind place)

/-! ## Captures -/

/-- The captures a piece of code may set. -/
def Code.groups : Code → List ℕ
  | .sequence first second => first.groups ++ second.groups
  | .alternate preferred alternative => preferred.groups ++ alternative.groups
  | .capture index body => index :: body.groups
  | .repetition _ _ _ _ _ body => body.groups
  | .look _ _ body => body.groups
  | _ => []

/-- The captures of a piece of code are set in one place each, within `slots`, and a repetition
clears those of its body. -/
def Code.WellFormed (slots : ℕ) : Code → Prop
  | .backreference _ indices => ∀ index ∈ indices, 2 * index + 1 < slots
  | .sequence first second =>
    first.WellFormed slots ∧ second.WellFormed slots ∧ first.groups.Disjoint second.groups
  | .alternate preferred alternative => preferred.WellFormed slots ∧ alternative.WellFormed slots
  | .capture index body => body.WellFormed slots ∧ index ∉ body.groups ∧ 2 * index + 1 < slots
  | .repetition _ _ _ clearFrom clearTo body => body.WellFormed slots ∧ clearTo ≤ slots ∧
    ∀ slot, clearFrom ≤ slot ∧ slot < clearTo ↔ slot / 2 ∈ body.groups
  | .look _ _ body => body.WellFormed slots
  | _ => True

/-- No capture of a piece of code is set. -/
def Code.Fresh (code : Code) (captures : ℕ → Option ℕ) : Prop :=
  ∀ slot, slot / 2 ∈ code.groups → captures slot = none

/-- A capture with both ends set starts before it ends. -/
def Ordered (slots : ℕ) (captures : ℕ → Option ℕ) : Prop :=
  ∀ index start finish, 2 * index + 1 < slots → captures (2 * index) = some start →
    captures (2 * index + 1) = some finish → start ≤ finish

/-- A position further on in a direction, in the text. -/
def Onward (text : List CodeUnit) (backward : Bool) (first second : ℕ) : Prop :=
  second ≤ text.length ∧ if backward then second ≤ first else first ≤ second

/-- What a match does to a place: it moves onward, sets only the captures of its code, and
leaves every capture in order. -/
structure Extends (text : List CodeUnit) (slots : ℕ) (backward : Bool) (groups : List ℕ)
    (place found : Place) : Prop where
  onward : Onward text backward place.index found.index
  outside : ∀ slot, slot / 2 ∉ groups → found.captures slot = place.captures slot
  ordered : Ordered slots found.captures

/-! ## What matcher code does to a place -/

open Function
open List

variable {text : List CodeUnit} {reader : Reader} {slots : ℕ} {backward : Bool}
variable {place found next : Place} {groups groups' : List ℕ}

/-! ## Positions -/

lemma Onward.refl {index : ℕ} (h : index ≤ text.length) : Onward text backward index index := by
  refine ⟨h, ?_⟩
  cases backward <;> exact Nat.le_refl index

lemma Onward.trans {first second third : ℕ} (h : Onward text backward first second)
    (h' : Onward text backward second third) : Onward text backward first third := by
  refine ⟨h'.1, ?_⟩
  have hle := h.2
  have hle' := h'.2
  cases backward
  · exact Nat.le_trans hle hle'
  · exact Nat.le_trans hle' hle

lemma consumeAt_onward {unicodeMode : Bool} {set : MatcherSet} {index after : ℕ}
    (h : consumeAt text unicodeMode backward set index = some after)
    (_ : index ≤ text.length) : Onward text backward index after := by
  unfold consumeAt at h
  cases backward with
  | true =>
    simp only [if_true] at h
    split at h
    · cases h
    · split at h
      · cases h
        exact ⟨by omega, Nat.sub_le _ _⟩
      · cases h
  | false =>
    simp only [Bool.false_eq_true, if_false] at h
    split at h
    · cases h
    · split at h
      · cases h
        exact ⟨by omega, Nat.le_add_right _ _⟩
      · cases h

section
variable {unicodeMode : Bool} {table : Option Canonicalization} {start finish index after : ℕ}
  (hle : start ≤ finish)
include hle

/-- The position a candidate is left at, with the bounds it is checked against. -/
lemma matchCapture_eq_some
    (h : matchCapture text unicodeMode table backward start finish index = some after) :
    (if backward then after + (finish - start) = index ∧ index ≤ text.length
      else after = index + (finish - start) ∧ after ≤ text.length) ∧
    sameCharacters text unicodeMode table (finish - start) start finish
      (if backward then after else index) = true := by
  unfold matchCapture candidateTarget at h
  have hlength : (finish : ℤ) - start = ((finish - start : ℕ) : ℤ) := by omega
  cases backward with
  | true =>
    simp only [if_true, hlength] at h ⊢
    split at h
    · cases h
    · split at h
      · rename_i hbounds hsame
        cases h
        refine ⟨by omega, ?_⟩
        simpa using hsame
      · cases h
  | false =>
    simp only [Bool.false_eq_true, if_false, hlength] at h ⊢
    split at h
    · cases h
    · split at h
      · rename_i hbounds hsame
        cases h
        refine ⟨by omega, ?_⟩
        simpa using hsame
      · cases h

lemma matchCapture_onward (hindex : index ≤ text.length)
    (h : matchCapture text unicodeMode table backward start finish index = some after) :
    Onward text backward index after := by
  have hposition := (matchCapture_eq_some hle h).1
  cases backward with
  | true =>
    simp only [if_true] at hposition
    refine ⟨by omega, ?_⟩
    show after ≤ index
    omega
  | false =>
    simp only [Bool.false_eq_true, if_false] at hposition
    refine ⟨hposition.2, ?_⟩
    show index ≤ after
    omega

end

lemma backreferenceAt_onward {ignoreCase : Bool} {captures : ℕ → Option ℕ} {indices : List ℕ}
    {index after : ℕ} (hindices : ∀ index ∈ indices, 2 * index + 1 < slots)
    (hordered : Ordered slots captures) (hindex : index ≤ reader.text.length)
    (h : backreferenceAt reader backward ignoreCase captures indices index = some after) :
    Onward reader.text backward index after := by
  induction indices generalizing index with
  | nil =>
    cases h
    exact Onward.refl hindex
  | cons capture indices ih =>
    have htail := fun index hmem => hindices index (mem_cons_of_mem capture hmem)
    simp only [backreferenceAt] at h
    split at h
    · rename_i start finish hstart hfinish
      rw [Option.bind_eq_some_iff] at h
      obtain ⟨middle, hmiddle, hafter⟩ := h
      have hle := hordered capture start finish (hindices capture mem_cons_self) hstart
        hfinish
      have honward := matchCapture_onward hle hindex hmiddle
      exact honward.trans (ih htail honward.1 hafter)
    · exact ih htail hindex h

/-! ## Captures -/

namespace Extends

lemma refl (hindex : place.index ≤ text.length) (hordered : Ordered slots place.captures) :
    Extends text slots backward groups place place where
  onward := .refl hindex
  outside _ _ := rfl
  ordered := hordered

lemma trans (h : Extends text slots backward groups place found)
    (h' : Extends text slots backward groups' found next) :
    Extends text slots backward (groups ++ groups') place next where
  onward := h.onward.trans h'.onward
  outside slot hslot := by
    rw [mem_append, not_or] at hslot
    rw [h'.outside slot hslot.2, h.outside slot hslot.1]
  ordered := h'.ordered

lemma mono (h : Extends text slots backward groups place found)
    (hsub : ∀ index ∈ groups, index ∈ groups') :
    Extends text slots backward groups' place found where
  onward := h.onward
  outside slot hslot := h.outside slot fun hmem => hslot (hsub _ hmem)
  ordered := h.ordered

/-- Nothing but the position changes. -/
lemma of_index {index : ℕ} (hordered : Ordered slots place.captures)
    (honward : Onward text backward place.index index) :
    Extends text slots backward groups place { place with index } where
  onward := honward
  outside _ _ := rfl
  ordered := hordered

lemma fresh {code : Code} (h : Extends text slots backward groups place found)
    (hfresh : code.Fresh place.captures) (hdisjoint : groups.Disjoint code.groups) :
    code.Fresh found.captures := by
  intro slot hslot
  rw [h.outside slot fun hmem => hdisjoint hmem hslot]
  exact hfresh slot hslot

end Extends

lemma mem_movedTo {position : Option ℕ} (h : found ∈ place.movedTo position) :
    ∃ index, position = some index ∧ found = { place with index } := by
  cases position with
  | none => cases h
  | some index => exact ⟨index, rfl, mem_singleton.mp h⟩

lemma mem_when {test : Bool} (h : found ∈ place.when test) : found = place ∧ test = true := by
  cases test with
  | false => cases h
  | true => exact ⟨mem_singleton.mp h, rfl⟩

lemma Ordered.clear {clearFrom clearTo : ℕ} (h : Ordered slots place.captures) :
    Ordered slots (place.clear clearFrom clearTo).captures := by
  intro index start finish hslot hstart hfinish
  simp only [Place.clear] at hstart hfinish
  split at hstart
  · cases hstart
  · split at hfinish
    · cases hfinish
    · exact h index start finish hslot hstart hfinish

/-- The first save of a capture whose other slot is unset keeps every capture in order. -/
lemma Ordered.saveOpen {index : ℕ} (h : Ordered slots place.captures)
    (hclose : place.captures (closeSlot backward index) = none) :
    Ordered slots (place.save (openSlot backward index)).captures := by
  intro other start finish hslot hstart hfinish
  by_cases heq : other = index
  · subst heq
    cases backward
    · simp [Place.save, openSlot, closeSlot] at hfinish hclose
      rw [hclose] at hfinish
      cases hfinish
    · simp [Place.save, openSlot, closeSlot] at hstart hclose
      rw [hclose] at hstart
      cases hstart
  · have hne : 2 * other ≠ openSlot backward index ∧ 2 * other + 1 ≠ openSlot backward index := by
      cases backward <;> simp [openSlot] <;> omega
    simp only [Place.save, update_of_ne hne.1, update_of_ne hne.2]
      at hstart hfinish
    exact h other start finish hslot hstart hfinish

/-- The last save of a capture, from further on than its first. -/
lemma Ordered.saveClose {index first : ℕ} (h : Ordered slots place.captures)
    (hopen : place.captures (openSlot backward index) = some first)
    (honward : Onward text backward first place.index) :
    Ordered slots (place.save (closeSlot backward index)).captures := by
  intro other start finish hslot hstart hfinish
  by_cases heq : other = index
  · subst heq
    have hle := honward.2
    cases backward
    · simp [Place.save, openSlot, closeSlot] at hstart hfinish hopen hle
      rw [hopen] at hstart
      cases hstart
      omega
    · simp [Place.save, openSlot, closeSlot] at hstart hfinish hopen hle
      rw [hopen] at hfinish
      cases hfinish
      omega
  · have hne : 2 * other ≠ closeSlot backward index ∧
        2 * other + 1 ≠ closeSlot backward index := by
      cases backward <;> simp [closeSlot] <;> omega
    simp only [Place.save, update_of_ne hne.1, update_of_ne hne.2]
      at hstart hfinish
    exact h other start finish hslot hstart hfinish

lemma openSlot_div (index : ℕ) : openSlot backward index / 2 = index := by
  cases backward <;> grind [openSlot]

lemma closeSlot_div (index : ℕ) : closeSlot backward index / 2 = index := by
  cases backward <;> grind [closeSlot]

/-! ## Results -/

/-- Clearing the range of a body makes the body fresh. -/
lemma Code.fresh_clear {body : Code} {clearFrom clearTo : ℕ}
    (h : ∀ slot, clearFrom ≤ slot ∧ slot < clearTo ↔ slot / 2 ∈ body.groups) :
    body.Fresh (place.clear clearFrom clearTo).captures := by
  intro slot hslot
  exact if_pos ((h slot).mpr hslot)

lemma Extends.clear {clearFrom clearTo : ℕ}
    (h : ∀ slot, clearFrom ≤ slot ∧ slot < clearTo ↔ slot / 2 ∈ groups)
    (hindex : place.index ≤ text.length) (hordered : Ordered slots place.captures) :
    Extends text slots backward groups place (place.clear clearFrom clearTo) where
  onward := .refl hindex
  outside slot hslot := if_neg fun hrange => hslot ((h slot).mp hrange)
  ordered := hordered.clear

/-- Iterations of a body that extends places extend places. -/
lemma repeatResults_extends {body : Place → List Place} {minimum : ℕ} {maximum : Option ℕ}
    {greedy : Bool} {fuel count : ℕ}
    (hbody : ∀ place : Place, place.index ≤ text.length → Ordered slots place.captures →
      ∀ found ∈ body place, Extends text slots backward groups place found)
    (hindex : place.index ≤ text.length) (hordered : Ordered slots place.captures)
    (h : found ∈ repeatResults body minimum maximum greedy fuel count place) :
    Extends text slots backward groups place found := by
  induction fuel generalizing count place found with
  | zero => cases h
  | succ fuel ih =>
    -- An iteration, and those after it.
    have hmore : ∀ found ∈ ((body place).filter fun next =>
        decide (count < minimum) || decide (next.index ≠ place.index)).flatMap
          (repeatResults body minimum maximum greedy fuel (count + 1)),
        Extends text slots backward groups place found := by
      intro found hfound
      obtain ⟨next, hnext, hlast⟩ := mem_flatMap.mp hfound
      have hfirst := hbody place hindex hordered next (mem_of_mem_filter hnext)
      have hrest := ih hfirst.onward.1 hfirst.ordered hlast
      exact (hfirst.trans hrest).mono fun index hmem => by simpa using hmem
    have hself : Extends text slots backward groups place place := .refl hindex hordered
    simp only [repeatResults] at h
    split at h
    · exact hmore found h
    split at h
    · rw [mem_singleton.mp h]
      exact hself
    split at h
    · rcases mem_append.mp h with h | h
      · exact hmore found h
      · rw [mem_singleton.mp h]
        exact hself
    · rcases mem_cons.mp h with rfl | h
      · exact hself
      · exact hmore found h

/-- Every result of matcher code extends the place it is found from. -/
theorem Code.results_extends (code : Code) (reader : Reader) (hform : code.WellFormed slots)
    (hfresh : code.Fresh place.captures) (hordered : Ordered slots place.captures)
    (hindex : place.index ≤ reader.text.length)
    (h : found ∈ code.results reader backward place) :
    Extends reader.text slots backward code.groups place found := by
  induction code generalizing backward place found with
  | skip =>
    rw [mem_singleton.mp h]
    exact .refl hindex hordered
  | consume set =>
    obtain ⟨index, hat, rfl⟩ := mem_movedTo h
    exact .of_index hordered (consumeAt_onward hat hindex)
  | edge assertion multiline =>
    obtain ⟨rfl, -⟩ := mem_when h
    exact .refl hindex hordered
  | boundary negated set =>
    obtain ⟨rfl, -⟩ := mem_when h
    exact .refl hindex hordered
  | backreference ignoreCase indices =>
    obtain ⟨index, hat, rfl⟩ := mem_movedTo h
    exact .of_index hordered (backreferenceAt_onward hform hordered hindex hat)
  | sequence first second ihFirst ihSecond =>
    obtain ⟨middle, hmiddle, hfound⟩ := mem_flatMap.mp h
    obtain ⟨hfirst, hsecond, hdisjoint⟩ := hform
    have hstep := ihFirst hfirst (fun slot hslot => hfresh slot (mem_append_left _ hslot))
      hordered hindex hmiddle
    have hfreshSecond : second.Fresh place.captures :=
      fun slot hslot => hfresh slot (mem_append_right _ hslot)
    exact hstep.trans (ihSecond hsecond (hstep.fresh hfreshSecond hdisjoint) hstep.ordered
      hstep.onward.1 hfound)
  | alternate preferred alternative ihPreferred ihAlternative =>
    rcases mem_append.mp h with h | h
    · apply (ihPreferred hform.1 _ hordered hindex h).mono
      · exact fun index hmem => mem_append_left _ hmem
      · exact fun slot hslot => hfresh slot (mem_append_left _ hslot)
    · apply (ihAlternative hform.2 _ hordered hindex h).mono
      · exact fun index hmem => mem_append_right _ hmem
      · exact fun slot hslot => hfresh slot (mem_append_right _ hslot)
  | capture index body ih =>
    obtain ⟨inner, hinner, rfl⟩ := mem_map.mp h
    obtain ⟨hbody, hnotin, hslot⟩ := hform
    have hclose : place.captures (closeSlot backward index) = none := by
      apply hfresh
      rw [closeSlot_div]
      exact mem_cons_self
    have hstep : Extends reader.text slots backward body.groups
        (place.save (openSlot backward index)) inner := by
      apply ih hbody _ (hordered.saveOpen hclose) hindex hinner
      intro slot hmem
      have hne : slot ≠ openSlot backward index := by
        rintro rfl
        rw [openSlot_div] at hmem
        exact hnotin hmem
      simp only [Place.save, update_of_ne hne]
      exact hfresh slot (mem_cons_of_mem _ hmem)
    -- The body leaves the first slot as it was saved.
    have hopen : inner.captures (openSlot backward index) = some place.index := by
      rw [hstep.outside _ (by rwa [openSlot_div])]
      exact update_self _ _ _
    exact {
      onward := hstep.onward
      outside := by
        intro slot hslot
        simp only [Code.groups, mem_cons, not_or] at hslot
        have hneClose : slot ≠ closeSlot backward index := by
          rintro rfl
          exact hslot.1 (closeSlot_div index)
        have hneOpen : slot ≠ openSlot backward index := by
          rintro rfl
          exact hslot.1 (openSlot_div index)
        simp only [Place.save, update_of_ne hneClose]
        rw [hstep.outside slot hslot.2]
        exact update_of_ne hneOpen _ _
      ordered := hstep.ordered.saveClose hopen hstep.onward }
  | repetition minimum maximum greedy clearFrom clearTo body ih =>
    apply repeatResults_extends _ hindex hordered h
    intro place hindex hordered found hfound
    have hclear : Extends reader.text slots backward body.groups place
        (place.clear clearFrom clearTo) := .clear hform.2.2 hindex hordered
    have hrest := ih hform.1 (Code.fresh_clear hform.2.2) hordered.clear hindex hfound
    exact (hclear.trans hrest).mono fun index hmem => by simpa [Code.groups] using hmem
  | look behind negated body ih =>
    simp only [Code.results] at h
    cases hbody : body.results reader behind place with
    | nil =>
      rw [hbody] at h
      cases negated
      · cases h
      · rw [mem_singleton.mp h]
        exact .refl hindex hordered
    | cons first rest =>
      rw [hbody] at h
      cases negated
      · rw [mem_singleton.mp h]
        have hfirst : Extends reader.text slots behind body.groups place first := by
          apply ih hform hfresh hordered hindex
          rw [hbody]
          exact mem_cons_self
        exact { onward := .refl hindex, outside := hfirst.outside, ordered := hfirst.ordered }
      · cases h

end

/-! ## Moves without a trail

The executor over points that hold their registers, so that a choice on the stack is a point and
nothing has to be undone. `Move` has one rule for each thing an instruction can do. The rules ask
for registers of the program and for counters that hold a number, which is what a built program
provides; `Simulation` says that the executor does what these rules say.
-/

open Oseo.Library

/-- A state of the matcher without its choices. -/
@[ext]
structure Point where
  address : ℕ
  index : ℕ
  registers : ℕ → Option ℕ

namespace Point

/-- Continue at an address. -/
def goto (point : Point) (address : ℕ) : Point := { point with address }

/-- Continue with the next instruction. -/
def next (point : Point) : Point := point.goto (point.address + 1)

/-- Write one register. -/
def write (point : Point) (register : ℕ) (value : Option ℕ) : Point :=
  { point with registers := Function.update point.registers register value }

/-- The slots of a range reset to unset. -/
def clear (point : Point) (clearFrom clearTo : ℕ) : Point :=
  { point with registers := fun slot =>
      if clearFrom ≤ slot ∧ slot < clearTo then none else point.registers slot }

variable (point : Point) (address register slot clearFrom clearTo : ℕ) (value : Option ℕ)

@[simp] lemma goto_registers : (point.goto address).registers = point.registers := rfl

@[simp] lemma goto_index : (point.goto address).index = point.index := rfl

@[simp] lemma goto_address : (point.goto address).address = address := rfl

@[simp] lemma next_registers : point.next.registers = point.registers := rfl

@[simp] lemma next_index : point.next.index = point.index := rfl

@[simp] lemma next_address : point.next.address = point.address + 1 := rfl

@[simp] lemma write_index : (point.write register value).index = point.index := rfl

@[simp] lemma write_address : (point.write register value).address = point.address := rfl

@[simp] lemma write_same : (point.write register value).registers register = value :=
  Function.update_self _ _ _

lemma write_other {other : ℕ} (h : other ≠ register) :
    (point.write register value).registers other = point.registers other :=
  Function.update_of_ne h _ _

@[simp] lemma clear_index : (point.clear clearFrom clearTo).index = point.index := rfl

@[simp] lemma clear_address : (point.clear clearFrom clearTo).address = point.address := rfl

lemma clear_outside (h : ¬(clearFrom ≤ slot ∧ slot < clearTo)) :
    (point.clear clearFrom clearTo).registers slot = point.registers slot :=
  if_neg h

end Point

/-- What a program reads of a text. -/
def MatcherProgram.reader (program : MatcherProgram) (text : List CodeUnit) : Reader :=
  ⟨text, program.unicodeMode, program.canonicalization⟩

/-- The registers an instruction names are below a bound. -/
def Instruction.RegistersBelow (registers : ℕ) : Instruction → Prop
  | .save slot => slot < registers
  | .clear _ last => last ≤ registers
  | .repetition counter _ _ _ _ _ => counter < registers
  | .repeatInit counter => counter < registers
  | .repeatEnter _ _ clearTo counter position =>
    clearTo ≤ registers ∧ counter < registers ∧ position < registers
  | .repeatEnd counter _ _ position => counter < registers ∧ position < registers
  | .lookStart _ frame _ _ => frame < registers
  | .lookEnd _ frame _ => frame < registers
  | .backreference _ _ slots => ∀ slot ∈ slots, slot + 1 < registers
  | _ => True

/-- The program has an instruction at an address, over registers of its own. -/
def MatcherProgram.Has (program : MatcherProgram) (address : ℕ) (instruction : Instruction) :
    Prop :=
  program.instructions[address]? = some instruction ∧
    instruction.RegistersBelow program.registers

variable (program : MatcherProgram) (text : List CodeUnit)

/-- The moves of the matcher, from a point with its choices. -/
inductive Move : Point × List Point → Option (Point × List Point) → Prop
  | consume {point : Point} {choices : List Point} {backward : Bool} {set index : ℕ}
    (at_ : program.Has point.address (.consume backward set))
    (consumed : consumeAt text program.unicodeMode backward (program.sets[set]?.getD [])
      point.index = some index) :
    Move (point, choices) (some ({ point.next with index }, choices))
  | consumeFail {point : Point} {choices : List Point} {backward : Bool} {set : ℕ}
    (at_ : program.Has point.address (.consume backward set))
    (refused : consumeAt text program.unicodeMode backward (program.sets[set]?.getD [])
      point.index = none) :
    Move (point, choices) (resume choices)
  | edge {point : Point} {choices : List Point} {assertion : Edge} {multiline : Bool}
    (at_ : program.Has point.address (.edge assertion multiline))
    (holds : matchesEdge text program.unicodeMode point.index assertion multiline = true) :
    Move (point, choices) (some (point.next, choices))
  | edgeFail {point : Point} {choices : List Point} {assertion : Edge} {multiline : Bool}
    (at_ : program.Has point.address (.edge assertion multiline))
    (fails : matchesEdge text program.unicodeMode point.index assertion multiline = false) :
    Move (point, choices) (resume choices)
  | boundary {point : Point} {choices : List Point} {negated : Bool} {set : ℕ}
    (at_ : program.Has point.address (.boundary negated set))
    (holds : (matchesBoundary text program.unicodeMode point.index
      (program.sets[set]?.getD []) != negated) = true) :
    Move (point, choices) (some (point.next, choices))
  | boundaryFail {point : Point} {choices : List Point} {negated : Bool} {set : ℕ}
    (at_ : program.Has point.address (.boundary negated set))
    (fails : (matchesBoundary text program.unicodeMode point.index
      (program.sets[set]?.getD []) != negated) = false) :
    Move (point, choices) (resume choices)
  | save {point : Point} {choices : List Point} {slot : ℕ}
    (at_ : program.Has point.address (.save slot)) :
    Move (point, choices) (some ((point.write slot (some point.index)).next, choices))
  | fork {point : Point} {choices : List Point} {alternative preferred : ℕ}
    (at_ : program.Has point.address (.fork alternative preferred)) :
    Move (point, choices) (some (point.goto preferred, point.goto alternative :: choices))
  | jump {point : Point} {choices : List Point} {target : ℕ}
    (at_ : program.Has point.address (.jump target)) :
    Move (point, choices) (some (point.goto target, choices))
  | repeatInit {point : Point} {choices : List Point} {counter : ℕ}
    (at_ : program.Has point.address (.repeatInit counter)) :
    Move (point, choices) (some ((point.write counter (some 0)).next, choices))
  | repeatForced {point : Point} {choices : List Point} {counter enter exit : ℕ}
    {greedy : Bool} {maximum : Option ℕ} {minimum count : ℕ}
    (at_ : program.Has point.address (.repetition counter enter exit greedy maximum minimum))
    (counted : point.registers counter = some count) (below : count < minimum) :
    Move (point, choices) (some (point.goto enter, choices))
  | repeatFull {point : Point} {choices : List Point} {counter enter exit : ℕ}
    {greedy : Bool} {maximum : Option ℕ} {minimum count : ℕ}
    (at_ : program.Has point.address (.repetition counter enter exit greedy maximum minimum))
    (counted : point.registers counter = some count) (reached : minimum ≤ count)
    (full : maximum.any (· ≤ count) = true) :
    Move (point, choices) (some (point.goto exit, choices))
  | repeatGreedy {point : Point} {choices : List Point} {counter enter exit : ℕ}
    {maximum : Option ℕ} {minimum count : ℕ}
    (at_ : program.Has point.address (.repetition counter enter exit true maximum minimum))
    (counted : point.registers counter = some count) (reached : minimum ≤ count)
    (room : maximum.any (· ≤ count) = false) :
    Move (point, choices) (some (point.goto enter, point.goto exit :: choices))
  | repeatLazy {point : Point} {choices : List Point} {counter enter exit : ℕ}
    {maximum : Option ℕ} {minimum count : ℕ}
    (at_ : program.Has point.address (.repetition counter enter exit false maximum minimum))
    (counted : point.registers counter = some count) (reached : minimum ≤ count)
    (room : maximum.any (· ≤ count) = false) :
    Move (point, choices) (some (point.goto exit, point.goto enter :: choices))
  | repeatEnter {point : Point} {choices : List Point}
    {body clearFrom clearTo counter position count : ℕ}
    (at_ : program.Has point.address (.repeatEnter body clearFrom clearTo counter position))
    (counted : point.registers counter = some count) :
    Move (point, choices) (some ((((point.write counter (some (count + 1))).write position
      (some point.index)).clear clearFrom clearTo).goto body, choices))
  | repeatEnd {point : Point} {choices : List Point}
    {counter head minimum position count started : ℕ}
    (at_ : program.Has point.address (.repeatEnd counter head minimum position))
    (counted : point.registers counter = some (count + 1))
    (placed : point.registers position = some started)
    (onward : count < minimum ∨ started ≠ point.index) :
    Move (point, choices) (some (point.goto head, choices))
  | repeatEmpty {point : Point} {choices : List Point}
    {counter head minimum position count : ℕ}
    (at_ : program.Has point.address (.repeatEnd counter head minimum position))
    (counted : point.registers counter = some (count + 1))
    (placed : point.registers position = some point.index) (reached : minimum ≤ count) :
    Move (point, choices) (resume choices)
  | lookStart {point : Point} {choices : List Point} {body frame onFail : ℕ} {negated : Bool}
    (at_ : program.Has point.address (.lookStart body frame negated onFail)) :
    Move (point, choices) (some ((point.write frame (some choices.length)).goto body,
      point.goto onFail :: choices))
  | lookEnd {point entry : Point} {above choices : List Point} {exit frame : ℕ}
    (at_ : program.Has point.address (.lookEnd exit frame false))
    (framed : point.registers frame = some choices.length) :
    Move (point, above ++ entry :: choices)
      (some ({ point.goto exit with index := entry.index }, choices))
  | lookEndNegated {point entry : Point} {above choices : List Point} {exit frame : ℕ}
    (at_ : program.Has point.address (.lookEnd exit frame true))
    (framed : point.registers frame = some choices.length) :
    Move (point, above ++ entry :: choices) (resume choices)
  | backreference {point : Point} {choices : List Point} {backward ignoreCase : Bool}
    {indices : List ℕ} {index : ℕ}
    (at_ : program.Has point.address (.backreference backward ignoreCase (indices.map (2 * ·))))
    (matched : backreferenceAt (program.reader text) backward ignoreCase point.registers indices
      point.index = some index) :
    Move (point, choices) (some ({ point.next with index }, choices))
  | backreferenceFail {point : Point} {choices : List Point} {backward ignoreCase : Bool}
    {indices : List ℕ}
    (at_ : program.Has point.address (.backreference backward ignoreCase (indices.map (2 * ·))))
    (refused : backreferenceAt (program.reader text) backward ignoreCase point.registers indices
      point.index = none) :
    Move (point, choices) (resume choices)
  | fail {point : Point} {choices : List Point} (at_ : program.Has point.address .fail) :
    Move (point, choices) (resume choices)

end Oseo.RegExpMatcher
