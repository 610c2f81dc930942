import Oseo.RegExpMatcher.ProgramRuns

/-!
# Positions at code-point boundaries

In unicode mode the comparison of a backreference reads code points, as long as both ends of its
capture are boundaries: it succeeds only if the code points of the capture are repeated, up to
canonicalization (`sameCharacters_codePoints`, `matchCapture_repeats`). A matcher moves from boundary
to boundary, except where a backreference goes back over a region that starts inside a surrogate
pair (`Point.EntersPair`). `Placed` is what every point of a search keeps: its position and its
captures are boundaries of the text.
-/

namespace Oseo.RegExpMatcher

section

open List

section

variable {text : List CodeUnit} {table : Option Canonicalization}
variable {start finish first last index : ℕ} {backward : Bool}

/-! ## Widths -/

/-- A character and its canonical form are the same number of units wide. -/
def KeepsWidths (table : Option Canonicalization) : Prop :=
  ∀ character, 0xffff < canonicalize table character ↔ 0xffff < character

/-- Case data whose classes do not mix characters of one and of two units. -/
def UnicodeData.KeepsWidths (unicodeData : UnicodeData) : Prop :=
  ∀ provide, unicodeData.caseEquivalenceClasses = some provide → ∀ members ∈ provide true,
    (∀ member ∈ members, member ≤ 0xffff) ∨ ∀ member ∈ members, 0xffff < member

lemma canonicalizeLoop_cases (canonicalization : Canonicalization) (character : ℕ) :
    ∀ fuel low high,
      canonicalizeLoop canonicalization character fuel low high = character ∨
      ∃ middle : ℕ, canonicalization.characters[middle]?.getD 0 = character ∧
        canonicalizeLoop canonicalization character fuel low high =
          canonicalization.canonical[middle]?.getD character := by
  intro fuel
  induction fuel with
  | zero => exact fun low high => .inl rfl
  | succ fuel ih =>
    intro low high
    rw [canonicalizeLoop]
    split
    · dsimp only
      split
      · rename_i hfound
        exact .inr ⟨_, hfound, rfl⟩
      · split
        · exact ih _ _
        · exact ih _ _
    · exact .inl rfl

lemma lowestMember_mem {members : List ℕ} (h : members ≠ []) :
    lowestMember members ∈ members := by
  -- The minimum is the first member or one of those folded in.
  have hfold : ∀ (rest : List ℕ) (least : ℕ), rest.foldl min least = least ∨
      rest.foldl min least ∈ rest := by
    intro rest
    induction rest with
    | nil => exact fun least => .inl rfl
    | cons member rest ih =>
      intro least
      rw [foldl_cons]
      rcases ih (min least member) with heq | hmem
      · rw [heq]
        rcases Nat.le_total least member with hle | hle
        · exact .inl (Nat.min_eq_left hle)
        · rw [Nat.min_eq_right hle]
          exact .inr mem_cons_self
      · exact .inr (mem_cons_of_mem _ hmem)
  cases members with
  | nil => exact absurd rfl h
  | cons member members =>
    rcases hfold (member :: members) member with heq | hmem
    · show (member :: members).foldl min member ∈ _
      rw [heq]
      exact mem_cons_self
    · exact hmem

/-- An entry of the table is a member of a class and its representative. -/
lemma canonicalizationTable_entry {classes : List (List ℕ)} {position character canonical : ℕ}
    (hcharacter : (canonicalizationTable classes).characters[position]? = some character)
    (hcanonical : (canonicalizationTable classes).canonical[position]? = some canonical) :
    ∃ members ∈ classes, character ∈ members ∧ canonical = lowestMember members := by
  unfold canonicalizationTable at hcharacter hcanonical
  simp only [getElem?_map, Option.map_eq_some_iff] at hcharacter hcanonical
  obtain ⟨pair, hpair, rfl⟩ := hcharacter
  obtain ⟨pair', hpair', rfl⟩ := hcanonical
  rw [hpair] at hpair'
  cases hpair'
  have hmem := mem_of_getElem? hpair
  rw [mem_insertionSort, mem_flatMap] at hmem
  obtain ⟨members, hmembers, hmem⟩ := hmem
  split at hmem
  · cases hmem
  · rw [mem_map] at hmem
    obtain ⟨member, hmember, rfl⟩ := hmem
    exact ⟨members, hmembers, (mem_filter.mp hmember).1, rfl⟩

lemma canonicalizationTable_keepsWidths {classes : List (List ℕ)}
    (h : ∀ members ∈ classes,
      (∀ member ∈ members, member ≤ 0xffff) ∨ ∀ member ∈ members, 0xffff < member) :
    KeepsWidths (some (canonicalizationTable classes)) := by
  intro character
  rcases canonicalizeLoop_cases (canonicalizationTable classes) character
    (canonicalizationTable classes).characters.length 0
    (canonicalizationTable classes).characters.length with heq | ⟨middle, hcharacter, hcanonical⟩
  · rw [canonicalize, heq]
  · rw [canonicalize, hcanonical]
    cases hentry : (canonicalizationTable classes).canonical[middle]? with
    | none => exact Iff.rfl
    | some canonical =>
      have hlengths : (canonicalizationTable classes).characters.length =
          (canonicalizationTable classes).canonical.length := by simp [canonicalizationTable]
      obtain ⟨hlt, -⟩ := List.getElem?_eq_some_iff.mp hentry
      rw [List.getElem?_eq_getElem (by omega), Option.getD_some] at hcharacter
      obtain ⟨members, hmembers, hmem, hlowest⟩ := canonicalizationTable_entry
        ((getElem?_eq_getElem (by omega)).trans (congrArg some hcharacter)) hentry
      have hlowest' := lowestMember_mem (ne_nil_of_mem hmem)
      rw [← hlowest] at hlowest'
      show 0xffff < canonical ↔ 0xffff < character
      rcases h members hmembers with hall | hall
      · exact iff_of_false (Nat.not_lt_of_le (hall _ hlowest')) (Nat.not_lt_of_le (hall _ hmem))
      · exact iff_of_true (hall _ hlowest') (hall _ hmem)

/-! ## One candidate -/

/-- The code points from `first` to `last` repeat those of a capture, up to canonicalization. -/
def Repeats (text : List CodeUnit) (table : Option Canonicalization)
    (start finish first last : ℕ) : Prop :=
  last = first + (finish - start) ∧
    (codePoints text start finish).map (canonicalize table) =
      (codePoints text first last).map (canonicalize table)

/-- The comparison loop compares code points, and leaves a boundary a boundary. -/
theorem sameCharacters_codePoints (hwidths : KeepsWidths table) {fuel source compared : ℕ}
    (h : sameCharacters text true table fuel source finish compared = true)
    (hfuel : finish - source ≤ fuel) (hle : source ≤ finish) (hfinish : finish ≤ text.length)
    (hboundary : CodePointBoundary text finish)
    (hroom : compared + (finish - source) ≤ text.length) :
    (CodePointBoundary text compared →
      CodePointBoundary text (compared + (finish - source))) ∧
    Repeats text table source finish compared (compared + (finish - source)) := by
  induction fuel generalizing source compared with
  | zero =>
    have heq : source = finish := by omega
    subst heq
    rw [Nat.sub_self, Nat.add_zero]
    exact ⟨id, by omega, by simp⟩
  | succ fuel ih =>
    rw [sameCharacters] at h
    by_cases hlt : source < finish
    · obtain ⟨left, hleft, hwithin, hcons⟩ := codePoints_eq_cons hlt hfinish hboundary
      rw [if_pos hlt] at h
      simp only [hleft] at h
      cases hright : characterAt text compared true with
      | none => simp [hright] at h
      | some right =>
        simp only [hright] at h
        split at h
        · rename_i hsame
          -- Characters with one canonical form are equally wide.
          have hwidth : widthAt text compared true = widthAt text source true := by
            have hiff : 0xffff < right ↔ 0xffff < left := by
              rw [← hwidths right, ← hwidths left, hsame]
            rw [widthAt_eq hleft, widthAt_eq hright]
            simp only [hiff]
          have hend : compared + widthAt text source true +
              (finish - (source + widthAt text source true)) = compared + (finish - source) := by
            omega
          have hpositive : 0 < widthAt text source true := by
            rw [widthAt_eq hleft]
            split <;> omega
          obtain ⟨hkept, -, hrest⟩ := ih h (by omega) hwithin (by omega)
          rw [hend] at hkept hrest
          have hafter := @boundary_after text compared (by omega)
          rw [hwidth] at hafter
          obtain ⟨right', hright', -, hcons'⟩ := @codePoints_eq_cons text compared
            (compared + (finish - source)) (by omega) hroom (hkept hafter)
          rw [hright] at hright'
          cases hright'
          refine ⟨fun _ => hkept hafter, rfl, ?_⟩
          rw [hcons, hcons', hwidth, map_cons, map_cons, hsame, hrest]
        · cases h
    · have heq : source = finish := by omega
      subst heq
      rw [Nat.sub_self, Nat.add_zero]
      exact ⟨id, by omega, by simp⟩

/-- A candidate that matches repeats its capture; read forward from a boundary it ends at one. -/
lemma matchCapture_repeats (hwidths : KeepsWidths table) {index' : ℕ}
    (h : matchCapture text true table backward start finish index = some index')
    (hle : start ≤ finish) (hfinish : finish ≤ text.length)
    (hboundary : CodePointBoundary text finish) :
    if backward then Repeats text table start finish index' index
    else Repeats text table start finish index index' ∧
      (CodePointBoundary text index → CodePointBoundary text index') := by
  obtain ⟨hlast, hsame⟩ := matchCapture_eq_some hle h
  cases backward with
  | true =>
    simp only [if_true] at hlast hsame ⊢
    have hrepeats := (sameCharacters_codePoints hwidths hsame (Nat.le_refl _) hle hfinish
      hboundary (by omega)).2
    rw [hlast.1] at hrepeats
    exact hrepeats
  | false =>
    simp only [Bool.false_eq_true, if_false] at hlast hsame ⊢
    obtain ⟨hkept, hrepeats⟩ := sameCharacters_codePoints hwidths hsame (Nat.le_refl _) hle
      hfinish hboundary (by omega)
    rw [← hlast.1] at hkept hrepeats
    exact ⟨hrepeats, hkept⟩

end

/-! ## Points of a search -/

open Nat
open Oseo.Library

variable {program : MatcherProgram} {text : List CodeUnit} {slots : ℕ}

/-! ## Registers of a built program -/

/-- An instruction uses no capture register for something else, and compares captures only. -/
def Instruction.Apart (slots : ℕ) : Instruction → Prop
  | .repetition counter _ _ _ _ _ => slots ≤ counter
  | .repeatInit counter => slots ≤ counter
  | .repeatEnter _ _ _ counter position => slots ≤ counter ∧ slots ≤ position
  | .repeatEnd counter _ _ position => slots ≤ counter ∧ slots ≤ position
  | .lookStart _ frame _ _ => slots ≤ frame
  | .lookEnd _ frame _ => slots ≤ frame
  | .backreference _ _ candidates => ∃ indices : List ℕ,
    candidates = indices.map (2 * ·) ∧ ∀ index ∈ indices, 2 * index + 1 < slots
  | _ => True

/-- The candidates of a backreference are captures. -/
lemma Instruction.Apart.candidates {backward ignoreCase : Bool} {candidates : List ℕ}
    (h : (Instruction.backreference backward ignoreCase candidates).Apart slots) :
    ∀ slot ∈ candidates, slot + 1 < slots := by
  obtain ⟨indices, rfl, hindices⟩ := h
  intro slot hmem
  obtain ⟨index, hindex, rfl⟩ := mem_map.mp hmem
  exact hindices index hindex

/-- The instructions of a piece of code keep apart from the captures. -/
lemma Code.Lays.apart {code : Code} {backward : Bool} {failAt first last low high : ℕ}
    (h : code.Lays program failAt backward first last low high) (hform : code.WellFormed slots)
    (hslots : slots ≤ low) {address : ℕ} {instruction : Instruction}
    (hfirst : first ≤ address) (hlast : address < last)
    (hfetch : program.instructions[address]? = some instruction) : instruction.Apart slots := by
  -- The instruction at an address is the one laid there.
  have hlaid : ∀ {laid : Instruction} {target : ℕ}, program.instructions[target]? = some laid →
      laid.Apart slots → address = target → instruction.Apart slots := by
    intro laid target hat hapart heq
    subst heq
    rw [hat] at hfetch
    cases hfetch
    exact hapart
  induction code generalizing backward first last low high with
  | skip =>
    obtain ⟨rfl, -⟩ := h
    omega
  | consume set =>
    obtain ⟨⟨index, hat, -⟩, rfl, -⟩ := h
    exact hlaid hat trivial (by omega)
  | edge assertion multiline =>
    obtain ⟨hat, rfl, -⟩ := h
    exact hlaid hat trivial (by omega)
  | boundary negated set =>
    obtain ⟨⟨index, hat, -⟩, rfl, -⟩ := h
    exact hlaid hat trivial (by omega)
  | backreference ignoreCase indices =>
    obtain ⟨hat, rfl, -⟩ := h
    exact hlaid hat ⟨indices, rfl, hform⟩ (by omega)
  | sequence one two ihOne ihTwo =>
    obtain ⟨middle, between, hone, htwo⟩ := h
    rcases lt_or_ge address middle with hlt | hge
    · exact ihOne hone hform.1 hslots hfirst hlt
    · exact ihTwo htwo hform.2.1 (le_trans hslots hone.low_le) hge hlast
  | alternate preferred alternative ihPreferred ihAlternative =>
    obtain ⟨middle, between, hfork, hpreferred, hjump, halternative⟩ := h
    rcases lt_or_ge address middle with hlt | hge
    · rcases lt_or_ge first address with hinside | heq
      · exact ihPreferred hpreferred hform.1 hslots hinside hlt
      · exact hlaid hfork trivial (by omega)
    · rcases lt_or_ge middle address with hinside | heq
      · exact ihAlternative halternative hform.2 (le_trans hslots hpreferred.low_le)
          hinside hlast
      · exact hlaid hjump trivial (by omega)
  | capture index body ih =>
    obtain ⟨middle, hopen, hbody, hclose, rfl⟩ := h
    rcases lt_or_ge address middle with hlt | hge
    · rcases lt_or_ge first address with hinside | heq
      · exact ih hbody hform.1 hslots hinside hlt
      · exact hlaid hopen trivial (by omega)
    · exact hlaid hclose trivial (by omega)
  | repetition minimum maximum greedy clearFrom clearTo body ih =>
    obtain ⟨middle, hinit, hhead, henter, hbody, hend, rfl⟩ := h
    rcases lt_or_ge address middle with hlt | hge
    · rcases lt_or_ge address (first + 3) with houtside | hinside
      · have hcases : address = first ∨ address = first + 1 ∨ address = first + 2 := by omega
        rcases hcases with heq | heq | heq
        · exact hlaid hinit hslots heq
        · exact hlaid hhead hslots heq
        · exact hlaid henter ⟨hslots, le_succ_of_le hslots⟩ heq
      · exact ih hbody hform.1 (by omega) hinside hlt
    · exact hlaid hend ⟨hslots, le_succ_of_le hslots⟩ (by omega)
  | look behind negated body ih =>
    obtain ⟨middle, hstart, hbody, hend, rfl⟩ := h
    rcases lt_or_ge address middle with hlt | hge
    · rcases lt_or_ge first address with hinside | heq
      · exact ih hbody hform (by omega) hinside hlt
      · exact hlaid hstart hslots (by omega)
    · exact hlaid hend hslots (by omega)

/-- Every instruction of a built program keeps apart from the captures. -/
lemma MatcherProgram.RunsCode.apart {code : Code} {last failAt address : ℕ}
    {instruction : Instruction} (h : program.RunsCode code last failAt)
    (hfetch : program.instructions[address]? = some instruction) :
    instruction.Apart program.slots := by
  obtain ⟨hlt, -⟩ := List.getElem?_eq_some_iff.mp hfetch
  have hlength := h.length
  have hfailAt := h.failAt_eq
  rcases lt_or_ge address last with hinside | hge
  · exact h.lays.apart h.form (le_refl _) (zero_le _) hinside hfetch
  · have hcases : address = last ∨ address = failAt := by omega
    rcases hcases with heq | heq
    · rw [heq, h.accepts] at hfetch
      cases hfetch
      trivial
    · rw [heq, h.fails] at hfetch
      cases hfetch
      trivial

/-! ## Backreferences -/

/-- The candidates of a backreference, one after the other, repeat their captures between the
positions from `index` to `last`. A candidate that did not participate is passed over. -/
def Compares (text : List CodeUnit) (table : Option Canonicalization) (backward : Bool)
    (captures : ℕ → Option ℕ) : (candidates : List ℕ) → (index last : ℕ) → Prop
  | [], index, last => last = index
  | slot :: candidates, index, last =>
    match captures slot, captures (slot + 1) with
    | some start, some finish => ∃ middle,
      (if backward then Repeats text table start finish middle index
        else Repeats text table start finish index middle) ∧
      Compares text table backward captures candidates middle last
    | _, _ => Compares text table backward captures candidates index last

/-- The table a backreference compares with. -/
def MatcherProgram.table (program : MatcherProgram) (ignoreCase : Bool) :
    Option Canonicalization :=
  if ignoreCase then program.canonicalization else none

/-- The instruction at an address is a backreference that goes back over what repeats its
captures, into a surrogate pair. -/
def EntersPair (program : MatcherProgram) (text : List CodeUnit) (address index : ℕ)
    (captures : ℕ → Option ℕ) : Prop :=
  ∃ ignoreCase candidates kept inside,
    program.instructions[address]? = some (.backreference true ignoreCase candidates) ∧
      kept <+: candidates ∧
      Compares text (program.table ignoreCase) true captures kept index inside ∧
      ¬CodePointBoundary text inside

/-- Only the captures of the candidates are compared. -/
lemma Compares.congr {table : Option Canonicalization} {backward : Bool}
    {captures captures' : ℕ → Option ℕ} {candidates : List ℕ} {index last : ℕ}
    (h : Compares text table backward captures candidates index last)
    (hsame : ∀ slot ∈ candidates, captures' slot = captures slot ∧
      captures' (slot + 1) = captures (slot + 1)) :
    Compares text table backward captures' candidates index last := by
  induction candidates generalizing index with
  | nil => exact h
  | cons slot candidates ih =>
    have htail := fun slot hmem => hsame slot (mem_cons_of_mem _ hmem)
    obtain ⟨hstart, hfinish⟩ := hsame slot mem_cons_self
    unfold Compares at h ⊢
    rw [hstart, hfinish]
    split
    · rename_i hstart' hfinish'
      rw [hstart', hfinish'] at h
      obtain ⟨middle, hrepeats, hrest⟩ := h
      exact ⟨middle, hrepeats, ih hrest htail⟩
    · rename_i hnot
      split at h
      · rename_i hstart' hfinish'
        exact absurd hfinish' (hnot _ _ hstart')
      · exact ih h htail

/-- A point of a search: its position and its captures are boundaries, and in order. -/
structure Placed (text : List CodeUnit) (slots : ℕ) (point : Point) : Prop where
  inside : point.index ≤ text.length
  boundary : CodePointBoundary text point.index
  captures : ∀ slot < slots, ∀ position, point.registers slot = some position →
    position ≤ text.length ∧ CodePointBoundary text position
  ordered : Ordered slots point.registers

lemma KeepsWidths.table (h : KeepsWidths program.canonicalization) (ignoreCase : Bool) :
    KeepsWidths (program.table ignoreCase) := by
  cases ignoreCase with
  | true => exact h
  | false => exact fun character => Iff.rfl

/-- A backreference that matches has compared its candidates; forward it ends at a boundary. -/
lemma backreferenceAt_compares {point : Point} {backward ignoreCase : Bool} {indices : List ℕ}
    {index last : ℕ} (hmode : program.unicodeMode = true)
    (hwidths : KeepsWidths program.canonicalization) (hplaced : Placed text slots point)
    (hindices : ∀ index ∈ indices, 2 * index + 1 < slots)
    (h : backreferenceAt (program.reader text) backward ignoreCase point.registers indices index =
      some last) :
    Compares text (program.table ignoreCase) backward point.registers (indices.map (2 * ·))
      index last ∧
    (backward = false → CodePointBoundary text index → CodePointBoundary text last) := by
  induction indices generalizing index with
  | nil =>
    cases h
    exact ⟨rfl, fun _ => id⟩
  | cons capture indices ih =>
    have hslot := hindices capture mem_cons_self
    have htail := fun index hmem => hindices index (mem_cons_of_mem capture hmem)
    rw [map_cons]
    unfold Compares
    rw [backreferenceAt] at h
    cases hstart : point.registers (2 * capture) with
    | none =>
      simp only [hstart] at h ⊢
      exact ih htail h
    | some start =>
      cases hfinish : point.registers (2 * capture + 1) with
      | none =>
        simp only [hstart, hfinish] at h ⊢
        exact ih htail h
      | some finish =>
        simp only [hstart, hfinish, Option.bind_eq_some_iff] at h ⊢
        obtain ⟨middle, hmatch, hrest⟩ := h
        obtain ⟨hcompares, hkept⟩ := ih htail hrest
        obtain ⟨hinside, hboundary⟩ := hplaced.captures _ hslot finish hfinish
        have hordered := hplaced.ordered capture start finish hslot hstart hfinish
        have hmatch : matchCapture text true (program.table ignoreCase) backward start finish
            index = some middle := hmode ▸ hmatch
        have hrepeats := matchCapture_repeats (hwidths.table ignoreCase) hmatch hordered hinside
          hboundary
        cases backward with
        | true => exact ⟨⟨middle, hrepeats, hcompares⟩, by simp⟩
        | false =>
          exact ⟨⟨middle, hrepeats.1, hcompares⟩, fun _ hindex => hkept rfl (hrepeats.2 hindex)⟩

/-! ## Moves -/

/-- Consuming leads from a boundary to a boundary. -/
lemma consumeAt_boundary {backward : Bool} {set : MatcherSet} {index after : ℕ}
    (h : consumeAt text true backward set index = some after) :
    CodePointBoundary text after := by
  unfold consumeAt at h
  cases backward with
  | true =>
    simp only [if_true] at h
    split at h
    · cases h
    · split at h
      · cases h
        exact boundary_before
      · cases h
  | false =>
    simp only [Bool.false_eq_true, if_false] at h
    split at h
    · cases h
    · split at h
      · cases h
        exact boundary_after (by omega)
      · cases h

section Moves

variable {point point' : Point} {choices choices' : List Point}

lemma Placed.congr (h : Placed text slots point) (hindex : point'.index = point.index)
    (hsame : ∀ slot < slots, point'.registers slot = point.registers slot) :
    Placed text slots point' where
  inside := hindex ▸ h.inside
  boundary := hindex ▸ h.boundary
  captures slot hslot position hposition :=
    h.captures slot hslot position ((hsame slot hslot).symm.trans hposition)
  ordered index start finish hslot hstart hfinish := by
    rw [hsame _ (by omega)] at hstart
    rw [hsame _ hslot] at hfinish
    exact h.ordered index start finish hslot hstart hfinish

/-- A point moved to another boundary. -/
lemma Placed.moved {index : ℕ} (h : Placed text slots point) (address : ℕ)
    (hinside : index ≤ text.length) (hboundary : CodePointBoundary text index) :
    Placed text slots ⟨address, index, point.registers⟩ where
  inside := hinside
  boundary := hboundary
  captures := h.captures
  ordered := h.ordered

lemma Placed.goto (h : Placed text slots point) (address : ℕ) :
    Placed text slots (point.goto address) :=
  h.congr rfl fun _ _ => rfl

/-- A register that is no capture is written. -/
lemma Placed.write {register : ℕ} (h : Placed text slots point) (hslots : slots ≤ register)
    (value : Option ℕ) : Placed text slots (point.write register value) :=
  h.congr rfl fun _ hslot => Point.write_other _ _ _ (by omega)

lemma Placed.clear (h : Placed text slots point) (clearFrom clearTo : ℕ) :
    Placed text slots (point.clear clearFrom clearTo) where
  inside := h.inside
  boundary := h.boundary
  captures slot hslot position hposition := by
    simp only [Point.clear] at hposition
    split at hposition
    · cases hposition
    · exact h.captures slot hslot position hposition
  ordered index start finish hslot hstart hfinish := by
    simp only [Point.clear] at hstart hfinish
    split at hstart
    · cases hstart
    · split at hfinish
      · cases hfinish
      · exact h.ordered index start finish hslot hstart hfinish

/-- The position is saved in a register, and the captures stay in order. -/
lemma Placed.save (h : Placed text slots point) (register : ℕ)
    (hordered : Ordered slots (point.write register (some point.index)).registers) :
    Placed text slots (point.write register (some point.index)) where
  inside := h.inside
  boundary := h.boundary
  captures slot hslot position hposition := by
    by_cases heq : slot = register
    · subst heq
      rw [Point.write_same] at hposition
      cases hposition
      exact ⟨h.inside, h.boundary⟩
    · rw [Point.write_other _ _ _ heq] at hposition
      exact h.captures slot hslot position hposition
  ordered := hordered

/-- Everything a search holds is placed. -/
def AllPlaced (text : List CodeUnit) (slots : ℕ) (running : Point × List Point) : Prop :=
  Placed text slots running.1 ∧ ∀ choice ∈ running.2, Placed text slots choice

/-- A failed search takes up a choice, which is placed. -/
lemma AllPlaced.resumed {next : Point × List Point} (h : AllPlaced text slots (point, choices))
    (hresume : resume choices = some next) : AllPlaced text slots next := by
  cases choices with
  | nil => cases hresume
  | cons choice choices =>
    cases hresume
    exact ⟨h.2 _ mem_cons_self, fun other hmem => h.2 other (mem_cons_of_mem _ hmem)⟩

/-- A move keeps everything placed, unless it enters a pair. -/
lemma OrderedMove.allPlaced {next : Point × List Point}
    (hmode : program.unicodeMode = true) (hwidths : KeepsWidths program.canonicalization)
    (hapart : ∀ (address : ℕ) (instruction : Instruction),
      program.instructions[address]? = some instruction → instruction.Apart slots)
    (h : OrderedMove slots program text (point, choices) (some next))
    (hplaced : AllPlaced text slots (point, choices))
    (hclean : ¬EntersPair program text point.address point.index point.registers) :
    AllPlaced text slots next := by
  obtain ⟨hmove, hordered⟩ := h
  obtain ⟨hpoint, hchoices⟩ := hplaced
  have hpush : ∀ (point' : Point) (address : ℕ), Placed text slots point' →
      AllPlaced text slots (point', point.goto address :: choices) := by
    intro point' address hpoint'
    refine ⟨hpoint', fun choice hmem => ?_⟩
    rcases mem_cons.mp hmem with rfl | hmem
    · exact hpoint.goto address
    · exact hchoices choice hmem
  have hresume : resume choices = some next → AllPlaced text slots next :=
    AllPlaced.resumed ⟨hpoint, hchoices⟩
  generalize hnext : some next = target at hmove
  cases hmove with
  | consume at_ consumed =>
    cases hnext
    rw [hmode] at consumed
    have honward := consumeAt_onward consumed hpoint.inside
    exact ⟨hpoint.moved _ honward.1 (consumeAt_boundary consumed), hchoices⟩
  | consumeFail at_ refused => exact hresume hnext.symm
  | edge at_ holds =>
    cases hnext
    exact ⟨hpoint.goto _, hchoices⟩
  | edgeFail at_ fails => exact hresume hnext.symm
  | boundary at_ holds =>
    cases hnext
    exact ⟨hpoint.goto _, hchoices⟩
  | boundaryFail at_ fails => exact hresume hnext.symm
  | save at_ =>
    cases hnext
    refine ⟨?_, hchoices⟩
    rcases hordered _ _ rfl with hmem | hordered
    · exact hchoices _ hmem
    · exact (hpoint.save _ hordered).goto _
  | fork at_ =>
    cases hnext
    exact hpush _ _ (hpoint.goto _)
  | jump at_ =>
    cases hnext
    exact ⟨hpoint.goto _, hchoices⟩
  | repeatInit at_ =>
    cases hnext
    exact ⟨(hpoint.write (hapart _ _ at_.1) _).goto _, hchoices⟩
  | repeatForced at_ counted below =>
    cases hnext
    exact ⟨hpoint.goto _, hchoices⟩
  | repeatFull at_ counted reached full =>
    cases hnext
    exact ⟨hpoint.goto _, hchoices⟩
  | repeatGreedy at_ counted reached room =>
    cases hnext
    exact hpush _ _ (hpoint.goto _)
  | repeatLazy at_ counted reached room =>
    cases hnext
    exact hpush _ _ (hpoint.goto _)
  | repeatEnter at_ counted =>
    cases hnext
    obtain ⟨hcounter, hposition⟩ := hapart _ _ at_.1
    exact ⟨(((hpoint.write hcounter _).write hposition _).clear _ _).goto _, hchoices⟩
  | repeatEnd at_ counted placed onward =>
    cases hnext
    exact ⟨hpoint.goto _, hchoices⟩
  | repeatEmpty at_ counted placed reached => exact hresume hnext.symm
  | lookStart at_ =>
    cases hnext
    exact hpush _ _ ((hpoint.write (hapart _ _ at_.1) _).goto _)
  | @lookEnd _ entry above _ exit _ at_ framed =>
    cases hnext
    have hentry := hchoices entry (mem_append_right _ mem_cons_self)
    refine ⟨hpoint.moved exit hentry.inside hentry.boundary, fun choice hmem => ?_⟩
    exact hchoices choice (mem_append_right _ (mem_cons_of_mem _ hmem))
  | @lookEndNegated _ _ _ left _ _ at_ framed =>
    have hleft : AllPlaced text slots (point, left) := ⟨hpoint, fun choice hmem =>
      hchoices choice (mem_append_right _ (mem_cons_of_mem _ hmem))⟩
    exact hleft.resumed hnext.symm
  | @backreference _ _ backward ignoreCase indices index at_ matched =>
    cases hnext
    have hindices : ∀ index ∈ indices, 2 * index + 1 < slots :=
      fun index hmem => (hapart _ _ at_.1).candidates _ (mem_map_of_mem hmem)
    have honward := backreferenceAt_onward hindices hpoint.ordered hpoint.inside matched
    obtain ⟨hcompares, hforward⟩ :=
      backreferenceAt_compares hmode hwidths hpoint hindices matched
    refine ⟨hpoint.moved _ honward.1 ?_, hchoices⟩
    cases backward with
    | false => exact hforward rfl hpoint.boundary
    | true =>
      by_contra hinside
      exact hclean ⟨ignoreCase, _, _, index, at_.1, prefix_refl _, hcompares, hinside⟩
  | backreferenceFail at_ refused => exact hresume hnext.symm
  | fail at_ => exact hresume hnext.symm

end Moves

end

/-! ## Aligned runs

In unicode mode, a run of a built program whose backreferences enter no surrogate pair holds
code-point boundaries only, and its backreferences compare code points (`run_aligned`). A
backreference read backward does enter a pair when what it repeats is a lone trailing surrogate
(`run_enters_pair`): the program of `(\uDC00)\u{1F400}(?<=()\1)` matches its third group between
the units of U+1F400.
-/

open Oseo.Library

variable {pattern : Pattern} {matcherLimits : MatcherLimits} {unicodeData : UnicodeData}
variable {program : MatcherProgram} {text : List CodeUnit} {limits : ExecutionLimits}
variable {machine machine' : Machine} {point : Point} {choices : List Point}

/-- What a capture register of a machine holds. -/
def Machine.captured (machine : Machine) (slot : ℕ) : Option ℕ :=
  if machine.read slot unset = unset then none else some (machine.read slot unset).toNat

/-- One round that goes on, from a machine that enters no pair. -/
def CleanRound (limits : ExecutionLimits) (program : MatcherProgram) (text : List CodeUnit)
    (machine machine' : Machine) : Prop :=
  ¬EntersPair program text machine.address machine.index machine.captured ∧
    step limits program text machine = .running machine'

/-- A search that goes on to its end, or to an accept. -/
def Searching (program : MatcherProgram) (text : List CodeUnit) (running : Point × List Point) :
    Prop :=
  ∃ config, Proceeds (OrderedMove program.slots program text) (some running) config ∧
    ∀ point choices, config = some (point, choices) →
      program.instructions[point.address]? = some .accept

/-- A machine of a run: it is at a placed point of a search. -/
def OnSearch (program : MatcherProgram) (text : List CodeUnit) (machine : Machine) : Prop :=
  ∃ point choices, Related program machine point choices ∧
    AllPlaced text program.slots (point, choices) ∧ Searching program text (point, choices)

lemma Related.captured (h : Related program machine point choices) {slot : ℕ}
    (hslot : slot < program.registers) : machine.captured slot = point.registers slot := by
  unfold Machine.captured
  rw [h.read hslot]
  cases point.registers slot with
  | none => rfl
  | some value =>
    rw [encode_some, if_neg]
    · rfl
    · unfold unset
      omega

/-- An attempt that ran out of steps has not matched. -/
lemma matchCandidates_limited {backward ignoreCase : Bool} {allowed : Option ℕ}
    {slots : List (Option ℕ)} {candidate index : ℕ}
    (h : (matchCandidates program text machine backward ignoreCase allowed slots candidate
      index).1.limited = true) :
    (matchCandidates program text machine backward ignoreCase allowed slots candidate
      index).1.matched = false := by
  induction slots generalizing candidate index with
  | nil => cases h
  | cons slot slots ih =>
    unfold matchCandidates at h ⊢
    split
    · rfl
    · rename_i hlimit
      rw [if_neg hlimit] at h
      cases slot with
      | none => exact ih h
      | some slot =>
        dsimp only at h ⊢
        split
        · rename_i hunset
          rw [if_pos hunset] at h
          exact ih h
        · rename_i hset
          rw [if_neg hset] at h
          split
          · rfl
          · rename_i hmatch
            simp only [hmatch] at h
            exact ih h

section Runs

variable {code : Code} {last failAt : ℕ} (hruns : program.RunsCode code last failAt)
include hruns

lemma slots_le_registers : program.slots ≤ program.registers := hruns.lays.low_le

/-- A related point enters a pair only where its machine does. -/
lemma EntersPair.of_related (hrelated : Related program machine point choices)
    (h : EntersPair program text point.address point.index point.registers) :
    EntersPair program text machine.address machine.index machine.captured := by
  obtain ⟨ignoreCase, candidates, kept, inside, hfetch, hkept, hcompares, hinside⟩ := h
  have hle := slots_le_registers hruns
  refine ⟨ignoreCase, candidates, kept, inside, hrelated.address ▸ hfetch, hkept, ?_, hinside⟩
  rw [hrelated.index]
  apply hcompares.congr
  intro slot hmem
  have hlt := (hruns.apart hfetch).candidates slot (hkept.subset hmem)
  exact ⟨hrelated.captured (by omega), hrelated.captured (by omega)⟩

/-- A clean round stays on the search. -/
lemma CleanRound.onSearch (hmode : program.unicodeMode = true)
    (hwidths : KeepsWidths program.canonicalization)
    (h : CleanRound limits program text machine machine') (hon : OnSearch program text machine) :
    OnSearch program text machine' := by
  obtain ⟨hclean, hstep⟩ := h
  obtain ⟨point, choices, hrelated, hplaced, config, hproceeds, hends⟩ := hon
  rcases Relation.ReflTransGen.cases_head hproceeds with rfl | ⟨next, ⟨_, heq, hmove⟩, hrest⟩
  · -- A machine at an accept does not go on.
    have hfetch := hends point choices rfl
    rw [← hrelated.address] at hfetch
    unfold step at hstep
    split at hstep
    · cases hstep
    · simp only [hfetch, execute] at hstep
      cases hstep
  · cases heq
    have hfollows : Follows program limits next (step limits program text machine) :=
      hmove.1.step_follows hrelated
    rw [hstep] at hfollows
    obtain ⟨point', choices', rfl, hrelated'⟩ := hfollows
    refine ⟨point', choices', hrelated', ?_, config, hrest, hends⟩
    apply OrderedMove.allPlaced hmode hwidths (fun address instruction => hruns.apart) hmove hplaced
    exact fun hpair => hclean (hpair.of_related hruns hrelated)

/-- A run starts on the search. -/
lemma initialMachine_onSearch (hmode : program.unicodeMode = true) {start : ℕ}
    (hstart : start ≤ text.length) :
    OnSearch program text (initialMachine program text start) := by
  have hat := initialPoint_at program text start
  have hplaced : Placed text program.slots (initialPoint program text start) := {
    inside := Nat.le_trans (alignedStart_le text start _) hstart
    boundary := by
      show CodePointBoundary text (alignedStart text start program.unicodeMode)
      rw [hmode]
      exact boundary_alignedStart
    captures := by
      intro slot hslot position hposition
      rw [hat.captures slot hslot] at hposition
      cases hposition
    ordered := hat.ordered fun _ _ _ _ hnone => nomatch hnone }
  refine ⟨_, [], initialMachine_related program text start, ⟨hplaced, nofun⟩, ?_⟩
  rcases (hruns.enumerates hstart).reaches_first with ⟨-, hproceeds⟩ |
    ⟨place, rest, state, choices, -, hshows, hproceeds⟩
  · exact ⟨none, hproceeds, nofun⟩
  · refine ⟨_, hproceeds, ?_⟩
    rintro point choices ⟨⟩
    rw [hshows.address, hruns.accepts]

/-- What a machine on the search holds. -/
lemma OnSearch.aligned (hon : OnSearch program text machine) :
    CodePointBoundary text machine.index ∧
      (∀ entry ∈ machine.stack, CodePointBoundary text entry.index) ∧
      ∀ slot < program.slots, ∀ position, machine.captured slot = some position →
        CodePointBoundary text position := by
  have hle := slots_le_registers hruns
  obtain ⟨point, choices, hrelated, ⟨hplaced, hchoices⟩, -⟩ := hon
  refine ⟨hrelated.index ▸ hplaced.boundary, ?_, fun slot hslot position hposition => ?_⟩
  · -- An entry of the stack has the position of its choice.
    have hentries : ∀ {trail written entries choices},
        Stacked program.registers trail written entries choices →
        (∀ choice ∈ choices, Placed text program.slots choice) →
        ∀ entry ∈ entries, CodePointBoundary text entry.index := by
      intro trail written entries choices hstacked
      induction hstacked with
      | nil => exact fun _ _ => nofun
      | cons address index height holds rest ih =>
        intro hall entry hmem
        rcases List.mem_cons.mp hmem with rfl | hmem
        · exact index ▸ (hall _ List.mem_cons_self).boundary
        · exact ih (fun choice hmem => hall choice (List.mem_cons_of_mem _ hmem)) entry hmem
    exact hentries hrelated.stacked hchoices
  · rw [hrelated.captured (by omega)] at hposition
    exact (hplaced.captures slot hslot position hposition).2

/-- A backreference of a machine on the search compares code points. -/
lemma OnSearch.compares (hmode : program.unicodeMode = true)
    (hwidths : KeepsWidths program.canonicalization) (hon : OnSearch program text machine)
    {backward ignoreCase : Bool} {candidates : List ℕ}
    (hfetch : program.instructions[machine.address]? =
      some (.backreference backward ignoreCase candidates)) (allowed : Option ℕ)
    (hmatched : (matchBackreference program text machine candidates backward ignoreCase
      allowed).1.matched = true) :
    Compares text (program.table ignoreCase) backward machine.captured candidates machine.index
      (matchBackreference program text machine candidates backward ignoreCase allowed).2 := by
  have hle := slots_le_registers hruns
  obtain ⟨point, choices, hrelated, ⟨hplaced, -⟩, -⟩ := hon
  obtain ⟨indices, rfl, hindices⟩ := hruns.apart hfetch
  have hattempts := @matchBackreference_follows _ text _ _ _ backward ignoreCase allowed indices
    hrelated fun index hmem => Nat.lt_of_lt_of_le (hindices index hmem) hle
  rcases hattempts with ⟨hlimited, -⟩ | ⟨-, -, hat⟩ | ⟨-, hfalse, -⟩
  · have hfalse := matchCandidates_limited hlimited
    rw [matchBackreference, hfalse] at hmatched
    cases hmatched
  · have hcompares := (backreferenceAt_compares hmode hwidths hplaced hindices hat).1
    rw [hrelated.index]
    apply hcompares.congr
    intro slot hmem
    have hlt := (hruns.apart hfetch).candidates slot hmem
    exact ⟨hrelated.captured (by omega), hrelated.captured (by omega)⟩
  · rw [hfalse] at hmatched
    cases hmatched

end Runs

/-! ## Runs of built programs -/

/-- The case classes of a built program keep the widths of characters. -/
lemma Compiled.keepsWidths {code : Code}
    (h : Compiled pattern matcherLimits unicodeData program code)
    (hmode : program.unicodeMode = true) (hdata : unicodeData.KeepsWidths) :
    KeepsWidths program.canonicalization := by
  rcases h.canonicalization with hnone | ⟨provide, hprovide, htable⟩
  · rw [hnone]
    exact fun character => Iff.rfl
  · rw [htable, hmode]
    exact canonicalizationTable_keepsWidths (hdata provide hprovide)

/-- The pattern `(\uDC00)\u{1F400}(?<=()\1)` with the flag `u`. -/
def pairPattern : Pattern where
  body := .mk [.mk [
    .atom (.capturingGroup (.mk [.mk [.atom (.character 0xdc00 ⟨1, 7⟩)] ⟨1, 7⟩]) 1 ⟨0, 8⟩),
    .atom (.character 0x1f400 ⟨8, 17⟩),
    .lookaround (.mk [.mk [.atom (.capturingGroup (.mk [.mk [] ⟨22, 22⟩]) 2 ⟨21, 23⟩),
      .atom (.backreference 1 ⟨23, 25⟩)] ⟨21, 25⟩]) .behind false ⟨17, 26⟩] ⟨0, 26⟩]
  captures := [⟨1, none, ⟨0, 8⟩⟩, ⟨2, none, ⟨21, 23⟩⟩]
  flags := ⟨false, false, false, false, false, false, "u", true, false⟩
  groupNames := []
  source := "(\\uDC00)\\u\x7b1F400\x7d(?<=()\\1)".toList.map fun character =>
    UInt16.ofNat character.toNat

/-- Its text: a lone trailing surrogate, then U+1F400. -/
def pairText : List CodeUnit := [0xdc00, 0xd83d, 0xdc00]

/-- The program of the pattern, as far as the proofs about it need it. -/
lemma pairPattern_built :
    ∃ program, buildRegExpMatcher pairPattern ⟨100, 100⟩ ⟨none, none, none, none, none⟩ =
      .ok program ∧ program.unicodeMode = true ∧
      matchRegExpMatcher ⟨.removed, program, 0, pairText⟩ 20 =
        some (.matched [some ⟨0, 3⟩, some ⟨0, 1⟩, some ⟨2, 2⟩] 12) := by
  have hrun : ((buildRegExpMatcher pairPattern ⟨100, 100⟩
      ⟨none, none, none, none, none⟩).toOption.map fun program => (program.unicodeMode,
        matchRegExpMatcher ⟨.removed, program, 0, pairText⟩ 20)) =
      some (true, some (.matched [some ⟨0, 3⟩, some ⟨0, 1⟩, some ⟨2, 2⟩] 12)) := by
    decide +kernel
  cases hbuild : buildRegExpMatcher pairPattern ⟨100, 100⟩ ⟨none, none, none, none, none⟩ with
  | error error =>
    rw [hbuild] at hrun
    cases hrun
  | ok program =>
    rw [hbuild] at hrun
    obtain ⟨hmode, hmatched⟩ := Prod.mk.inj (Option.some.inj hrun)
    exact ⟨program, rfl, hmode, hmatched⟩

end Oseo.RegExpMatcher
