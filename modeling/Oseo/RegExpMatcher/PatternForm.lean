import Oseo.RegExpMatcher.PatternLayout

/-!
# Well-formed patterns

What the parser promises of a pattern tree: its capturing groups are numbered from one in the
order of their parentheses, and every backreference names one of them. The code of such a tree
is well formed (`disjunctionCode_over`).
-/

namespace Oseo.RegExpMatcher

open List hiding set

variable {builder : Builder} {span : Span} {backward : Bool} {slots : ℕ}

/-! ## Groups and references of a tree -/

mutual

/-- The capturing groups of an atom, by their opening parentheses. -/
def Atom.groups : Atom → List ℕ
  | .capturingGroup body index _ => index :: body.groups
  | .group body _ => body.groups
  | .modifierGroup body _ _ _ => body.groups
  | _ => []

def Term.groups : Term → List ℕ
  | .atom atom => atom.groups
  | .assertion _ _ => []
  | .lookaround body _ _ _ => body.groups
  | .quantified atom _ _ => atom.groups

def termsGroups : List Term → List ℕ
  | [] => []
  | term :: terms => term.groups ++ termsGroups terms

def alternativesGroups : List Alternative → List ℕ
  | [] => []
  | .mk terms _ :: alternatives => termsGroups terms ++ alternativesGroups alternatives

def Disjunction.groups : Disjunction → List ℕ
  | .mk alternatives => alternativesGroups alternatives

end

mutual

/-- The captures the backreferences of an atom name. -/
def Atom.references : Atom → List ℕ
  | .capturingGroup body _ _ => body.references
  | .group body _ => body.references
  | .modifierGroup body _ _ _ => body.references
  | .backreference index _ => [index]
  | .namedBackreference indices _ _ => indices
  | _ => []

def Term.references : Term → List ℕ
  | .atom atom => atom.references
  | .assertion _ _ => []
  | .lookaround body _ _ _ => body.references
  | .quantified atom _ _ => atom.references

def termsReferences : List Term → List ℕ
  | [] => []
  | term :: terms => term.references ++ termsReferences terms

def alternativesReferences : List Alternative → List ℕ
  | [] => []
  | .mk terms _ :: alternatives =>
    termsReferences terms ++ alternativesReferences alternatives

def Disjunction.references : Disjunction → List ℕ
  | .mk alternatives => alternativesReferences alternatives

end

/-- What the parser promises of a pattern. -/
structure Pattern.WellFormed (pattern : Pattern) : Prop where
  groups : pattern.body.groups = List.range' 1 pattern.captures.length
  references : ∀ index ∈ pattern.body.references, index ≤ pattern.captures.length

/-! ## Consecutive groups -/

/-- A list of consecutive numbers. -/
def Consecutive (groups : List ℕ) : Prop := ∃ first, groups = List.range' first groups.length

lemma Consecutive.append {one two : List ℕ} (h : Consecutive (one ++ two)) :
    Consecutive one ∧ Consecutive two ∧ one.Disjoint two := by
  obtain ⟨first, heq⟩ := h
  rw [length_append, ← range'_append_1] at heq
  obtain ⟨hone, htwo⟩ := append_inj heq (by simp)
  refine ⟨⟨first, hone⟩, ⟨_, htwo⟩, fun index hmem hmem' => ?_⟩
  rw [hone, mem_range'_1] at hmem
  rw [htwo, mem_range'_1] at hmem'
  omega

lemma Consecutive.cons {index : ℕ} {groups : List ℕ} (h : Consecutive (index :: groups)) :
    Consecutive groups ∧ index ∉ groups := by
  obtain ⟨-, hgroups, hdisjoint⟩ := @Consecutive.append [index] groups h
  exact ⟨hgroups, fun hmem => hdisjoint mem_cons_self hmem⟩

/-- Noting the groups of a list, one after the other. -/
def noteAll (bounds : Option (ℕ × ℕ)) (groups : List ℕ) : Option (ℕ × ℕ) :=
  groups.foldl (fun bounds index => noteCapture index bounds) bounds

lemma noteAll_append (bounds : Option (ℕ × ℕ)) (one two : List ℕ) :
    noteAll bounds (one ++ two) = noteAll (noteAll bounds one) two :=
  foldl_append

mutual

lemma visitAtom_eq : ∀ (atom : Atom) (bounds : Option (ℕ × ℕ)),
    visitAtom atom bounds = noteAll bounds atom.groups
  | .capturingGroup body index _, bounds => by
    rw [visitAtom, Atom.groups, visitDisjunction_eq body]
    rfl
  | .group body _, bounds => by rw [visitAtom, Atom.groups, visitDisjunction_eq body]
  | .modifierGroup body _ _ _, bounds => by
    rw [visitAtom, Atom.groups, visitDisjunction_eq body]
  | .backreference _ _, _ => rfl
  | .namedBackreference _ _ _, _ => rfl
  | .character _ _, _ => rfl
  | .characterClass _ _ _, _ => rfl
  | .classSet _ _ _ _, _ => rfl
  | .classEscape _ _ _, _ => rfl
  | .dot _, _ => rfl
  | .unicodeProperty _, _ => rfl

lemma visitTerm_eq : ∀ (term : Term) (bounds : Option (ℕ × ℕ)),
    visitTerm term bounds = noteAll bounds term.groups
  | .atom atom, bounds => by rw [visitTerm, Term.groups, visitAtom_eq atom]
  | .assertion _ _, bounds => rfl
  | .lookaround body _ _ _, bounds => by rw [visitTerm, Term.groups, visitDisjunction_eq body]
  | .quantified atom _ _, bounds => by rw [visitTerm, Term.groups, visitAtom_eq atom]

lemma visitTerms_eq : ∀ (terms : List Term) (bounds : Option (ℕ × ℕ)),
    visitTerms terms bounds = noteAll bounds (termsGroups terms)
  | [], bounds => rfl
  | term :: terms, bounds => by
    rw [visitTerms, termsGroups, noteAll_append, visitTerm_eq term, visitTerms_eq terms]

lemma visitAlternatives_eq : ∀ (alternatives : List Alternative) (bounds : Option (ℕ × ℕ)),
    visitAlternatives alternatives bounds = noteAll bounds (alternativesGroups alternatives)
  | [], bounds => rfl
  | .mk terms _ :: alternatives, bounds => by
    rw [visitAlternatives, alternativesGroups, noteAll_append, visitAlternative,
      visitTerms_eq terms, visitAlternatives_eq alternatives]

lemma visitDisjunction_eq : ∀ (disjunction : Disjunction) (bounds : Option (ℕ × ℕ)),
    visitDisjunction disjunction bounds = noteAll bounds disjunction.groups
  | .mk alternatives, bounds => by
    rw [visitDisjunction, Disjunction.groups, visitAlternatives_eq alternatives]

end

lemma noteAll_range (first last : ℕ) (hle : first ≤ last) (count : ℕ) :
    noteAll (some (first, last)) (range' (last + 1) count) = some (first, last + count) := by
  induction count generalizing last with
  | zero => rfl
  | succ count ih =>
    rw [range'_succ, noteAll, foldl_cons, noteCapture,
      Nat.min_eq_left (by omega), Nat.max_eq_right (by omega)]
    show noteAll (some (first, last + 1)) _ = _
    rw [ih (last + 1) (by omega), Nat.add_right_comm, Nat.add_assoc]

/-- The lowest and the highest capture of an atom are the first and the last of its groups. -/
lemma captureBounds_cases {atom : Atom} (h : Consecutive atom.groups) :
    (captureBounds atom = none ∧ atom.groups = []) ∨ ∃ first count,
      captureBounds atom = some (first, first + count) ∧
        atom.groups = range' first (count + 1) := by
  obtain ⟨first, hgroups⟩ := h
  rw [captureBounds, visitAtom_eq]
  cases hlength : atom.groups.length with
  | zero =>
    rw [length_eq_zero_iff] at hlength
    rw [hlength]
    exact .inl ⟨rfl, rfl⟩
  | succ count =>
    rw [hlength] at hgroups
    rw [hgroups]
    refine .inr ⟨first, count, ?_, rfl⟩
    rw [range'_succ]
    exact noteAll_range first first (Nat.le_refl _) count

/-- The slots from the lowest capture of an atom to its highest are those of its captures. -/
lemma captureBounds_range {atom : Atom} (h : Consecutive atom.groups) (slot : ℕ) :
    ((captureBounds atom).elim 0 fun bounds => 2 * bounds.1) ≤ slot ∧
      slot < ((captureBounds atom).elim 0 fun bounds => 2 * bounds.2 + 2) ↔
      slot / 2 ∈ atom.groups := by
  rcases captureBounds_cases h with ⟨hbounds, hgroups⟩ | ⟨first, count, hbounds, hgroups⟩
  · rw [hbounds, hgroups]
    simp
  · rw [hbounds, hgroups, mem_range'_1]
    show 2 * first ≤ slot ∧ slot < 2 * (first + count) + 2 ↔ _
    omega

/-- They are below a bound of the slots of its captures. -/
lemma captureBounds_below {atom : Atom} (h : Consecutive atom.groups)
    (hbelow : ∀ index ∈ atom.groups, 2 * index + 1 < slots) :
    ((captureBounds atom).elim 0 fun bounds => 2 * bounds.2 + 2) ≤ slots := by
  rcases captureBounds_cases h with ⟨hbounds, -⟩ | ⟨first, count, hbounds, hgroups⟩
  · rw [hbounds]
    exact Nat.zero_le _
  · have hlt := hbelow (first + count) (by rw [hgroups, mem_range'_1]; omega)
    rw [hbounds]
    show 2 * (first + count) + 2 ≤ slots
    omega

/-! ## The form of the code -/

/-- What the code of a part of a pattern with the capturing groups `groups` is like. -/
structure Code.Over (slots : ℕ) (groups : List ℕ) (code : Code) : Prop where
  wellFormed : code.WellFormed slots
  groups : ∀ index, index ∈ code.groups ↔ index ∈ groups

/-- What a part of a numbered pattern is like, by its groups and references. -/
structure Numbered (slots : ℕ) (groups references : List ℕ) : Prop where
  consecutive : Consecutive groups
  below : ∀ index ∈ groups, 2 * index + 1 < slots
  named : ∀ index ∈ references, 2 * index + 1 < slots

lemma Numbered.append {groups groups' references references' : List ℕ}
    (h : Numbered slots (groups ++ groups') (references ++ references')) :
    Numbered slots groups references ∧ Numbered slots groups' references' ∧
      groups.Disjoint groups' := by
  obtain ⟨hone, htwo, hdisjoint⟩ := h.consecutive.append
  have hleft : Numbered slots groups references := {
    consecutive := hone
    below := fun index hmem => h.below index (mem_append_left _ hmem)
    named := fun index hmem => h.named index (mem_append_left _ hmem) }
  have hright : Numbered slots groups' references' := {
    consecutive := htwo
    below := fun index hmem => h.below index (mem_append_right _ hmem)
    named := fun index hmem => h.named index (mem_append_right _ hmem) }
  exact ⟨hleft, hright, hdisjoint⟩

namespace Code.Over

variable {groups groups' : List ℕ} {code code' : Code}

lemma consume (set : MatcherSet) : (Code.consume set).Over slots [] := ⟨trivial, fun _ => .rfl⟩

lemma skip : Code.skip.Over slots [] := ⟨trivial, fun _ => .rfl⟩

lemma sequence (h : code.Over slots groups) (h' : code'.Over slots groups')
    (hdisjoint : groups.Disjoint groups') :
    (Code.sequence code code').Over slots (groups ++ groups') where
  wellFormed := by
    refine ⟨h.wellFormed, h'.wellFormed, fun index hmem hmem' => ?_⟩
    exact hdisjoint ((h.groups index).mp hmem) ((h'.groups index).mp hmem')
  groups index := by rw [Code.groups, mem_append, mem_append, h.groups, h'.groups]

lemma alternate (h : code.Over slots groups) (h' : code'.Over slots groups') :
    (Code.alternate code code').Over slots (groups ++ groups') where
  wellFormed := ⟨h.wellFormed, h'.wellFormed⟩
  groups index := by rw [Code.groups, mem_append, mem_append, h.groups, h'.groups]

/-- The groups are a set: their order does not matter. -/
lemma swapped (h : code.Over slots (groups ++ groups')) : code.Over slots (groups' ++ groups) where
  wellFormed := h.wellFormed
  groups index := by
    rw [h.groups, mem_append, mem_append]
    exact Or.comm

end Code.Over

lemma classCharactersCode_over {set : MatcherSet} {code : Code}
    (h : classCharactersCode builder set span = .ok code) : code.Over slots [] := by
  obtain ⟨closed, -, hcode⟩ := build_bind_eq_ok h
  cases hcode
  exact .consume closed

mutual

lemma trieCode_over : ∀ (trie : ClassStringTrie) {code : Code},
    trieCode builder span trie = .ok code → code.Over slots []
  | .node terminal children, code, h => by
    rw [trieCode] at h
    split at h
    · cases h
      exact .skip
    · exact childrenCode_over terminal children h

lemma childrenCode_over (terminal : Bool) : ∀ (children : List (ℕ × ClassStringTrie)) {code : Code},
    childrenCode builder span terminal children = .ok code → code.Over slots []
  | [], code, h => by
    cases h
    exact .skip
  | (character, child) :: children, code, h => by
    rw [childrenCode] at h
    obtain ⟨consume, hconsume, h⟩ := build_bind_eq_ok h
    obtain ⟨rest, hrest, h⟩ := build_bind_eq_ok h
    have hbranch : (Code.sequence consume rest).Over slots [] :=
      (classCharactersCode_over hconsume).sequence (trieCode_over child hrest)
        (disjoint_nil_left _)
    split at h
    · cases h
      exact hbranch
    · obtain ⟨others, hothers, h⟩ := build_bind_eq_ok h
      cases h
      exact hbranch.alternate (childrenCode_over terminal children hothers)

end

lemma classBranchCode_over {branch : ClassBranch} {code : Code}
    (h : classBranchCode builder span branch = .ok code) : code.Over slots [] := by
  cases branch with
  | strings trie => exact trieCode_over trie h
  | characters set => exact classCharactersCode_over h
  | empty =>
    cases h
    exact .skip

lemma classBranchesCode_over {branches : List ClassBranch} {code : Code}
    (h : classBranchesCode builder span branches = .ok code) : code.Over slots [] := by
  induction branches generalizing code with
  | nil =>
    cases h
    exact .skip
  | cons branch branches ih =>
    rw [classBranchesCode] at h
    obtain ⟨one, hone, h⟩ := build_bind_eq_ok h
    split at h
    · cases h
      exact classBranchCode_over hone
    · obtain ⟨others, hothers, h⟩ := build_bind_eq_ok h
      cases h
      exact (classBranchCode_over hone).alternate (ih hothers)

lemma classValueCode_over {value : ClassValue} {code : Code}
    (h : classValueCode builder value backward span = .ok code) : code.Over slots [] := by
  unfold classValueCode at h
  split at h
  · exact classCharactersCode_over h
  · exact classBranchesCode_over h

lemma assertionCode_over {assertion : AssertionKind} {code : Code}
    (h : assertionCode builder assertion span = .ok code) : code.Over slots [] := by
  have hboundary : ∀ negated, (do
      let words ← wordCharacters builder span
      return .boundary negated words : Build Code) = .ok code → code.Over slots [] := by
    intro negated h
    obtain ⟨words, -, h⟩ := build_bind_eq_ok h
    cases h
    exact ⟨trivial, fun _ => .rfl⟩
  cases assertion with
  | start =>
    cases h
    exact ⟨trivial, fun _ => .rfl⟩
  | finish =>
    cases h
    exact ⟨trivial, fun _ => .rfl⟩
  | wordBoundary => exact hboundary false h
  | nonWordBoundary => exact hboundary true h

/-- An atom that is a set of characters encloses no group. -/
lemma characterAtomSet_groups {atom : Atom} {set : MatcherSet}
    (h : characterAtomSet builder atom = .ok (some set)) : atom.groups = [] := by
  cases atom with
  | capturingGroup => cases h
  | group => cases h
  | modifierGroup => cases h
  | _ => rfl

mutual

lemma atomCode_over (backward : Bool) : ∀ (atom : Atom) {builder : Builder} {code : Code},
    atomCode backward atom builder = .ok code → Numbered slots atom.groups atom.references →
    code.Over slots atom.groups
  | atom, builder, code, h, hnumbered => by
    rw [atomCode.eq_def] at h
    obtain ⟨set, hset, h⟩ := build_bind_eq_ok h
    cases set with
    | some set =>
      cases h
      rw [characterAtomSet_groups hset]
      exact .consume set
    | none =>
      match atom, hnumbered, h with
      | .classSet negated operation operands span, hnumbered, h =>
        obtain ⟨value, -, h⟩ := build_bind_eq_ok h
        exact classValueCode_over h
      | .unicodeProperty escape, hnumbered, h =>
        obtain ⟨value, -, h⟩ := build_bind_eq_ok h
        exact classValueCode_over h
      | .capturingGroup body index span, hnumbered, h =>
        obtain ⟨inner, hinner, h⟩ := build_bind_eq_ok h
        cases h
        obtain ⟨hconsecutive, hnew⟩ := Consecutive.cons hnumbered.consecutive
        have hbody := disjunctionCode_over backward body hinner {
          consecutive := hconsecutive
          below := fun other hmem => hnumbered.below other (mem_cons_of_mem index hmem)
          named := hnumbered.named }
        refine ⟨⟨hbody.wellFormed, ?_, hnumbered.below index mem_cons_self⟩, fun other => ?_⟩
        · rw [hbody.groups]
          exact hnew
        · rw [Code.groups, Atom.groups, mem_cons, mem_cons, hbody.groups]
      | .group body span, hnumbered, h => exact disjunctionCode_over backward body h hnumbered
      | .modifierGroup body disabled enabled span, hnumbered, h =>
        exact disjunctionCode_over backward body h hnumbered
      | .backreference index span, hnumbered, h =>
        cases h
        exact ⟨hnumbered.named, fun _ => .rfl⟩
      | .namedBackreference indices name span, hnumbered, h =>
        cases h
        exact ⟨hnumbered.named, fun _ => .rfl⟩
      | .character value span, hnumbered, h => cases h
      | .characterClass items negated span, hnumbered, h => cases h
      | .classEscape negated set span, hnumbered, h => cases h
      | .dot span, hnumbered, h => cases h

lemma termCode_over (backward : Bool) : ∀ (term : Term) {builder : Builder} {code : Code},
    termCode backward term builder = .ok code → Numbered slots term.groups term.references →
    code.Over slots term.groups
  | .atom atom, builder, code, h, hnumbered => atomCode_over backward atom h hnumbered
  | .assertion kind span, builder, code, h, hnumbered => assertionCode_over h
  | .lookaround body direction negated span, builder, code, h, hnumbered => by
    rw [termCode] at h
    obtain ⟨inner, hinner, h⟩ := build_bind_eq_ok h
    cases h
    have hbody := disjunctionCode_over _ body hinner hnumbered
    exact ⟨hbody.wellFormed, hbody.groups⟩
  | .quantified atom quantifier span, builder, code, h, hnumbered => by
    rw [termCode] at h
    obtain ⟨inner, hinner, h⟩ := build_bind_eq_ok h
    cases h
    have hbody := atomCode_over backward atom hinner hnumbered
    refine ⟨⟨hbody.wellFormed, ?_, fun slot => ?_⟩, hbody.groups⟩
    · exact captureBounds_below hnumbered.consecutive hnumbered.below
    · rw [hbody.groups]
      exact captureBounds_range hnumbered.consecutive slot

lemma termsCode_over (backward : Bool) : ∀ (terms : List Term) {builder : Builder} {code : Code},
    termsCode backward terms builder = .ok code →
    Numbered slots (termsGroups terms) (termsReferences terms) →
    code.Over slots (termsGroups terms)
  | [], builder, code, h, hnumbered => by
    cases h
    exact .skip
  | term :: terms, builder, code, h, hnumbered => by
    rw [termsCode] at h
    obtain ⟨one, hone, h⟩ := build_bind_eq_ok h
    obtain ⟨rest, hrest, h⟩ := build_bind_eq_ok h
    cases h
    obtain ⟨hterm, hterms, hdisjoint⟩ := Numbered.append hnumbered
    have hfirst := termCode_over backward term hone hterm
    have hothers := termsCode_over backward terms hrest hterms
    cases backward with
    | true => exact (hothers.sequence hfirst (disjoint_comm.mp hdisjoint)).swapped
    | false => exact hfirst.sequence hothers hdisjoint

lemma alternativesCode_over (backward : Bool) :
    ∀ (alternatives : List Alternative) {builder : Builder} {code : Code},
    alternativesCode backward alternatives builder = .ok code →
    Numbered slots (alternativesGroups alternatives) (alternativesReferences alternatives) →
    code.Over slots (alternativesGroups alternatives)
  | [], builder, code, h, hnumbered => by
    cases h
    exact .skip
  | .mk terms span :: alternatives, builder, code, h, hnumbered => by
    rw [alternativesCode] at h
    obtain ⟨one, hone, h⟩ := build_bind_eq_ok h
    obtain ⟨hterms, halternatives, hdisjoint⟩ := Numbered.append hnumbered
    have hfirst := termsCode_over backward terms hone hterms
    split at h
    · rename_i hlast
      cases h
      rw [isEmpty_iff.mp hlast, alternativesGroups, alternativesGroups, append_nil]
      exact hfirst
    · obtain ⟨others, hothers, h⟩ := build_bind_eq_ok h
      cases h
      exact hfirst.alternate (alternativesCode_over backward alternatives hothers halternatives)

/-- The code of a numbered pattern is well formed, over the groups of the pattern. -/
theorem disjunctionCode_over (backward : Bool) :
    ∀ (disjunction : Disjunction) {builder : Builder} {code : Code},
    disjunctionCode backward disjunction builder = .ok code →
    Numbered slots disjunction.groups disjunction.references →
    code.Over slots disjunction.groups
  | .mk alternatives, _, _, h, hnumbered =>
    alternativesCode_over backward alternatives h hnumbered

end

end Oseo.RegExpMatcher
