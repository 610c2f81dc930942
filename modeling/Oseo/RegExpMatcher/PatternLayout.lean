import Oseo.RegExpMatcher.Layout

/-!
# The code of a pattern

What the builder emits for a pattern tree, without its labels: each function of the builder that
succeeds has emitted the code of its part of the tree. The code depends on the settings of the
builder only, so it is that of any `reference` with the same settings.
-/

namespace Oseo.RegExpMatcher

section

variable {builder builder' : Builder}

/-! ## Class values -/

/-- The code of one character of a set. -/
def classCharactersCode (builder : Builder) (set : MatcherSet) (span : Span) : Build Code := do
  let closed ← closeSet builder set span
  return .consume closed

mutual

/-- The code of a trie of strings. -/
def trieCode (builder : Builder) (span : Span) : ClassStringTrie → Build Code
  | .node terminal children =>
    if children.isEmpty && !terminal then .ok .skip
    else childrenCode builder span terminal children

/-- The code of the branches of a node, the end of a string being the last. -/
def childrenCode (builder : Builder) (span : Span) (terminal : Bool) :
    List (ℕ × ClassStringTrie) → Build Code
  | [] => .ok .skip
  | (character, child) :: children => do
    let consume ← classCharactersCode builder (setOfRange character character) span
    let rest ← trieCode builder span child
    if children.isEmpty && !terminal then return .sequence consume rest
    else do
      let others ← childrenCode builder span terminal children
      return .alternate (.sequence consume rest) others

end

def classBranchCode (builder : Builder) (span : Span) : ClassBranch → Build Code
  | .strings trie => trieCode builder span trie
  | .characters set => classCharactersCode builder set span
  | .empty => .ok .skip

def classBranchesCode (builder : Builder) (span : Span) : List ClassBranch → Build Code
  | [] => .ok .skip
  | branch :: branches => do
    let code ← classBranchCode builder span branch
    if branches.isEmpty then return code
    else do
      let others ← classBranchesCode builder span branches
      return .alternate code others

def classValueCode (builder : Builder) (value : ClassValue) (backward : Bool) (span : Span) :
    Build Code :=
  if value.strings.isEmpty && value.characters.isEmpty then
    classCharactersCode builder [] span
  else classBranchesCode builder span (classBranches value backward)

/-! ## Patterns -/

/-- The code of an assertion. -/
def assertionCode (builder : Builder) (assertion : AssertionKind) (span : Span) : Build Code :=
  match assertion with
  | .start => .ok (.edge .start builder.multiline)
  | .finish => .ok (.edge .finish builder.multiline)
  | _ => do
    let words ← wordCharacters builder span
    return .boundary (assertion = .nonWordBoundary) words

mutual

/-- The code of an atom. -/
def atomCode (backward : Bool) (atom : Atom) (builder : Builder) : Build Code := do
  match ← characterAtomSet builder atom with
  | some set => return .consume set
  | none =>
    match atom with
    | .classSet negated operation operands span => do
      let value ← classSetValue builder negated operation operands span
      classValueCode builder value backward span
    | .unicodeProperty escape => do
      let value ← propertyEscapeClassValue builder escape
      classValueCode builder value backward escape.span
    | .capturingGroup body index _ => do
      let code ← disjunctionCode backward body builder
      return .capture index code
    | .group body _ => disjunctionCode backward body builder
    | .modifierGroup body disabled enabled _ =>
      disjunctionCode backward body (enterModifiers builder disabled enabled)
    | .backreference index _ => return .backreference builder.ignoreCase [index]
    | .namedBackreference indices _ _ => return .backreference builder.ignoreCase indices
    | _ =>
      refuse .unsupported "This pattern atom has no matcher lowering yet." atom.span

def termCode (backward : Bool) (term : Term) (builder : Builder) : Build Code :=
  match term with
  | .atom atom => atomCode backward atom builder
  | .assertion kind span => assertionCode builder kind span
  | .lookaround body direction negated _ => do
    let code ← disjunctionCode (direction = .behind) body builder
    return .look (direction = .behind) negated code
  | .quantified atom quantifier _ => do
    let bounds := captureBounds atom
    let code ← atomCode backward atom builder
    return .repetition quantifier.minimum quantifier.maximum quantifier.greedy
      (bounds.elim 0 fun bounds => 2 * bounds.1) (bounds.elim 0 fun bounds => 2 * bounds.2 + 2)
      code

/-- The code of an alternative, its terms in evaluation order. -/
def termsCode (backward : Bool) (terms : List Term) (builder : Builder) : Build Code :=
  match terms with
  | [] => .ok .skip
  | term :: terms => do
    let one ← termCode backward term builder
    let rest ← termsCode backward terms builder
    return if backward then .sequence rest one else .sequence one rest

def alternativesCode (backward : Bool) (alternatives : List Alternative) (builder : Builder) :
    Build Code :=
  match alternatives with
  | [] => .ok .skip
  | .mk terms _ :: alternatives => do
    let code ← termsCode backward terms builder
    if alternatives.isEmpty then return code
    else do
      let others ← alternativesCode backward alternatives builder
      return .alternate code others

def disjunctionCode (backward : Bool) (disjunction : Disjunction) (builder : Builder) :
    Build Code :=
  match disjunction with
  | .mk alternatives => alternativesCode backward alternatives builder

end

/-! ## Settings -/

/-- A builder with the same settings and nothing emitted. -/
def Settings.toBuilder (settings : Settings) : Builder where
  addresses := []
  failLabel := settings.failLabel
  instructions := []
  limits := ⟨0, 0⟩
  sets := []
  unicodeData := settings.unicodeData
  unicodeMode := settings.unicodeMode
  unicodeSets := settings.unicodeSets
  dotAll := settings.dotAll
  ignoreCase := settings.ignoreCase
  lowered := 0
  multiline := settings.multiline
  registers := 0

/-- A function of the builder that reads its settings only has one value for them. -/
lemma congr_settings {α : Type} (f : Builder → α)
    (h : ∀ builder, f builder = f builder.settings.toBuilder)
    (hsettings : builder'.settings = builder.settings) : f builder' = f builder := by
  rw [h builder', h builder, hsettings]

section Congruence

variable (hsettings : builder'.settings = builder.settings)
include hsettings

lemma closeSet_congr (set : MatcherSet) (span : Span) :
    closeSet builder' set span = closeSet builder set span :=
  congr_settings (closeSet · set span) (fun _ => rfl) hsettings

lemma wordCharacters_congr (span : Span) :
    wordCharacters builder' span = wordCharacters builder span :=
  congr_settings (wordCharacters · span) (fun _ => rfl) hsettings

lemma characterAtomSet_congr (atom : Atom) :
    characterAtomSet builder' atom = characterAtomSet builder atom :=
  congr_settings (characterAtomSet · atom) (fun _ => rfl) hsettings

lemma classItemSet_congr (item : ClassItem) :
    classItemSet builder' item = classItemSet builder item :=
  congr_settings (classItemSet · item) (fun _ => rfl) hsettings

lemma propertyEscapeClassValue_congr (escape : UnicodePropertyEscape) :
    propertyEscapeClassValue builder' escape = propertyEscapeClassValue builder escape :=
  congr_settings (propertyEscapeClassValue · escape) (fun _ => rfl) hsettings

lemma enterModifiers_settings (disabled enabled : List ModifierFlag) :
    (enterModifiers builder' disabled enabled).settings =
      (enterModifiers builder disabled enabled).settings :=
  congr_settings (fun builder => (enterModifiers builder disabled enabled).settings)
    (fun _ => rfl) hsettings

lemma foldOperandValue_congr (operand : ClassSetOperand) (value : ClassValue) :
    foldOperandValue builder' operand value = foldOperandValue builder operand value :=
  congr_settings (foldOperandValue · operand value) (fun _ => rfl) hsettings

lemma combineClassValues_congr (negated : Bool) (operation : ClassSetOperation) (span : Span)
    (values : List ClassValue) :
    combineClassValues builder' negated operation span values =
      combineClassValues builder negated operation span values :=
  congr_settings (combineClassValues · negated operation span values) (fun _ => rfl) hsettings

end Congruence

mutual

lemma classSetOperandValue_congr (h : builder'.settings = builder.settings) :
    ∀ operand : ClassSetOperand,
      classSetOperandValue builder' operand = classSetOperandValue builder operand
  | .classSet negated operation operands span => by
    simp only [classSetOperandValue, classSetOperandValues_congr h operands,
      combineClassValues_congr h, foldOperandValue_congr h]
  | .classStrings strings span => by
    simp only [classSetOperandValue, foldOperandValue_congr h]
  | .item (.unicodeProperty escape) => by
    simp only [classSetOperandValue, propertyEscapeClassValue_congr h, foldOperandValue_congr h]
  | .item (.character value span) => by
    simp only [classSetOperandValue, classItemSet_congr h, foldOperandValue_congr h]
  | .item (.range start finish span) => by
    simp only [classSetOperandValue, classItemSet_congr h, foldOperandValue_congr h]
  | .item (.classEscape negated set span) => by
    simp only [classSetOperandValue, classItemSet_congr h, foldOperandValue_congr h]

lemma classSetOperandValues_congr (h : builder'.settings = builder.settings) :
    ∀ operands : List ClassSetOperand,
      classSetOperandValues builder' operands = classSetOperandValues builder operands
  | [] => rfl
  | operand :: operands => by
    simp only [classSetOperandValues, classSetOperandValue_congr h operand,
      classSetOperandValues_congr h operands]

end

lemma classSetValue_congr (h : builder'.settings = builder.settings) (negated : Bool)
    (operation : ClassSetOperation) (operands : List ClassSetOperand) (span : Span) :
    classSetValue builder' negated operation operands span =
      classSetValue builder negated operation operands span := by
  simp only [classSetValue, classSetOperandValues_congr h, combineClassValues_congr h]

end

/-! ## The builder emits the code of a pattern -/

open Except

variable {builder builder' builder'' : Builder} {span : Span} {backward : Bool}

/-! ## Emitting class values -/

variable {reference : Builder}

lemma emitClassCharacters_builds {set : MatcherSet}
    (h : emitClassCharacters builder set backward span = .ok builder')
    (hsettings : builder.settings = reference.settings) :
    ∃ code, classCharactersCode reference set span = .ok code ∧
      Builds backward builder code builder' := by
  unfold emitClassCharacters at h
  rw [closeSet_congr hsettings] at h
  obtain ⟨closed, hclosed, hemit⟩ := build_bind_eq_ok h
  refine ⟨.consume closed, ?_, ?_⟩
  · unfold classCharactersCode
    rw [hclosed]
    rfl
  · exact emitConsume_builds hemit

/-- The fork, the code of one branch and the jump to the end of all branches. -/
lemma BuildsTo.forked {finish : ℕ} {preferred alternative : Code} {builder₁ builder₂ builder₃
    builder₄ : Builder} {span₁ span₂ : Span}
    (hfork : emit (newLabel (newLabel builder).2).2
      (.fork (newLabel builder).2.addresses.length builder.addresses.length) span₁ = .ok builder₁)
    (hpreferred : Builds backward (placeLabel builder₁ builder.addresses.length) preferred
      builder₂)
    (hjump : emit builder₂ (.jump finish) span₂ = .ok builder₃)
    (halternative : BuildsTo finish backward
      (placeLabel builder₃ (newLabel builder).2.addresses.length) alternative builder₄) :
    BuildsTo finish backward builder (.alternate preferred alternative) builder₄ := by
  rw [newLabel_labels] at hfork halternative
  exact .alternate (emit_emitted hfork) hpreferred (emit_emitted hjump) halternative

/-- One round of the emission of a trie. -/
lemma trieLoop_step {fuel : ℕ} {step : ClassStringStep} {steps : List ClassStringStep}
    (h : emitClassStringTrieLoop backward span fuel builder (step :: steps) = .ok builder'')
    (hfuel : 0 < fuel) :
    ∃ fuel' result, fuel = fuel' + 1 ∧
      emitClassStringStep builder backward span steps step = .ok result ∧
      emitClassStringTrieLoop backward span fuel' result.1 result.2 = .ok builder'' := by
  cases fuel with
  | zero => omega
  | succ fuel =>
    rw [emitClassStringTrieLoop] at h
    obtain ⟨result, hstep, hrest⟩ := build_bind_eq_ok h
    exact ⟨fuel, result, rfl, hstep, hrest⟩

/-- The round that emits the character of a branch. -/
lemma trieLoop_consume {fuel character : ℕ} {steps : List ClassStringStep}
    (h : emitClassStringTrieLoop backward span fuel builder (.consume character :: steps) =
      .ok builder'')
    (hfuel : 0 < fuel) (hsettings : builder.settings = reference.settings) :
    ∃ fuel' builder' code, fuel = fuel' + 1 ∧
      emitClassStringTrieLoop backward span fuel' builder' steps = .ok builder'' ∧
      classCharactersCode reference (setOfRange character character) span = .ok code ∧
      Builds backward builder code builder' := by
  obtain ⟨fuel', result, rfl, hstep, hrest⟩ := trieLoop_step h hfuel
  rw [emitClassStringStep] at hstep
  obtain ⟨emitted, hemit, hresult⟩ := build_bind_eq_ok hstep
  cases hresult
  obtain ⟨code, hcode, hbuilds⟩ := emitClassCharacters_builds hemit hsettings
  exact ⟨fuel', emitted, code, rfl, hrest, hcode, hbuilds⟩

mutual

/-- The rounds of the emission of a trie emit its code, and the steps after it are left. -/
lemma trie_builds : ∀ (trie : ClassStringTrie) {fuel : ℕ} {builder : Builder}
    {steps : List ClassStringStep},
    emitClassStringTrieLoop backward span fuel builder (.node trie :: steps) = .ok builder'' →
    trie.rounds ≤ fuel → builder.settings = reference.settings →
    ∃ fuel' builder' code, fuel ≤ fuel' + trie.rounds ∧
      emitClassStringTrieLoop backward span fuel' builder' steps = .ok builder'' ∧
      trieCode reference span trie = .ok code ∧ Builds backward builder code builder'
  | .node terminal children, fuel, builder, steps, h, hfuel, hsettings => by
    rw [ClassStringTrie.rounds] at hfuel
    obtain ⟨fuel', result, rfl, hstep, hrest⟩ := trieLoop_step h (by omega)
    rw [emitClassStringStep] at hstep
    by_cases hempty : (children.isEmpty && !terminal) = true
    · rw [if_pos hempty] at hstep
      cases hstep
      refine ⟨fuel', builder, .skip, by rw [ClassStringTrie.rounds]; omega, hrest, ?_,
        .skip builder⟩
      rw [trieCode, if_pos hempty]
    · rw [if_neg hempty] at hstep
      cases hstep
      obtain ⟨left, emitted, code, hleft, hloop, hcode, hbuilds⟩ :=
        children_builds terminal children hrest (by omega) hsettings
      refine ⟨left, _, code, by rw [ClassStringTrie.rounds]; omega, hloop, ?_, hbuilds.close⟩
      rw [trieCode, if_neg hempty]
      exact hcode

/-- The rounds of the emission of the branches of a node, up to the label after them. -/
lemma children_builds (terminal : Bool) :
    ∀ (children : List (ℕ × ClassStringTrie)) {fuel label : ℕ} {builder : Builder}
    {steps : List ClassStringStep},
    emitClassStringTrieLoop backward span fuel builder (.branch label children terminal :: steps) =
      .ok builder'' →
    childRounds children + 2 ≤ fuel → builder.settings = reference.settings →
    ∃ fuel' builder' code, fuel ≤ fuel' + childRounds children + 2 ∧
      emitClassStringTrieLoop backward span fuel' (placeLabel builder' label) steps =
        .ok builder'' ∧
      childrenCode reference span terminal children = .ok code ∧
      BuildsTo label backward builder code builder'
  | [], fuel, label, builder, steps, h, hfuel, hsettings => by
    rw [childRounds] at hfuel
    obtain ⟨fuel, result, rfl, hstep, h⟩ := trieLoop_step h (by omega)
    cases hstep
    obtain ⟨fuel, result, rfl, hstep, h⟩ := trieLoop_step h (by omega)
    cases hstep
    exact ⟨fuel, builder, .skip, Nat.le_refl _, h, rfl, (Builds.skip builder).to label⟩
  | (character, child) :: children, fuel, label, builder, steps, h, hfuel, hsettings => by
    rw [childRounds] at hfuel
    obtain ⟨fuel, result, rfl, hstep, h⟩ := trieLoop_step h (by omega)
    by_cases hlast : (children.isEmpty && !terminal) = true
    · -- The last branch is followed by the end.
      obtain ⟨hnil, hterminal⟩ : children = [] ∧ terminal = false := by simpa using hlast
      subst hnil hterminal
      cases hstep
      obtain ⟨fuel, consumed, consume, rfl, h, hconsume, hbuilds⟩ :=
        trieLoop_consume h (by omega) hsettings
      obtain ⟨fuel', emitted, rest, hfuel', h, hrest, hbuilds'⟩ :=
        trie_builds child h (by omega) (hbuilds.settings.trans hsettings)
      obtain ⟨fuel', result, rfl, hstep, h⟩ := trieLoop_step h (by omega)
      cases hstep
      refine ⟨fuel', emitted, .sequence consume rest, ?_, h, ?_, (hbuilds.sequence hbuilds').to _⟩
      · rw [childRounds, childRounds]
        omega
      · rw [childrenCode, hconsume, hrest]
        simp only [bind, bind, hlast, if_true]
        rfl
    · -- A fork, the branch with a jump to the end, and the other branches.
      have hstep : (do
          let builder₁ ← emit (newLabel (newLabel builder).2).2
            (.fork (newLabel builder).2.addresses.length builder.addresses.length) span
          return (placeLabel builder₁ builder.addresses.length, .consume character ::
            .node child :: .finish (some label) (newLabel builder).2.addresses.length ::
            .branch label children terminal :: steps)) = ok result := by
        rw [← hstep]
        cases children with
        | nil =>
          cases terminal with
          | true => rfl
          | false => simp at hlast
        | cons => cases terminal <;> rfl
      obtain ⟨forked, hfork, hresult⟩ := build_bind_eq_ok hstep
      cases hresult
      have hsettings₁ : (placeLabel forked builder.addresses.length).settings =
          reference.settings := (emit_emitted hfork).settings.trans hsettings
      obtain ⟨fuel, consumed, consume, rfl, h, hconsume, hbuilds⟩ :=
        trieLoop_consume h (by omega) hsettings₁
      obtain ⟨fuel', emitted, rest, hfuel', h, hrest, hbuilds'⟩ :=
        trie_builds child h (by omega) (hbuilds.settings.trans hsettings₁)
      have hbody := hbuilds.sequence hbuilds'
      obtain ⟨fuel', result, rfl, hstep, h⟩ := trieLoop_step h (by omega)
      rw [emitClassStringStep] at hstep
      obtain ⟨jumped, hjump, hresult⟩ := build_bind_eq_ok hstep
      cases hresult
      obtain ⟨left, last, others, hleft, h, hothers, hbuilds₂⟩ := children_builds terminal children
        h (by omega) ((emit_emitted hjump).settings.trans (hbody.settings.trans hsettings₁))
      refine ⟨left, last, .alternate (.sequence consume rest) others, ?_, h, ?_,
        .forked hfork hbody hjump hbuilds₂⟩
      · rw [childRounds]
        omega
      · rw [childrenCode, hconsume, hrest, hothers]
        simp only [bind, bind, hlast]
        rfl

end

lemma emitClassStringTrie_builds {trie : ClassStringTrie}
    (h : emitClassStringTrie builder trie backward span = .ok builder')
    (hsettings : builder.settings = reference.settings) :
    ∃ code, trieCode reference span trie = .ok code ∧ Builds backward builder code builder' := by
  obtain ⟨fuel, emitted, code, -, hloop, hcode, hbuilds⟩ :=
    trie_builds trie h (Nat.le_refl _) hsettings
  cases fuel <;> cases hloop <;> exact ⟨code, hcode, hbuilds⟩

lemma emitClassBranch_builds {branch : ClassBranch}
    (h : emitClassBranch builder backward span branch = .ok builder')
    (hsettings : builder.settings = reference.settings) :
    ∃ code, classBranchCode reference span branch = .ok code ∧
      Builds backward builder code builder' := by
  cases branch with
  | strings trie => exact emitClassStringTrie_builds h hsettings
  | characters set => exact emitClassCharacters_builds h hsettings
  | empty =>
    cases h
    exact ⟨.skip, rfl, .skip builder⟩

lemma emitClassAlternativesLoop_builds {finish : ℕ} {branches : List ClassBranch}
    (h : emitClassAlternativesLoop backward span finish builder branches = .ok builder')
    (hsettings : builder.settings = reference.settings) :
    ∃ code, classBranchesCode reference span branches = .ok code ∧
      BuildsTo finish backward builder code builder' := by
  induction branches generalizing builder with
  | nil =>
    cases h
    exact ⟨.skip, rfl, (Builds.skip _).to finish⟩
  | cons branch branches ih =>
    cases branches with
    | nil =>
      obtain ⟨code, hcode, hbuilds⟩ := emitClassBranch_builds h hsettings
      refine ⟨code, ?_, hbuilds.to finish⟩
      rw [classBranchesCode, hcode]
      rfl
    | cons next branches =>
      rw [emitClassAlternativesLoop] at h
      · obtain ⟨forked, hfork, h⟩ := build_bind_eq_ok h
        have hfork : emit (newLabel (newLabel builder).2).2
          (.fork (newLabel builder).2.addresses.length builder.addresses.length) span =
            .ok forked := hfork
        obtain ⟨emitted, hemit, h⟩ := build_bind_eq_ok h
        obtain ⟨jumped, hjump, h⟩ := build_bind_eq_ok h
        have hsettings₁ : (placeLabel forked builder.addresses.length).settings =
            reference.settings := (emit_emitted hfork).settings.trans hsettings
        obtain ⟨code, hcode, hbuilds⟩ := emitClassBranch_builds hemit hsettings₁
        obtain ⟨others, hothers, hbuilds₂⟩ := ih h
          ((emit_emitted hjump).settings.trans (hbuilds.settings.trans hsettings₁))
        refine ⟨.alternate code others, ?_, .forked hfork hbuilds hjump hbuilds₂⟩
        rw [classBranchesCode, hcode, hothers]
        rfl
      · simp

lemma buildClassValue_builds {value : ClassValue}
    (h : buildClassValue builder value backward span = .ok builder')
    (hsettings : builder.settings = reference.settings) :
    ∃ code, classValueCode reference value backward span = .ok code ∧
      Builds backward builder code builder' := by
  unfold buildClassValue at h
  unfold classValueCode
  split at h
  · rename_i hempty
    rw [if_pos hempty]
    exact emitClassCharacters_builds h hsettings
  · rename_i hempty
    rw [if_neg hempty]
    unfold emitClassAlternatives at h
    split at h
    · rename_i hnone
      cases h
      rw [List.isEmpty_iff.mp hnone]
      exact ⟨.skip, rfl, .skip builder⟩
    · obtain ⟨emitted, hloop, h⟩ := build_bind_eq_ok h
      cases h
      obtain ⟨code, hcode, hbuilds⟩ := emitClassAlternativesLoop_builds hloop hsettings
      exact ⟨code, hcode, hbuilds.close⟩

/-- A class value that is computed first. -/
lemma buildComputed_builds {computed : Build ClassValue}
    (h : (computed >>= fun value => buildClassValue builder value backward span) = .ok builder')
    (hsettings : builder.settings = reference.settings) :
    ∃ code, (computed >>= fun value => classValueCode reference value backward span) = .ok code ∧
      Builds backward builder code builder' := by
  obtain ⟨value, rfl, h⟩ := build_bind_eq_ok h
  exact buildClassValue_builds h hsettings

/-! ## Emitting patterns -/

lemma buildAssertion_builds {assertion : AssertionKind}
    (h : buildAssertion builder assertion span = .ok builder')
    (hsettings : builder.settings = reference.settings) :
    ∃ code, assertionCode reference assertion span = .ok code ∧
      Builds backward builder code builder' := by
  have hmultiline : builder.multiline = reference.multiline :=
    congrArg Settings.multiline hsettings
  -- An edge is one instruction, a word boundary names the set of words.
  have hedge : ∀ edge, emit builder (.edge edge builder.multiline) span = .ok builder' →
      Builds backward builder (.edge edge reference.multiline) builder' := by
    intro edge hemit
    rw [hmultiline] at hemit
    exact .single (emit_emitted hemit) (fun _ => rfl)
      fun program failAt hfetch => ⟨hfetch, rfl, Nat.le_refl _⟩
  have hboundary : ∀ negated, (do
      let words ← wordCharacters builder span
      emit (internSet builder words).2 (.boundary negated (internSet builder words).1) span) =
        .ok builder' →
      ∃ code, (do
        let words ← wordCharacters reference span
        return .boundary negated words : Build Code) = .ok code ∧
        Builds backward builder code builder' := by
    intro negated hemit
    rw [wordCharacters_congr hsettings] at hemit
    obtain ⟨words, hwords, hemit⟩ := build_bind_eq_ok hemit
    refine ⟨.boundary negated words, ?_, ?_⟩
    · rw [hwords]
      rfl
    · exact .interned (internSet_interned builder words) (emit_emitted hemit)
        (fun _ => rfl) fun program failAt hfetch hset =>
          ⟨⟨_, hfetch, hset⟩, rfl, Nat.le_refl _⟩
  cases assertion with
  | start => exact ⟨_, rfl, hedge .start h⟩
  | finish => exact ⟨_, rfl, hedge .finish h⟩
  | wordBoundary => exact hboundary false h
  | nonWordBoundary => exact hboundary true h

lemma emitBackreference_builds {indices : List ℕ}
    (h : emitBackreference builder (indices.map (2 * ·)) backward span = .ok builder')
    (hsettings : builder.settings = reference.settings) :
    Builds backward builder (.backreference reference.ignoreCase indices) builder' := by
  have hignoreCase : builder.ignoreCase = reference.ignoreCase :=
    congrArg Settings.ignoreCase hsettings
  unfold emitBackreference at h
  rw [hignoreCase] at h
  exact .single (emit_emitted h) (fun _ => rfl)
    fun program failAt hfetch => ⟨hfetch, rfl, Nat.le_refl _⟩

/-- The flags of a modifier group are those inside it only. -/
lemma Builds.modifiers {code : Code} {disabled enabled : List ModifierFlag}
    (h : Builds backward (enterModifiers builder disabled enabled) code builder') :
    Builds backward builder code (leaveModifiers builder' builder) where
  grows := {
    instructions := h.grows.instructions
    sets := h.grows.sets
    registers := h.grows.registers
    labels := h.grows.labels
    addresses := h.grows.addresses }
  settings := by
    have hsettings := h.settings
    simp only [Builder.settings, enterModifiers, Settings.mk.injEq] at hsettings
    simp [Builder.settings, leaveModifiers, hsettings]
  lays program final failAt hfinished hcontinues :=
    h.lays program final failAt hfinished {
      grows := {
        instructions := hcontinues.grows.instructions
        sets := hcontinues.grows.sets
        registers := hcontinues.grows.registers
        labels := hcontinues.grows.labels
        addresses := hcontinues.grows.addresses }
      failAt := hcontinues.failAt }

mutual

lemma buildAtom_builds (backward : Bool) : ∀ (atom : Atom) {builder reference builder' : Builder},
    buildAtom backward atom builder = .ok builder' → builder.settings = reference.settings →
    ∃ code, atomCode backward atom reference = .ok code ∧ Builds backward builder code builder'
  | atom, builder, reference, builder', h, hsettings => by
    rw [buildAtom.eq_def, characterAtomSet_congr hsettings] at h
    obtain ⟨set, hset, h⟩ := build_bind_eq_ok h
    rw [atomCode.eq_def, hset]
    cases set with
    | some set => exact ⟨.consume set, rfl, emitConsume_builds h⟩
    | none =>
      match atom, h with
      | .classSet negated operation operands span, h =>
        simp only [classSetValue_congr hsettings] at h
        exact buildComputed_builds h hsettings
      | .unicodeProperty escape, h =>
        simp only [propertyEscapeClassValue_congr hsettings] at h
        exact buildComputed_builds h hsettings
      | .capturingGroup body index span, h =>
        obtain ⟨opened, hopen, h⟩ := build_bind_eq_ok h
        obtain ⟨emitted, hbody, hclose⟩ := build_bind_eq_ok h
        obtain ⟨code, hcode, hbuilds⟩ := buildDisjunction_builds backward body hbody
          ((emit_emitted hopen).settings.trans hsettings)
        refine ⟨.capture index code, ?_,
          .capture (emit_emitted hopen) hbuilds (emit_emitted hclose)⟩
        simp only [bind, bind, hcode]
        rfl
      | .group body span, h => exact buildDisjunction_builds backward body h hsettings
      | .modifierGroup body disabled enabled span, h =>
        obtain ⟨inner, hbody, h⟩ := build_bind_eq_ok h
        cases h
        obtain ⟨code, hcode, hbuilds⟩ := buildDisjunction_builds backward body hbody
          (enterModifiers_settings hsettings disabled enabled)
        exact ⟨code, hcode, hbuilds.modifiers⟩
      | .backreference index span, h =>
        have h : emitBackreference builder ([index].map (2 * ·)) backward span = .ok builder' := h
        exact ⟨_, rfl, emitBackreference_builds h hsettings⟩
      | .namedBackreference indices name span, h =>
        exact ⟨_, rfl, emitBackreference_builds h hsettings⟩
      | .character value span, h => cases h
      | .characterClass items negated span, h => cases h
      | .classEscape negated set span, h => cases h
      | .dot span, h => cases h

lemma buildTerm_builds (backward : Bool) : ∀ (term : Term) {builder reference builder' : Builder},
    buildTerm backward term builder = .ok builder' → builder.settings = reference.settings →
    ∃ code, termCode backward term reference = .ok code ∧ Builds backward builder code builder'
  | .atom atom, builder, reference, builder', h, hsettings => buildAtom_builds backward atom h hsettings
  | .assertion kind span, builder, reference, builder', h, hsettings =>
    buildAssertion_builds h hsettings
  | .lookaround body direction negated span, builder, reference, builder', h, hsettings => by
    rw [buildTerm] at h
    obtain ⟨⟨frame, allocated⟩, hframe, h⟩ := build_bind_eq_ok h
    obtain ⟨started, hstart, h⟩ := build_bind_eq_ok h
    obtain ⟨emitted, hbody, h⟩ := build_bind_eq_ok h
    obtain ⟨ended, hend, h⟩ := build_bind_eq_ok h
    cases h
    have hframe := allocateRegisters_allocated hframe
    have hlabels : allocated.addresses.length = builder.addresses.length := by
      rw [hframe.labels]
    have hstart : emit (newLabel (newLabel allocated).2).2
      (.lookStart allocated.addresses.length frame negated
        (if negated then (newLabel allocated).2.addresses.length else allocated.failLabel)) span =
        .ok started := hstart
    have hbody : buildDisjunction (direction = .behind) body
      (placeLabel started allocated.addresses.length) = .ok emitted := hbody
    have hend : emit emitted (.lookEnd (newLabel allocated).2.addresses.length frame negated)
      span = .ok ended := hend
    obtain ⟨code, hcode, hbuilds⟩ := buildDisjunction_builds (direction = .behind) body hbody
      ((emit_emitted hstart).settings.trans (hframe.settings.trans hsettings))
    refine ⟨.look (direction = .behind) negated code, ?_, ?_⟩
    · rw [termCode, hcode]
      rfl
    · rw [hlabels] at hbuilds
      show Builds backward builder _ (placeLabel ended (newLabel allocated).2.addresses.length)
      rw [newLabel_labels, hlabels] at hstart hend ⊢
      apply Builds.look hframe _ (emit_emitted hstart) hbuilds (emit_emitted hend)
      rw [failLabel_eq hframe.settings]
  | .quantified atom quantifier span, builder, reference, builder', h, hsettings => by
    rw [buildTerm] at h
    obtain ⟨⟨counter, allocated⟩, hcounter, h⟩ := build_bind_eq_ok h
    obtain ⟨counted, hinit, h⟩ := build_bind_eq_ok h
    obtain ⟨decided, hhead, h⟩ := build_bind_eq_ok h
    obtain ⟨entered, henter, h⟩ := build_bind_eq_ok h
    obtain ⟨emitted, hbody, h⟩ := build_bind_eq_ok h
    obtain ⟨ended, hend, h⟩ := build_bind_eq_ok h
    cases h
    have hcounter := allocateRegisters_allocated hcounter
    have hlabels : allocated.addresses.length = builder.addresses.length := by
      rw [hcounter.labels]
    have hlabel₁ : (newLabel allocated).2.addresses.length = builder.addresses.length + 1 := by
      rw [newLabel_labels, hlabels]
    have hlabel₂ : (newLabel (newLabel allocated).2).2.addresses.length =
        builder.addresses.length + 2 := by
      rw [newLabel_labels, hlabel₁]
    have hlabel₃ : (newLabel (newLabel (newLabel allocated).2).2).2.addresses.length =
        builder.addresses.length + 3 := by
      rw [newLabel_labels, hlabel₂]
    have hinit : emit (fourLabels allocated) (.repeatInit counter) span = .ok counted := hinit
    have hhead : emit (placeLabel counted allocated.addresses.length)
      (.repetition counter (newLabel allocated).2.addresses.length
        (newLabel (newLabel (newLabel allocated).2).2).2.addresses.length quantifier.greedy
        quantifier.maximum quantifier.minimum) span = .ok decided := hhead
    have henter : emit (placeLabel decided (newLabel allocated).2.addresses.length)
      (.repeatEnter (newLabel (newLabel allocated).2).2.addresses.length
        ((captureBounds atom).elim 0 fun bounds => 2 * bounds.1)
        ((captureBounds atom).elim 0 fun bounds => 2 * bounds.2 + 2) counter (counter + 1)) span =
        .ok entered := henter
    have hbody : buildAtom backward atom (placeLabel entered
      (newLabel (newLabel allocated).2).2.addresses.length) = .ok emitted := hbody
    have hend : emit emitted (.repeatEnd counter allocated.addresses.length quantifier.minimum
      (counter + 1)) span = .ok ended := hend
    rw [hlabels] at hhead hend
    rw [hlabel₁] at hhead henter
    rw [hlabel₂] at henter hbody
    rw [hlabel₃] at hhead
    have hentered : (placeLabel entered (builder.addresses.length + 2)).settings =
        builder.settings :=
      (emit_emitted henter).settings.trans ((emit_emitted hhead).settings.trans
        ((emit_emitted hinit).settings.trans hcounter.settings))
    obtain ⟨code, hcode, hbuilds⟩ := buildAtom_builds backward atom hbody
      (hentered.trans hsettings)
    refine ⟨.repetition quantifier.minimum quantifier.maximum quantifier.greedy
      ((captureBounds atom).elim 0 fun bounds => 2 * bounds.1)
      ((captureBounds atom).elim 0 fun bounds => 2 * bounds.2 + 2) code, ?_, ?_⟩
    · rw [termCode, hcode]
      rfl
    · show Builds backward builder _ (placeLabel ended
        (newLabel (newLabel (newLabel allocated).2).2).2.addresses.length)
      rw [hlabel₃]
      exact .repetition hcounter (emit_emitted hinit) (emit_emitted hhead)
        (emit_emitted henter) hbuilds (emit_emitted hend)

lemma buildTerms_builds (backward : Bool) : ∀ (terms : List Term) {builder reference builder' : Builder},
    buildTerms backward terms builder = .ok builder' → builder.settings = reference.settings →
    ∃ code, termsCode backward terms reference = .ok code ∧ Builds backward builder code builder'
  | [], builder, reference, builder', h, hsettings => by
    cases h
    exact ⟨.skip, rfl, .skip builder⟩
  | term :: terms, builder, reference, builder', h, hsettings => by
    rw [buildTerms] at h
    cases backward with
    | true =>
      obtain ⟨emitted, hterms, hterm⟩ := build_bind_eq_ok h
      obtain ⟨rest, hrest, hbuilds⟩ := buildTerms_builds true terms hterms hsettings
      obtain ⟨one, hone, hbuilds'⟩ :=
        buildTerm_builds true term hterm (hbuilds.settings.trans hsettings)
      refine ⟨.sequence rest one, ?_, hbuilds.sequence hbuilds'⟩
      rw [termsCode, hone, hrest]
      rfl
    | false =>
      obtain ⟨emitted, hterm, hterms⟩ := build_bind_eq_ok h
      obtain ⟨one, hone, hbuilds⟩ := buildTerm_builds false term hterm hsettings
      obtain ⟨rest, hrest, hbuilds'⟩ :=
        buildTerms_builds false terms hterms (hbuilds.settings.trans hsettings)
      refine ⟨.sequence one rest, ?_, hbuilds.sequence hbuilds'⟩
      rw [termsCode, hone, hrest]
      rfl

lemma buildAlternatives_builds (backward : Bool) (finish : ℕ) :
    ∀ (alternatives : List Alternative) {builder reference builder' : Builder},
    buildAlternatives backward finish alternatives builder = .ok builder' →
    builder.settings = reference.settings →
    ∃ code, alternativesCode backward alternatives reference = .ok code ∧
      BuildsTo finish backward builder code builder'
  | [], builder, reference, builder', h, hsettings => by
    cases h
    exact ⟨.skip, rfl, (Builds.skip builder).to finish⟩
  | .mk terms span :: alternatives, builder, reference, builder', h, hsettings => by
    rw [buildAlternatives] at h
    by_cases hlast : alternatives.isEmpty = true
    · rw [if_pos hlast] at h
      obtain ⟨code, hcode, hbuilds⟩ := buildTerms_builds backward terms h hsettings
      refine ⟨code, ?_, hbuilds.to finish⟩
      rw [alternativesCode, hcode]
      simp only [bind, bind, hlast, if_true]
      rfl
    · rw [if_neg hlast] at h
      obtain ⟨forked, hfork, h⟩ := build_bind_eq_ok h
      obtain ⟨emitted, hterms, h⟩ := build_bind_eq_ok h
      obtain ⟨jumped, hjump, h⟩ := build_bind_eq_ok h
      have hfork : emit (newLabel (newLabel builder).2).2
        (.fork (newLabel builder).2.addresses.length builder.addresses.length) span =
          .ok forked := hfork
      have hsettings₁ : (placeLabel forked builder.addresses.length).settings =
          reference.settings := (emit_emitted hfork).settings.trans hsettings
      obtain ⟨code, hcode, hbuilds⟩ := buildTerms_builds backward terms hterms hsettings₁
      obtain ⟨others, hothers, hbuilds₂⟩ := buildAlternatives_builds backward finish alternatives h
        ((emit_emitted hjump).settings.trans (hbuilds.settings.trans hsettings₁))
      refine ⟨.alternate code others, ?_, .forked hfork hbuilds hjump hbuilds₂⟩
      rw [alternativesCode, hcode, hothers]
      simp only [bind, bind, hlast]
      rfl

lemma buildDisjunction_builds (backward : Bool) : ∀ (disjunction : Disjunction) {builder reference builder' : Builder},
    buildDisjunction backward disjunction builder = .ok builder' → builder.settings = reference.settings →
    ∃ code, disjunctionCode backward disjunction reference = .ok code ∧ Builds backward builder code builder'
  | .mk [], builder, reference, builder', h, hsettings => by
    obtain ⟨emitted, hloop, h⟩ := build_bind_eq_ok h
    cases h
    obtain ⟨code, hcode, hbuilds⟩ := buildAlternatives_builds backward _ [] hloop hsettings
    exact ⟨code, hcode, hbuilds.close⟩
  | .mk [.mk terms span], builder, reference, builder', h, hsettings => by
    obtain ⟨code, hcode, hbuilds⟩ := buildTerms_builds backward terms h hsettings
    refine ⟨code, ?_, hbuilds⟩
    rw [disjunctionCode, alternativesCode, hcode]
    rfl
  | .mk (first :: second :: alternatives), builder, reference, builder', h, hsettings => by
    obtain ⟨emitted, hloop, h⟩ := build_bind_eq_ok h
    cases h
    obtain ⟨code, hcode, hbuilds⟩ := buildAlternatives_builds backward _
      (first :: second :: alternatives) hloop hsettings
    exact ⟨code, hcode, hbuilds.close⟩

end

end Oseo.RegExpMatcher
