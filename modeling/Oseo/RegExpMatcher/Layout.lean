import Oseo.RegExpMatcher.Build
import Oseo.RegExpMatcher.CodeSearch

/-!
# Laying out code

A builder only grows: its instructions and sets stay where they are, registers are only added,
and a label that is placed is not placed again. `Grows kept` names the labels whose addresses
stay; every function of the builder keeps the labels that were there before it.

`Builds builder code builder'`: the builder emitted the code, and whatever it emits afterwards,
the finished program holds it where it was emitted. `BuildsTo` is the same for code that jumps
to a label placed later. One lemma for each form of code says how it is put together from
labels and instructions.
-/

namespace Oseo.RegExpMatcher

open List

section

open Nat

variable {kept kept' : ℕ → Prop} {builder builder' builder'' : Builder} {span : Span}

/-- What decides the sets and tests a builder emits, and its shared failure. -/
structure Settings where
  unicodeData : UnicodeData
  unicodeMode : Bool
  unicodeSets : Bool
  dotAll : Bool
  ignoreCase : Bool
  multiline : Bool
  failLabel : ℕ

def Builder.settings (builder : Builder) : Settings where
  unicodeData := builder.unicodeData
  unicodeMode := builder.unicodeMode
  unicodeSets := builder.unicodeSets
  dotAll := builder.dotAll
  ignoreCase := builder.ignoreCase
  multiline := builder.multiline
  failLabel := builder.failLabel

/-- The second builder continues the first, with the addresses of the labels in `kept`. -/
structure Grows (kept : ℕ → Prop) (builder builder' : Builder) : Prop where
  instructions : builder.instructions <+: builder'.instructions
  sets : builder.sets <+: builder'.sets
  registers : builder.registers ≤ builder'.registers
  labels : builder.addresses.length ≤ builder'.addresses.length
  addresses : ∀ label, kept label → builder'.addresses[label]? = builder.addresses[label]?

/-- The labels below those of a builder. -/
def Builder.old (builder : Builder) (label : ℕ) : Prop := label < builder.addresses.length

namespace Grows

lemma refl (builder : Builder) : Grows kept builder builder where
  instructions := prefix_refl _
  sets := prefix_refl _
  registers := le_refl _
  labels := le_refl _
  addresses _ _ := rfl

lemma trans (h : Grows kept builder builder') (h' : Grows kept' builder' builder'') :
    Grows (fun label => kept label ∧ kept' label) builder builder'' where
  instructions := h.instructions.trans h'.instructions
  sets := h.sets.trans h'.sets
  registers := le_trans h.registers h'.registers
  labels := le_trans h.labels h'.labels
  addresses label hlabel := (h'.addresses label hlabel.2).trans (h.addresses label hlabel.1)

lemma mono (h : Grows kept builder builder') (hsub : ∀ label, kept' label → kept label) :
    Grows kept' builder builder' where
  instructions := h.instructions
  sets := h.sets
  registers := h.registers
  labels := h.labels
  addresses label hlabel := h.addresses label (hsub label hlabel)

end Grows

/-! ## Operations -/

section
variable (builder : Builder)

@[simp] lemma newLabel_fst :
    (newLabel builder).1 = builder.addresses.length := rfl

@[simp] lemma newLabel_labels :
    (newLabel builder).2.addresses.length = builder.addresses.length + 1 := by
  simp [newLabel]

@[simp] lemma newLabel_instructions :
    (newLabel builder).2.instructions = builder.instructions := rfl

@[simp] lemma newLabel_registers :
    (newLabel builder).2.registers = builder.registers := rfl

@[simp] lemma newLabel_settings :
    (newLabel builder).2.settings = builder.settings := rfl

lemma newLabel_grows :
    Grows (· ≠ builder.addresses.length) builder (newLabel builder).2 where
  instructions := prefix_refl _
  sets := prefix_refl _
  registers := le_refl _
  labels := by simp
  addresses label hlabel := by
    simp only [newLabel]
    rcases lt_or_ge label builder.addresses.length with hlt | hge
    · exact getElem?_append_left hlt
    · rw [getElem?_eq_none hge, getElem?_eq_none (by
        rw [length_append, length_cons, length_nil]
        omega)]

@[simp] lemma placeLabel_labels (label : ℕ) :
    (placeLabel builder label).addresses.length = builder.addresses.length := by
  simp [placeLabel]

@[simp] lemma placeLabel_instructions (label : ℕ) :
    (placeLabel builder label).instructions = builder.instructions := rfl

@[simp] lemma placeLabel_registers (label : ℕ) :
    (placeLabel builder label).registers = builder.registers := rfl

@[simp] lemma placeLabel_settings (label : ℕ) :
    (placeLabel builder label).settings = builder.settings := rfl

lemma placeLabel_grows (label : ℕ) :
    Grows (· ≠ label) builder (placeLabel builder label) where
  instructions := prefix_refl _
  sets := prefix_refl _
  registers := le_refl _
  labels := by simp
  addresses other hother := by
    simp only [placeLabel]
    exact getElem?_set_ne (Ne.symm hother)

end

/-- A placed label is at the next instruction. -/
lemma placeLabel_address {label : ℕ} (h : label < builder.addresses.length) :
    (placeLabel builder label).addresses[label]? = some (some builder.instructions.length) := by
  simp only [placeLabel]
  exact getElem?_set_self h

lemma emit_eq_ok {instruction : Instruction} (h : emit builder instruction span = .ok builder') :
    builder' = { builder with
      lowered := builder.lowered + instruction.cost
      instructions := builder.instructions ++ [instruction] } := by
  unfold emit at h
  split at h
  · cases h
  · cases h
    rfl

/-- What emitting one instruction does. -/
structure Emitted (builder : Builder) (instruction : Instruction) (builder' : Builder) :
    Prop where
  grows : ∀ kept, Grows kept builder builder'
  instructions : builder'.instructions = builder.instructions ++ [instruction]
  labels : builder'.addresses = builder.addresses
  registers : builder'.registers = builder.registers
  settings : builder'.settings = builder.settings

lemma emit_emitted {instruction : Instruction}
    (h : emit builder instruction span = .ok builder') :
    Emitted builder instruction builder' := by
  rw [emit_eq_ok h]
  exact {
    grows := fun kept => {
      instructions := prefix_append _ _
      sets := prefix_refl _
      registers := le_refl _
      labels := le_refl _
      addresses := fun _ _ => rfl }
    instructions := rfl
    labels := rfl
    registers := rfl
    settings := rfl }

/-- What allocating registers does. -/
structure Allocated (builder : Builder) (count base : ℕ) (builder' : Builder) : Prop where
  grows : ∀ kept, Grows kept builder builder'
  base : base = builder.registers
  instructions : builder'.instructions = builder.instructions
  labels : builder'.addresses = builder.addresses
  registers : builder'.registers = builder.registers + count
  settings : builder'.settings = builder.settings

lemma allocateRegisters_allocated {count base : ℕ}
    (h : allocateRegisters builder count span = .ok (base, builder')) :
    Allocated builder count base builder' := by
  unfold allocateRegisters at h
  split at h
  · cases h
  · cases h
    exact {
      grows := fun kept => {
        instructions := prefix_refl _
        sets := prefix_refl _
        registers := le_add_right _ _
        labels := le_refl _
        addresses := fun _ _ => rfl }
      base := rfl
      instructions := rfl
      labels := rfl
      registers := rfl
      settings := rfl }

/-- What interning a set does: the set is at its index. -/
structure Interned (builder : Builder) (set : MatcherSet) (result : ℕ × Builder) : Prop where
  grows : ∀ kept, Grows kept builder result.2
  set : result.2.sets[result.1]? = some set
  instructions : result.2.instructions = builder.instructions
  labels : result.2.addresses = builder.addresses
  registers : result.2.registers = builder.registers
  settings : result.2.settings = builder.settings

lemma internSet_interned (builder : Builder) (set : MatcherSet) :
    Interned builder set (internSet builder set) := by
  unfold internSet
  split
  · rename_i hmem
    exact {
      grows := fun kept => .refl builder
      set := getElem?_idxOf hmem
      instructions := rfl
      labels := rfl
      registers := rfl
      settings := rfl }
  · exact {
      grows := fun kept => {
        instructions := prefix_refl _
        sets := prefix_append _ _
        registers := le_refl _
        labels := le_refl _
        addresses := fun _ _ => rfl }
      set := by simp
      instructions := rfl
      labels := rfl
      registers := rfl
      settings := rfl }

/-! ## Results of builder functions -/

lemma build_bind_eq_ok {α β : Type} {first : Build α} {next : α → Build β} {result : β}
    (h : (first >>= next) = .ok result) :
    ∃ value, first = .ok value ∧ next value = .ok result := by
  cases first with
  | error error => cases h
  | ok value => exact ⟨value, rfl, h⟩

end

/-! ## Code -/

variable {builder builder' : Builder} {span : Span} {code code' : Code} {backward : Bool}
variable {final : Builder} {program : MatcherProgram} {failAt : ℕ}

/-- The program of a builder, with its labels resolved. -/
structure Finished (final : Builder) (program : MatcherProgram) : Prop where
  instructions : program.instructions = final.instructions.map (resolveTargets final.addresses)
  sets : program.sets = final.sets

/-- The labels a builder got after another. -/
def NewLabel (builder builder' : Builder) (label : ℕ) : Prop :=
  builder.addresses.length ≤ label ∧ label < builder'.addresses.length

/-- The final builder continues `builder'`, which continues `builder`: it keeps the labels in
between, and has placed the shared failure. -/
structure Continues (builder builder' final : Builder) (failAt : ℕ) : Prop where
  grows : Grows (NewLabel builder builder') builder' final
  failAt : final.addresses[builder.failLabel]? = some (some failAt)

/-- The builder emitted the code. -/
structure Builds (backward : Bool) (builder : Builder) (code : Code) (builder' : Builder) :
    Prop where
  grows : Grows builder.old builder builder'
  settings : builder'.settings = builder.settings
  lays : ∀ program final failAt, Finished final program →
    Continues builder builder' final failAt →
    code.Lays program failAt backward builder.instructions.length builder'.instructions.length
      builder.registers builder'.registers

/-- The builder emitted the code, provided `finish` is placed after it. -/
structure BuildsTo (finish : ℕ) (backward : Bool) (builder : Builder) (code : Code)
    (builder' : Builder) : Prop where
  grows : Grows builder.old builder builder'
  settings : builder'.settings = builder.settings
  lays : ∀ program final failAt, Finished final program →
    Continues builder builder' final failAt →
    final.addresses[finish]? = some (some builder'.instructions.length) →
    code.Lays program failAt backward builder.instructions.length builder'.instructions.length
      builder.registers builder'.registers

lemma Builds.to (h : Builds backward builder code builder') (finish : ℕ) :
    BuildsTo finish backward builder code builder' where
  grows := h.grows
  settings := h.settings
  lays program final failAt hfinished hcontinues _ :=
    h.lays program final failAt hfinished hcontinues

lemma failLabel_eq (h : builder'.settings = builder.settings) :
    builder'.failLabel = builder.failLabel :=
  congrArg Settings.failLabel h

/-! ## What the finished program has -/

namespace Finished

lemma fetch {instruction : Instruction} (h : Finished final program)
    (hemit : builder'.instructions = builder.instructions ++ [instruction])
    (hkept : builder'.instructions <+: final.instructions) :
    program.instructions[builder.instructions.length]? =
      some (resolveTargets final.addresses instruction) := by
  rw [h.instructions, getElem?_map]
  obtain ⟨rest, hrest⟩ := hkept
  rw [← hrest, hemit, append_assoc, getElem?_append_right (Nat.le_refl _),
    Nat.sub_self]
  rfl

lemma set {index : ℕ} {set : MatcherSet} (h : Finished final program)
    (hset : builder'.sets[index]? = some set) (hkept : builder'.sets <+: final.sets) :
    program.sets[index]? = some set := by
  obtain ⟨rest, hrest⟩ := hkept
  obtain ⟨hlt, -⟩ := List.getElem?_eq_some_iff.mp hset
  rw [h.sets, ← hrest, List.getElem?_append_left hlt]
  exact hset

end Finished

/-- The address of a label that is placed. -/
lemma resolve_address {addresses : List (Option ℕ)} {label address : ℕ}
    (h : addresses[label]? = some (some address)) :
    resolveTargets.address addresses label = address := by
  rw [resolveTargets.address, h]
  rfl

namespace Continues

/-- A part of what a builder emitted. -/
lemma inner {kept : ℕ → Prop} {builder₁ builder₂ : Builder}
    (h : Continues builder builder' final failAt)
    (hlabels : builder.addresses.length ≤ builder₁.addresses.length)
    (hsettings : builder₁.settings = builder.settings) (hgrows : Grows kept builder₂ builder')
    (hkept : ∀ label, NewLabel builder₁ builder₂ label → kept label) :
    Continues builder₁ builder₂ final failAt where
  grows := by
    apply (hgrows.trans h.grows).mono
    intro label hlabel
    have hnew := hgrows.labels
    refine ⟨hkept label hlabel, ?_⟩
    unfold NewLabel at hlabel ⊢
    omega
  failAt := by
    rw [failLabel_eq hsettings]
    exact h.failAt

/-- A label keeps the address it had in between. -/
lemma address {kept : ℕ → Prop} {builder₂ : Builder} {label : ℕ}
    (h : Continues builder builder' final failAt) (hgrows : Grows kept builder₂ builder')
    (hkept : kept label) (hnew : NewLabel builder builder' label) :
    final.addresses[label]? = builder₂.addresses[label]? :=
  (h.grows.addresses label hnew).trans (hgrows.addresses label hkept)

/-- A label placed in between stands for the address where it was placed. -/
lemma placed {builder₂ : Builder} {label bound : ℕ} (h : Continues builder builder' final failAt)
    (hgrows : Grows (· < bound) (placeLabel builder₂ label) builder') (hbound : label < bound)
    (hold : builder.addresses.length ≤ label) (hnew : label < builder₂.addresses.length) :
    final.addresses[label]? = some (some builder₂.instructions.length) := by
  have hlabels := hgrows.labels
  rw [placeLabel_labels] at hlabels
  rw [h.address hgrows hbound ⟨hold, by omega⟩, placeLabel_address hnew]

/-- An instruction emitted in between is in the finished program, with its targets resolved. -/
lemma fetch {builder₁ builder₂ : Builder} {instruction : Instruction}
    (h : Continues builder builder' final failAt) (hfinished : Finished final program)
    (hemitted : Emitted builder₁ instruction builder₂)
    (hkept : builder₂.instructions <+: builder'.instructions) :
    program.instructions[builder₁.instructions.length]? =
      some (resolveTargets final.addresses instruction) :=
  hfinished.fetch hemitted.instructions (hkept.trans h.grows.instructions)

end Continues

lemma Emitted.length {instruction : Instruction} (h : Emitted builder instruction builder') :
    builder'.instructions.length = builder.instructions.length + 1 := by
  rw [h.instructions, length_append]
  rfl

/-- The code behind a label, as a part of what a builder emitted. -/
lemma Builds.placed {builder₁ builder₂ : Builder} {label : ℕ} {kept : ℕ → Prop}
    (h : Builds backward (placeLabel builder₁ label) code builder₂)
    (hfinished : Finished final program) (hcontinues : Continues builder builder' final failAt)
    (hlabels : builder.addresses.length ≤ builder₁.addresses.length)
    (hsettings : builder₁.settings = builder.settings) (hgrows : Grows kept builder₂ builder')
    (hkept : ∀ label, builder₁.addresses.length ≤ label → label < builder₂.addresses.length →
      kept label) :
    code.Lays program failAt backward builder₁.instructions.length builder₂.instructions.length
      builder₁.registers builder₂.registers := by
  apply h.lays program final failAt hfinished
  apply hcontinues.inner _ ((placeLabel_settings builder₁ _).trans hsettings) hgrows
  · intro label hlabel
    unfold NewLabel at hlabel
    rw [placeLabel_labels] at hlabel
    exact hkept label hlabel.1 hlabel.2
  · rw [placeLabel_labels]
    exact hlabels

/-! ## Single instructions -/

/-- One instruction without targets, and the set it names. -/
lemma Builds.interned {set : MatcherSet} {result : ℕ × Builder} {instruction : Instruction}
    (hinterned : Interned builder set result) (hemitted : Emitted result.2 instruction builder')
    (hresolve : ∀ addresses, resolveTargets addresses instruction = instruction)
    (hlays : ∀ (program : MatcherProgram) (failAt : ℕ),
      program.instructions[builder.instructions.length]? = some instruction →
      program.sets[result.1]? = some set →
      code.Lays program failAt backward builder.instructions.length
        (builder.instructions.length + 1) builder.registers builder.registers) :
    Builds backward builder code builder' where
  grows := ((hinterned.grows builder.old).trans (hemitted.grows builder.old)).mono
    fun label hlabel => ⟨hlabel, hlabel⟩
  settings := hemitted.settings.trans hinterned.settings
  lays program final failAt hfinished hcontinues := by
    have hfetch := hfinished.fetch hemitted.instructions hcontinues.grows.instructions
    rw [hresolve, hinterned.instructions] at hfetch
    have hsets := (hemitted.grows fun _ => True).sets.trans hcontinues.grows.sets
    rw [hemitted.length, hinterned.instructions, hemitted.registers, hinterned.registers]
    exact hlays program failAt hfetch (hfinished.set hinterned.set hsets)

/-- One instruction without targets. -/
lemma Builds.single {instruction : Instruction}
    (hemitted : Emitted builder instruction builder')
    (hresolve : ∀ addresses, resolveTargets addresses instruction = instruction)
    (hlays : ∀ (program : MatcherProgram) (failAt : ℕ),
      program.instructions[builder.instructions.length]? = some instruction →
      code.Lays program failAt backward builder.instructions.length
        (builder.instructions.length + 1) builder.registers builder.registers) :
    Builds backward builder code builder' where
  grows := hemitted.grows builder.old
  settings := hemitted.settings
  lays program final failAt hfinished hcontinues := by
    have hfetch := hfinished.fetch hemitted.instructions hcontinues.grows.instructions
    rw [hresolve] at hfetch
    rw [hemitted.length, hemitted.registers]
    exact hlays program failAt hfetch

lemma Builds.skip (builder : Builder) : Builds backward builder .skip builder where
  grows := .refl builder
  settings := rfl
  lays _ _ _ _ _ := ⟨rfl, Nat.le_refl _⟩

lemma emitConsume_builds {set : MatcherSet}
    (h : emitConsume builder set backward span = .ok builder') :
    Builds backward builder (.consume set) builder' := by
  have hinterned := internSet_interned builder set
  apply Builds.interned hinterned (emit_emitted h) fun _ => rfl
  intro program failAt hfetch hset
  exact ⟨⟨_, hfetch, hset⟩, rfl, Nat.le_refl _⟩

/-! ## Compound code -/

section Compound

variable {builder₁ builder₂ builder₃ builder₄ : Builder} {finish : ℕ}

lemma Builds.sequence (h : Builds backward builder code builder₁)
    (h' : Builds backward builder₁ code' builder₂) :
    Builds backward builder (.sequence code code') builder₂ where
  grows := (h.grows.trans h'.grows).mono fun label hlabel =>
    ⟨hlabel, Nat.lt_of_lt_of_le hlabel h.grows.labels⟩
  settings := h'.settings.trans h.settings
  lays program final failAt hfinished hcontinues := by
    refine ⟨_, _, h.lays program final failAt hfinished ?_,
      h'.lays program final failAt hfinished ?_⟩
    · exact hcontinues.inner (Nat.le_refl _) rfl h'.grows fun label hlabel => hlabel.2
    · exact hcontinues.inner h.grows.labels h.settings (.refl builder₂)
        fun _ _ => trivial

/-- The last alternative is followed by the label the others jump to. -/
lemma BuildsTo.close
    (h : BuildsTo builder.addresses.length backward (newLabel builder).2 code builder₁) :
    Builds backward builder code (placeLabel builder₁ builder.addresses.length) where
  grows := by
    apply (((newLabel_grows builder).trans h.grows).trans (placeLabel_grows builder₁ _)).mono
    intro label hlabel
    unfold Builder.old at hlabel ⊢
    rw [newLabel_labels]
    omega
  settings := h.settings
  lays program final failAt hfinished hcontinues := by
    have hlabels := h.grows.labels
    rw [newLabel_labels] at hlabels
    have hnew : NewLabel builder (placeLabel builder₁ builder.addresses.length)
        builder.addresses.length := by
      unfold NewLabel
      rw [placeLabel_labels]
      omega
    apply h.lays program final failAt hfinished
    · apply hcontinues.inner _ (newLabel_settings builder) (placeLabel_grows builder₁ _)
      · intro label hlabel
        unfold NewLabel at hlabel
        rw [newLabel_labels] at hlabel
        omega
      · rw [newLabel_labels]
        omega
    · rw [hcontinues.grows.addresses _ hnew, placeLabel_address (by omega)]

/-- A fork, the preferred code with a jump to the end, and the alternative. -/
lemma BuildsTo.alternate {preferred alternative : Code}
    (hfork : Emitted (newLabel (newLabel builder).2).2
      (.fork (builder.addresses.length + 1) builder.addresses.length) builder₁)
    (hpreferred : Builds backward (placeLabel builder₁ builder.addresses.length) preferred
      builder₂)
    (hjump : Emitted builder₂ (.jump finish) builder₃)
    (halternative : BuildsTo finish backward
      (placeLabel builder₃ (builder.addresses.length + 1)) alternative builder₄) :
    BuildsTo finish backward builder (.alternate preferred alternative) builder₄ := by
  -- How many labels there are after each part.
  have hlabels₁ : builder₁.addresses.length = builder.addresses.length + 2 := by
    rw [hfork.labels, newLabel_labels, newLabel_labels]
  have hlabels₂ : builder₁.addresses.length ≤ builder₂.addresses.length := by
    simpa using hpreferred.grows.labels
  have hlabels₃ : builder₃.addresses.length = builder₂.addresses.length := by
    rw [hjump.labels]
  have hlabels₄ : builder₃.addresses.length ≤ builder₄.addresses.length := by
    simpa using halternative.grows.labels
  -- From the end of the preferred code on, only its label and new ones are placed.
  have hgrows₂ : Grows (fun label => label ≠ builder.addresses.length + 1 ∧
      label < builder₃.addresses.length) builder₂ builder₄ := by
    apply (((hjump.grows fun _ => True).trans (placeLabel_grows builder₃ _)).trans
      halternative.grows).mono
    intro label hlabel
    refine ⟨⟨trivial, hlabel.1⟩, ?_⟩
    rw [Builder.old, placeLabel_labels]
    exact hlabel.2
  have hgrows₁ : Grows (· < builder.addresses.length + 1) (placeLabel builder₁
      builder.addresses.length) builder₄ := by
    apply (hpreferred.grows.trans hgrows₂).mono
    intro label hlabel
    rw [Builder.old, placeLabel_labels]
    omega
  have hgrows : Grows builder.old builder builder₄ := by
    apply (((((newLabel_grows builder).trans (newLabel_grows _)).trans
      (hfork.grows fun _ => True)).trans (placeLabel_grows builder₁ _)).trans hgrows₁).mono
    intro label hlabel
    unfold Builder.old at hlabel
    rw [newLabel_labels]
    refine ⟨⟨⟨⟨?_, ?_⟩, trivial⟩, ?_⟩, ?_⟩ <;> omega
  have hsettings : builder₂.settings = builder.settings :=
    hpreferred.settings.trans hfork.settings
  have hinstructions₁ : builder₁.instructions.length = builder.instructions.length + 1 :=
    hfork.length
  have hinstructions₃ := hjump.length
  refine ⟨hgrows, halternative.settings.trans (hjump.settings.trans hsettings), ?_⟩
  intro program final failAt hfinished hcontinues hfinish
  -- The two labels and the instructions that use them.
  have hpreferredAt : final.addresses[builder.addresses.length]? =
      some (some (builder.instructions.length + 1)) :=
    hinstructions₁ ▸ hcontinues.placed hgrows₁ (by omega) (by omega) (by omega)
  have hnextAt : final.addresses[builder.addresses.length + 1]? =
      some (some (builder₂.instructions.length + 1)) := by
    rw [hcontinues.address halternative.grows _ ⟨by omega, by omega⟩,
      placeLabel_address (by omega), hinstructions₃]
    rw [Builder.old, placeLabel_labels]
    omega
  have hfetchFork := hcontinues.fetch hfinished hfork hgrows₁.instructions
  have hfetchJump := hcontinues.fetch hfinished hjump halternative.grows.instructions
  simp only [newLabel_instructions, resolveTargets, resolve_address hpreferredAt,
    resolve_address hnextAt] at hfetchFork
  simp only [resolveTargets, resolve_address hfinish] at hfetchJump
  refine ⟨builder₂.instructions.length, builder₂.registers, hfetchFork, ?_, hfetchJump, ?_⟩
  · have hlays := hpreferred.placed hfinished hcontinues (by omega) hfork.settings hgrows₂
      fun label _ _ => by omega
    rw [hinstructions₁, hfork.registers] at hlays
    exact hlays
  · have hlays := halternative.lays program final failAt hfinished
    rw [placeLabel_instructions, hinstructions₃, placeLabel_registers, hjump.registers] at hlays
    apply hlays _ hfinish
    apply hcontinues.inner _
      ((placeLabel_settings builder₃ _).trans (hjump.settings.trans hsettings)) (.refl builder₄)
      fun label hlabel => hlabel
    rw [placeLabel_labels]
    omega

lemma Builds.capture {index : ℕ} {body : Code}
    (hopen : Emitted builder (.save (openSlot backward index)) builder₁)
    (hbody : Builds backward builder₁ body builder₂)
    (hclose : Emitted builder₂ (.save (closeSlot backward index)) builder₃) :
    Builds backward builder (.capture index body) builder₃ where
  grows := by
    apply (((hopen.grows builder.old).trans hbody.grows).trans (hclose.grows builder.old)).mono
    intro label hlabel
    refine ⟨⟨hlabel, ?_⟩, hlabel⟩
    rw [Builder.old, hopen.labels]
    exact hlabel
  settings := hclose.settings.trans (hbody.settings.trans hopen.settings)
  lays program final failAt hfinished hcontinues := by
    have hgrows := hclose.grows fun _ => True
    have hfetchOpen := hcontinues.fetch hfinished hopen
      (hbody.grows.instructions.trans hgrows.instructions)
    have hfetchClose := hfinished.fetch hclose.instructions hcontinues.grows.instructions
    have hlays := hbody.lays program final failAt hfinished
      (hcontinues.inner (Nat.le_of_eq (by rw [hopen.labels])) hopen.settings hgrows
        fun _ _ => trivial)
    rw [hopen.length, hopen.registers] at hlays
    rw [hclose.length, hclose.registers]
    exact ⟨_, hfetchOpen, hlays, hfetchClose, rfl⟩

/-- A lookaround: its start, its body in its own direction, its end. -/
lemma Builds.look {negated behind : Bool} {frame onFail : ℕ} {body : Code}
    (hframe : Allocated builder 1 frame builder₁)
    (honFail : onFail = if negated then builder.addresses.length + 1 else builder.failLabel)
    (hstart : Emitted (newLabel (newLabel builder₁).2).2
      (.lookStart builder.addresses.length frame negated onFail) builder₂)
    (hbody : Builds behind (placeLabel builder₂ builder.addresses.length) body builder₃)
    (hend : Emitted builder₃ (.lookEnd (builder.addresses.length + 1) frame negated) builder₄) :
    Builds backward builder (.look behind negated body)
      (placeLabel builder₄ (builder.addresses.length + 1)) := by
  have hlabels₁ : builder₁.addresses.length = builder.addresses.length := by
    rw [hframe.labels]
  have hlabels₂ : builder₂.addresses.length = builder.addresses.length + 2 := by
    rw [hstart.labels, newLabel_labels, newLabel_labels, hlabels₁]
  have hlabels₃ : builder₂.addresses.length ≤ builder₃.addresses.length := by
    simpa using hbody.grows.labels
  have hlabels₄ : builder₄.addresses.length = builder₃.addresses.length := by
    rw [hend.labels]
  have hinstructions₂ : builder₂.instructions.length = builder.instructions.length + 1 := by
    rw [hstart.length, newLabel_instructions, newLabel_instructions, hframe.instructions]
  have hgrows₃ : Grows (· ≠ builder.addresses.length + 1) builder₃
      (placeLabel builder₄ (builder.addresses.length + 1)) :=
    ((hend.grows fun _ => True).trans (placeLabel_grows builder₄ _)).mono
      fun label hlabel => ⟨trivial, hlabel⟩
  have hgrows₂ : Grows (· < builder.addresses.length + 1)
      (placeLabel builder₂ builder.addresses.length)
      (placeLabel builder₄ (builder.addresses.length + 1)) := by
    apply (hbody.grows.trans hgrows₃).mono
    intro label hlabel
    rw [Builder.old, placeLabel_labels]
    omega
  have hsettings : builder₂.settings = builder.settings :=
    hstart.settings.trans hframe.settings
  refine ⟨?_, (hend.settings.trans hbody.settings).trans hsettings, ?_⟩
  · apply (((((hframe.grows builder.old).trans (newLabel_grows builder₁)).trans
      (newLabel_grows _)).trans (hstart.grows fun _ => True)).trans
      ((placeLabel_grows builder₂ builder.addresses.length).trans hgrows₂)).mono
    intro label hlabel
    unfold Builder.old at hlabel ⊢
    rw [newLabel_labels]
    refine ⟨⟨⟨⟨hlabel, ?_⟩, ?_⟩, trivial⟩, ?_, ?_⟩ <;> omega
  intro program final failAt hfinished hcontinues
  have hstartAt : final.addresses[builder.addresses.length]? =
      some (some (builder.instructions.length + 1)) :=
    hinstructions₂ ▸ hcontinues.placed hgrows₂ (by omega) (by omega) (by omega)
  have hexitAt : final.addresses[builder.addresses.length + 1]? =
      some (some builder₄.instructions.length) :=
    hcontinues.placed (.refl _) (Nat.lt_succ_self _) (by omega) (by omega)
  have honFailAt : resolveTargets.address final.addresses onFail =
      if negated then builder₄.instructions.length else failAt := by
    rw [honFail]
    cases negated
    · exact resolve_address hcontinues.failAt
    · exact resolve_address hexitAt
  have hfetchStart := hcontinues.fetch hfinished hstart hgrows₂.instructions
  have hfetchEnd := hfinished.fetch hend.instructions hcontinues.grows.instructions
  simp only [newLabel_instructions, hframe.instructions, resolveTargets, honFailAt,
    resolve_address hstartAt, hframe.base] at hfetchStart
  simp only [resolveTargets, resolve_address hexitAt, hframe.base] at hfetchEnd
  have hlays := hbody.placed hfinished hcontinues (by omega) hsettings hgrows₃
    fun label _ _ => by omega
  rw [hinstructions₂, hstart.registers, newLabel_registers, newLabel_registers,
    hframe.registers] at hlays
  rw [placeLabel_instructions, placeLabel_registers, hend.registers]
  exact ⟨builder₃.instructions.length, hfetchStart, hlays, hfetchEnd, hend.length⟩

/-- The four labels of a repetition. -/
def fourLabels (builder : Builder) : Builder :=
  (newLabel (newLabel (newLabel (newLabel builder).2).2).2).2

lemma fourLabels_labels (builder : Builder) :
    (fourLabels builder).addresses.length = builder.addresses.length + 4 := by
  simp [fourLabels]

lemma fourLabels_grows (builder : Builder) : Grows builder.old builder (fourLabels builder) := by
  apply ((((newLabel_grows builder).trans (newLabel_grows _)).trans (newLabel_grows _)).trans
    (newLabel_grows _)).mono
  intro label hlabel
  unfold Builder.old at hlabel
  simp only [newLabel_labels]
  omega

/-- A repetition: its count reset, the decision, the start of an iteration, the body and the
end of an iteration. -/
lemma Builds.repetition {builder₅ builder₆ : Builder} {counter : ℕ} {minimum : ℕ}
    {maximum : Option ℕ} {greedy : Bool} {clearFrom clearTo : ℕ} {body : Code}
    (hcounter : Allocated builder 2 counter builder₁)
    (hinit : Emitted (fourLabels builder₁) (.repeatInit counter) builder₂)
    (hhead : Emitted (placeLabel builder₂ builder.addresses.length)
      (.repetition counter (builder.addresses.length + 1) (builder.addresses.length + 3) greedy
        maximum minimum) builder₃)
    (henter : Emitted (placeLabel builder₃ (builder.addresses.length + 1))
      (.repeatEnter (builder.addresses.length + 2) clearFrom clearTo counter (counter + 1))
      builder₄)
    (hbody : Builds backward (placeLabel builder₄ (builder.addresses.length + 2)) body builder₅)
    (hend : Emitted builder₅
      (.repeatEnd counter builder.addresses.length minimum (counter + 1)) builder₆) :
    Builds backward builder (.repetition minimum maximum greedy clearFrom clearTo body)
      (placeLabel builder₆ (builder.addresses.length + 3)) := by
  have hlabels₁ : builder₁.addresses.length = builder.addresses.length := by
    rw [hcounter.labels]
  have hlabels₂ : builder₂.addresses.length = builder.addresses.length + 4 := by
    rw [hinit.labels, fourLabels_labels, hlabels₁]
  have hlabels₃ : builder₃.addresses.length = builder₂.addresses.length := by
    rw [hhead.labels, placeLabel_labels]
  have hlabels₄ : builder₄.addresses.length = builder₃.addresses.length := by
    rw [henter.labels, placeLabel_labels]
  have hlabels₅ : builder₄.addresses.length ≤ builder₅.addresses.length := by
    simpa using hbody.grows.labels
  have hlabels₆ : builder₆.addresses.length = builder₅.addresses.length := by
    rw [hend.labels]
  have hinstructions₂ : builder₂.instructions.length = builder.instructions.length + 1 := by
    rw [hinit.length]
    show builder₁.instructions.length + 1 = _
    rw [hcounter.instructions]
  have hinstructions₃ : builder₃.instructions.length = builder.instructions.length + 2 := by
    rw [hhead.length, placeLabel_instructions, hinstructions₂]
  have hinstructions₄ : builder₄.instructions.length = builder.instructions.length + 3 := by
    rw [henter.length, placeLabel_instructions, hinstructions₃]
  -- What is still placed after each part.
  have hgrows₅ : Grows (· ≠ builder.addresses.length + 3) builder₅
      (placeLabel builder₆ (builder.addresses.length + 3)) :=
    ((hend.grows fun _ => True).trans (placeLabel_grows builder₆ _)).mono
      fun label hlabel => ⟨trivial, hlabel⟩
  have hgrows₄ : Grows (· < builder.addresses.length + 3)
      (placeLabel builder₄ (builder.addresses.length + 2))
      (placeLabel builder₆ (builder.addresses.length + 3)) := by
    apply (hbody.grows.trans hgrows₅).mono
    intro label hlabel
    rw [Builder.old, placeLabel_labels]
    omega
  have hgrows₃ : Grows (· < builder.addresses.length + 2)
      (placeLabel builder₃ (builder.addresses.length + 1))
      (placeLabel builder₆ (builder.addresses.length + 3)) := by
    apply (((henter.grows fun _ => True).trans (placeLabel_grows builder₄ _)).trans hgrows₄).mono
    intro label hlabel
    refine ⟨⟨trivial, ?_⟩, ?_⟩ <;> omega
  have hgrows₂ : Grows (· < builder.addresses.length + 1)
      (placeLabel builder₂ builder.addresses.length)
      (placeLabel builder₆ (builder.addresses.length + 3)) := by
    apply (((hhead.grows fun _ => True).trans (placeLabel_grows builder₃ _)).trans hgrows₃).mono
    intro label hlabel
    refine ⟨⟨trivial, ?_⟩, ?_⟩ <;> omega
  have hsettings : builder₄.settings = builder.settings :=
    henter.settings.trans (hhead.settings.trans (hinit.settings.trans hcounter.settings))
  refine ⟨?_, (hend.settings.trans hbody.settings).trans hsettings, ?_⟩
  · apply (((((hcounter.grows builder.old).trans (fourLabels_grows builder₁)).trans
      (hinit.grows fun _ => True)).trans (placeLabel_grows builder₂ builder.addresses.length)).trans
      hgrows₂).mono
    intro label hlabel
    unfold Builder.old at hlabel ⊢
    refine ⟨⟨⟨⟨hlabel, ?_⟩, trivial⟩, ?_⟩, ?_⟩ <;> omega
  intro program final failAt hfinished hcontinues
  have hheadAt : final.addresses[builder.addresses.length]? =
      some (some (builder.instructions.length + 1)) :=
    hinstructions₂ ▸ hcontinues.placed hgrows₂ (by omega) (by omega) (by omega)
  have henterAt : final.addresses[builder.addresses.length + 1]? =
      some (some (builder.instructions.length + 2)) :=
    hinstructions₃ ▸ hcontinues.placed hgrows₃ (by omega) (by omega) (by omega)
  have hbodyAt : final.addresses[builder.addresses.length + 2]? =
      some (some (builder.instructions.length + 3)) :=
    hinstructions₄ ▸ hcontinues.placed hgrows₄ (by omega) (by omega) (by omega)
  have hexitAt : final.addresses[builder.addresses.length + 3]? =
      some (some builder₆.instructions.length) :=
    hcontinues.placed (.refl _) (Nat.lt_succ_self _) (by omega) (by omega)
  have hfetchInit := hcontinues.fetch hfinished hinit hgrows₂.instructions
  have hfetchHead := hcontinues.fetch hfinished hhead hgrows₃.instructions
  have hfetchEnter := hcontinues.fetch hfinished henter hgrows₄.instructions
  have hfetchEnd := hfinished.fetch hend.instructions hcontinues.grows.instructions
  have hfour : (fourLabels builder₁).instructions = builder.instructions := hcounter.instructions
  simp only [hfour, resolveTargets, hcounter.base] at hfetchInit
  simp only [placeLabel_instructions, hinstructions₂, resolveTargets, resolve_address henterAt,
    resolve_address hexitAt, hcounter.base] at hfetchHead
  simp only [placeLabel_instructions, hinstructions₃, resolveTargets, resolve_address hbodyAt,
    hcounter.base] at hfetchEnter
  simp only [resolveTargets, resolve_address hheadAt, hcounter.base] at hfetchEnd
  have hlays := hbody.placed hfinished hcontinues (by omega) hsettings hgrows₅
    fun label _ _ => by omega
  have hregisters : builder₄.registers = builder.registers + 2 := by
    rw [henter.registers, placeLabel_registers, hhead.registers, placeLabel_registers,
      hinit.registers]
    exact hcounter.registers
  rw [hinstructions₄, hregisters] at hlays
  rw [placeLabel_instructions, placeLabel_registers, hend.registers]
  exact ⟨builder₅.instructions.length, hfetchInit, hfetchHead, hfetchEnter, hlays, hfetchEnd,
    hend.length⟩

end Compound

end Oseo.RegExpMatcher
