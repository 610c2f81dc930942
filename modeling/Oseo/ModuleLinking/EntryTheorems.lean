import Oseo.ModuleLinking.PassTheorems

/-!
# One export entry in a pass

Every entry keeps the invariant, and an entry that changes nothing is settled: what its
target offers has been taken over.

`import * as ns from "M"; export {ns}` offers the namespace of `M`, the cell that
`export * as ns from "M"` offers. A graph with every such export spelled as `export * as` has
the same passes, but the linker sets these exports in the first pass, not before it.
-/

namespace Oseo.ModuleLinking

open Oseo.Library

section

open Option
open List

variable {n : ℕ} {g : ModuleGraph n} {s s' : LinkState n} {m : Fin n} {name : String}
  {pending : Fin n × String → Prop}

/-! ## Star exports -/

/-- A module takes over what another one offers. -/
def ModuleGraph.Star (g : ModuleGraph n) (m target : Fin n) : Prop :=
  ∀ name, g.Joins (m, name) → name ≠ "default" →
    ∃ next, g.view (m, name) = .follow next ∧ (target, name) ∈ next

/-- What a star export has taken over from its target. -/
def LinkState.StarSettled (g : ModuleGraph n) (s : LinkState n) (m target : Fin n) : Prop :=
  ∀ name, g.Joins (m, name) → name ≠ "default" →
    (s.Marked (target, name) → s.Marked (m, name)) ∧
      ∀ cell, s.val (target, name) = some cell →
        s.val (m, name) = some cell ∨ s.Marked (m, name)

/-- The maps of the invariant are maps of any graph. -/
lemma Linking.mapped (h : Linking g pending s) : Mapped g s where
  names := fun v hval => by
    obtain ⟨cell, hcell⟩ := ne_none_iff_exists'.mp hval
    exact reaches_name (h.sound.reaches v cell hcell)
  marked := fun v hm => by
    obtain ⟨a, _, _, ha, _⟩ := h.sound.conflict v hm
    exact reaches_name ha
  disjoint := h.sound.disjoint
  explicit := fun m entry hentry name hname => by
    obtain ⟨i, hi⟩ := mem_iff_getElem?.mp hentry
    refine (h.explicit m name).mpr fun hj => ?_
    have hnone := find?_eq_none.mp hj (entry, i) (mem_zipIdx_iff_getElem?.mpr hi)
    exact hnone (decide_eq_true hname)
  unmarked := fun v hm he => h.unmarked v ((h.explicit v.1 v.2).mp he) hm

section
variable (h : Linking g pending s) {target : Fin n} (hstar : g.Star m target)
include h hstar

lemma Linking.takeAmbiguous (hconf : Conflict g.view (target, name)) :
    Linking g pending (takeAmbiguous m s name) ∧
      (g.Joins (m, name) → name ≠ "default" → (takeAmbiguous m s name).Marked (m, name)) := by
  unfold ModuleLinking.takeAmbiguous
  by_cases hcond : name ≠ "default" ∧ name ∉ s.explicitNames m
  · have hj : g.Joins (m, name) := by
      by_contra hj
      exact hcond.2 ((h.explicit m name).mpr hj)
    obtain ⟨next, hview, hmem⟩ := hstar name hj hcond.1
    have hconf' : Conflict g.view (m, name) := hconf.follow hview hmem
    rw [if_pos hcond]
    exact ⟨h.markAmbiguous hj hconf', fun _ _ => (marked_markAmbiguous s m name _).mpr (.inl rfl)⟩
  · rw [if_neg hcond]
    exact ⟨h, fun hj hd => absurd ⟨hd, fun he => (h.explicit m name).mp he hj⟩ hcond⟩

lemma Linking.takeExport
    {candidate : ExportCandidate n} (hreach : Reaches g.view (target, name) candidate.cell)
    (hsource : candidate.sourceModuleId = candidate.cell.moduleId) :
    Linking g pending (takeExport m s (name, candidate)) ∧
      Moves g s (takeExport m s (name, candidate)) ∧
      (g.Joins (m, name) → name ≠ "default" →
        (takeExport m s (name, candidate)).val (m, name) = some candidate.cell ∨
          (takeExport m s (name, candidate)).Marked (m, name)) := by
  unfold ModuleLinking.takeExport
  dsimp only
  by_cases hskip : name = "default" ∨ name ∈ s.explicitNames m ∨ name ∈ s.ambiguousNames m
  · rw [if_pos hskip]
    refine ⟨h, .refl g s, fun hj hd => ?_⟩
    rcases hskip with hskip | hskip | hskip
    · exact absurd hskip hd
    · exact absurd hj ((h.explicit m name).mp hskip)
    · exact .inr hskip
  rw [if_neg hskip]
  push Not at hskip
  obtain ⟨hdefault, hexplicit, hmark⟩ := hskip
  have hj : g.Joins (m, name) := by
    by_contra hj
    exact hexplicit ((h.explicit m name).mpr hj)
  obtain ⟨next, hview, hmem⟩ := hstar name hj hdefault
  have hreach' : Reaches g.view (m, name) candidate.cell := .follow hview hmem hreach
  have hname := reaches_name hreach
  cases hget : (s.exportsByModule m).get name with
  | none =>
    have hval : s.val (m, name) = none := (s.val_eq_none _).mpr hget
    refine ⟨h.setExport hval hmark hreach' hsource fun hj' => absurd hj hj',
      .setExport hval hmark hname, fun _ _ => .inl ?_⟩
    have hv := val_setExport s m name candidate (m, name)
    rw [if_pos rfl] at hv
    exact hv
  | some existing =>
    have hval := LinkState.val_of_get hget
    dsimp only
    by_cases hsame : sameExport existing candidate
    · rw [if_pos hsame]
      refine ⟨h, .refl g s, fun _ _ => .inl ?_⟩
      rw [hval, show existing.cell = candidate.cell from hsame]
    · rw [if_neg hsame]
      have hconf : Conflict g.view (m, name) :=
        ⟨existing.cell, candidate.cell, hsame, h.sound.reaches _ _ hval, hreach'⟩
      refine ⟨h.markAmbiguous hj hconf, .markAmbiguous hmark hname, fun _ _ => .inr ?_⟩
      exact (marked_markAmbiguous s m name _).mpr (.inl rfl)

/-- A star export, its target's marks first and then its target's values. -/
lemma Linking.takeStar :
    let s₁ := (s.ambiguousNames target).foldl (ModuleLinking.takeAmbiguous m) s
    let s₂ := (s₁.exportsByModule target).entries.foldl (ModuleLinking.takeExport m) s₁
    Linking g pending s₂ ∧ Moves g s s₂ ∧ (s₂.changed = false → s₂.StarSettled g m target) := by
  intro s₁ s₂
  have hmarks : ∀ name ∈ s.ambiguousNames target, ∀ t : LinkState n, Linking g pending t →
      Linking g pending (ModuleLinking.takeAmbiguous m t name) ∧
        Moves g t (ModuleLinking.takeAmbiguous m t name) := by
    intro name hname t ht
    exact ⟨(ht.takeAmbiguous hstar (h.sound.conflict (target, name) hname)).1,
      (ht.mapped.takeAmbiguous (h.mapped.marked (target, name) hname)).2.moves⟩
  obtain ⟨h₁, hmoves₁, heach₁⟩ := foldl_each (fun t _ => .refl g t)
    (fun _ _ _ ht ht' => .trans ht ht') hmarks h
  have hentry : ∀ exported ∈ (s₁.exportsByModule target).entries,
      Reaches g.view (target, exported.1) exported.2.cell ∧
        exported.2.sourceModuleId = exported.2.cell.moduleId := by
    intro exported hmem
    have hget := (InsertionMap.mem_entries _ exported.1 exported.2).mp hmem
    exact ⟨h₁.sound.reaches _ _ (LinkState.val_of_get hget), h₁.source _ _ _ hget⟩
  have hvalues : ∀ exported ∈ (s₁.exportsByModule target).entries, ∀ t : LinkState n,
      Linking g pending t → Linking g pending (ModuleLinking.takeExport m t exported) ∧
        Moves g t (ModuleLinking.takeExport m t exported) := by
    intro exported hmem t ht
    obtain ⟨hreach, hsource⟩ := hentry exported hmem
    exact ⟨(ht.takeExport hstar hreach hsource).1, (ht.takeExport hstar hreach hsource).2.1⟩
  obtain ⟨h₂, hmoves₂, heach₂⟩ := foldl_each (fun t _ => .refl g t)
    (fun _ _ _ ht ht' => .trans ht ht') hvalues h₁
  refine ⟨h₂, hmoves₁.trans hmoves₂, fun hquiet name hj hd => ⟨fun hmark => ?_, ?_⟩⟩
  · -- A mark that is there at the end was there at the start, and was taken over.
    have hstart : s.Marked (target, name) :=
      ((hmoves₁.trans hmoves₂).quiet hquiet).2.2 _ hmark
    obtain ⟨t, ht, -, hlast⟩ := heach₁ name hstart
    exact hmoves₂.marks _ (hlast.marks _
      ((ht.takeAmbiguous hstar (h.sound.conflict _ hstart)).2 hj hd))
  · intro cell hcell
    have hcell₁ : s₁.val (target, name) = some cell :=
      ((hmoves₂.quiet hquiet).2.1 _).symm.trans hcell
    obtain ⟨candidate, hget, rfl⟩ := map_eq_some_iff.mp hcell₁
    have hmem := (InsertionMap.mem_entries _ name candidate).mpr hget
    obtain ⟨hreach, hsource⟩ := hentry _ hmem
    obtain ⟨t, ht, -, hlast⟩ := heach₂ _ hmem
    rcases (ht.takeExport hstar hreach hsource).2.2 hj hd with hval | hmark
    · exact hlast.kept _ _ hval
    · exact .inr (hlast.marks _ hmark)

end

/-! ## Explicit exports -/

/-- The value of a name that an explicit entry exports is that of the name it follows. -/
def LinkState.CopySettled (g : ModuleGraph n) (s : LinkState n) (v : Fin n × String) : Prop :=
  ∀ next, g.view v = .follow next → ∀ w ∈ next, ∀ cell, s.val w = some cell →
    s.val v = some cell

/-- What an entry leaves when it changes nothing. -/
def LinkState.EntrySettled (g : ModuleGraph n) (s : LinkState n) (m : Fin n) :
    SyntaxExportEntry → Prop
  | .starExport _ specifier =>
    ∀ target, resolvedModuleId (g m) specifier = some target → s.StarSettled g m target
  | entry => ∀ name, entry.exportedName = some name → s.CopySettled g (m, name)

lemma mem_starTargets {target : Fin n} {byteRange : Option ByteRange}
    {specifier : SyntaxModuleSpecifier} (h : .starExport byteRange specifier ∈ (g m).exports)
    (ht : resolvedModuleId (g m) specifier = some target) :
    target ∈ (starExportEntries (g m)).filterMap id :=
  mem_filterMap.mpr ⟨some target, mem_filterMap.mpr ⟨_, h, by rw [← ht]; rfl⟩, rfl⟩

lemma star_of_mem {target : Fin n} (h : target ∈ (starExportEntries (g m)).filterMap id) :
    g.Star m target := by
  intro name hj hd
  have hview : g.view (m, name) = .follow
      (((starExportEntries (g m)).filterMap id).map fun target => (target, name)) := by
    unfold ModuleGraph.view
    rw [show g.explicitEntry m name = none from hj]
    exact if_neg hd
  exact ⟨_, hview, mem_map_of_mem h⟩

lemma mem_zipIdx_of_mem {module : ModuleGraphNode n} {entry : SyntaxExportEntry}
    (h : entry ∈ module.exports) : ∃ index, (entry, index) ∈ module.exports.zipIdx := by
  obtain ⟨i, hi⟩ := mem_iff_getElem?.mp h
  exact ⟨i, mem_zipIdx_iff_getElem?.mpr hi⟩

lemma view_of_entry (hu : g.UniqueNames) {entry : SyntaxExportEntry}
    (h : entry ∈ (g m).exports) (hname : entry.exportedName = some name) :
    ∃ index, g.explicitEntry m name = some (entry, index) ∧
      g.view (m, name) = entryView g m (entry, index) := by
  obtain ⟨index, hmem⟩ := mem_zipIdx_of_mem h
  have hentry := hu.explicitEntry hmem hname
  refine ⟨index, hentry, ?_⟩
  unfold ModuleGraph.view
  rw [hentry]

/-- Copying the value of a followed name. -/
lemma Linking.copy (h : Linking g pending s) {w : Fin n × String} {candidate : ExportCandidate n}
    (hj : ¬g.Joins (m, name)) (hview : g.view (m, name) = .follow [w])
    (hget : (s.exportsByModule w.1).get w.2 = some candidate)
    (hval : s.val (m, name) = none) :
    Linking g pending { s.setExport m name candidate with changed := true } ∧
      Moves g s { s.setExport m name candidate with changed := true } := by
  have hw : s.val w = some candidate.cell := LinkState.val_of_get hget
  have hreach : Reaches g.view (m, name) candidate.cell :=
    .follow hview (mem_singleton_self w) (h.sound.reaches w _ hw)
  have hmark := h.unmarked _ hj
  refine ⟨h.setExport hval hmark hreach (h.source _ _ _ hget) ?_,
    .setExport hval hmark (reaches_name hreach)⟩
  intro _ next hview' u hu
  rw [hview] at hview'
  cases hview'
  rw [mem_singleton.mp hu]
  exact hw

/-- An explicit name that has a value has that of the name it follows. -/
lemma Linking.copied_eq (h : Linking g pending s) {w : Fin n × String} {cell cell' : ModuleCell n}
    (hj : ¬g.Joins (m, name)) (hview : g.view (m, name) = .follow [w])
    (hw : s.val w = some cell) (hval : s.val (m, name) = some cell') : cell' = cell := by
  rcases h.copied _ hj _ hview w (mem_singleton_self w) _ hval with h' | h'
  · rw [hw, some.injEq] at h'
    exact h'.symm
  · rw [h.sound.disjoint w h'] at hw
    cases hw

lemma copySettled_of_single {v w : Fin n × String} (hview : g.view v = .follow [w])
    (h : ∀ cell, s.val w = some cell → s.val v = some cell) : s.CopySettled g v := by
  intro next hview' u hu cell hcell
  rw [hview] at hview'
  cases hview'
  rw [mem_singleton.mp hu] at hcell
  exact h cell hcell

lemma copySettled_of_terminal {v : Fin n × String} {cell : ModuleCell n}
    (hview : g.view v = .terminal cell) : s.CopySettled g v := by
  intro next hview'
  rw [hview] at hview'
  cases hview'

/-- One entry of a pass. -/
lemma Linking.relinkEntry (hc : g.Closed) (hu : g.UniqueNames) (hn : g.NoNamespaceReexport)
    (h : Linking g pending s) {entry : SyntaxExportEntry} (hentry : entry ∈ (g m).exports) :
    Linking g pending (relinkEntry g m s entry) ∧ Moves g s (relinkEntry g m s entry) ∧
      ((relinkEntry g m s entry).changed = false →
        (relinkEntry g m s entry).EntrySettled g m entry) := by
  cases entry with
  | starExport byteRange specifier =>
    obtain ⟨target, ht⟩ := ne_none_iff_exists'.mp ((hc m).2 _ hentry specifier rfl)
    have hstar := star_of_mem (mem_starTargets hentry ht)
    simp only [ModuleLinking.relinkEntry, ht]
    obtain ⟨hl, hmoves, hsettled⟩ := h.takeStar hstar
    refine ⟨hl, hmoves, fun hquiet target' ht' => ?_⟩
    rw [ht, some.injEq] at ht'
    rw [← ht']
    exact hsettled hquiet
  | defaultExport byteRange =>
    obtain ⟨index, -, hview⟩ := view_of_entry hu hentry rfl
    refine ⟨h, .refl g s, fun _ name hname => ?_⟩
    cases hname
    exact copySettled_of_terminal hview
  | namespaceExport byteRange exportedName specifier =>
    obtain ⟨target, ht⟩ := ne_none_iff_exists'.mp ((hc m).2 _ hentry specifier rfl)
    obtain ⟨index, -, hview⟩ := view_of_entry hu hentry rfl
    refine ⟨h, .refl g s, fun _ name hname => ?_⟩
    cases hname
    simp only [entryView, ht] at hview
    exact copySettled_of_terminal hview
  | indirectExport byteRange exportedName importedName specifier =>
    obtain ⟨target, ht⟩ := ne_none_iff_exists'.mp ((hc m).2 _ hentry specifier rfl)
    obtain ⟨index, hexplicit, hview⟩ := view_of_entry hu hentry rfl
    simp only [entryView, ht] at hview
    have hj : ¬g.Joins (m, exportedName) := by
      unfold ModuleGraph.Joins
      rw [hexplicit]
      simp
    simp only [ModuleLinking.relinkEntry, ht]
    cases hget : (s.exportsByModule target).get importedName with
    | none =>
      refine ⟨h, .refl g s, fun _ name hname => ?_⟩
      cases hname
      refine copySettled_of_single hview fun cell hcell => ?_
      rw [(s.val_eq_none _).mpr hget] at hcell
      cases hcell
    | some candidate =>
      have hw : s.val (target, importedName) = some candidate.cell := LinkState.val_of_get hget
      dsimp only
      split
      · next hcond =>
        obtain ⟨hl, hmoves⟩ := h.copy hj hview hget ((s.val_eq_none _).mpr hcond.1)
        exact ⟨hl, hmoves, fun hquiet => by cases hquiet⟩
      · next hcond =>
        refine ⟨h, .refl g s, fun _ name hname => ?_⟩
        cases hname
        refine copySettled_of_single hview fun cell hcell => ?_
        cases hval : s.val (m, exportedName) with
        | none => exact absurd ⟨(s.val_eq_none _).mp hval, h.unmarked _ hj⟩ hcond
        | some cell' => rw [h.copied_eq hj hview hcell hval]
  | localExport byteRange exportedName localName =>
    obtain ⟨index, hexplicit, hview⟩ := view_of_entry hu hentry rfl
    have hj : ¬g.Joins (m, exportedName) := by
      unfold ModuleGraph.Joins
      rw [hexplicit]
      simp
    simp only [ModuleLinking.relinkEntry]
    cases himp : importedBinding (g m) localName with
    | none =>
      refine ⟨h, .refl g s, fun _ name hname => ?_⟩
      cases hname
      simp only [entryView, himp] at hview
      exact copySettled_of_terminal hview
    | some imported =>
      obtain ⟨hmem, -, hsome⟩ := importedBinding_spec himp
      have hns := hn m _ _ _ hentry imported himp
      obtain ⟨target, ht⟩ := ne_none_iff_exists'.mp ((hc m).1 imported hmem)
      obtain ⟨importedName, hname⟩ := ne_none_iff_exists'.mp hsome
      simp only [entryView, himp, hns, ht, hname, Bool.false_eq_true, if_false] at hview
      have hcand : importCandidate g m s imported =
          (s.exportsByModule target).get importedName := by
        simp [importCandidate, ht, hname, hns]
      dsimp only
      rw [hcand]
      cases hget : (s.exportsByModule target).get importedName with
      | none =>
        refine ⟨h, .refl g s, fun _ name hname => ?_⟩
        cases hname
        refine copySettled_of_single hview fun cell hcell => ?_
        rw [(s.val_eq_none _).mpr hget] at hcell
        cases hcell
      | some candidate =>
        have hw : s.val (target, importedName) = some candidate.cell := LinkState.val_of_get hget
        cases hget' : (s.exportsByModule m).get exportedName with
        | none =>
          obtain ⟨hl, hmoves⟩ := h.copy hj hview hget ((s.val_eq_none _).mpr hget')
          exact ⟨hl, hmoves, fun hquiet => by cases hquiet⟩
        | some existing =>
          have hval := LinkState.val_of_get hget'
          -- The names it could have been set from have kept their cells.
          have hsame : sameExport existing candidate := h.copied_eq hj hview hw hval
          dsimp only
          rw [if_pos hsame]
          refine ⟨h, .refl g s, fun _ name hname => ?_⟩
          cases hname
          refine copySettled_of_single hview fun cell hcell => ?_
          rw [hval, h.copied_eq hj hview hcell hval]

end

/-! ## Exports of namespace imports -/

variable {n : ℕ} {g : ModuleGraph n} {s : LinkState n} {m : Fin n}

/-! ## Spelling -/

/-- An export of a namespace import, spelled as the `export * as` it stands for. -/
def spellEntry (module : ModuleGraphNode n) : SyntaxExportEntry → SyntaxExportEntry
  | .localExport byteRange exportedName localName =>
    match importedBinding module localName with
    | none => .localExport byteRange exportedName localName
    | some imported =>
      if imported.isNamespace then .namespaceExport byteRange exportedName imported.specifier
      else .localExport byteRange exportedName localName
  | entry => entry

/-- The graph with every export of a namespace import spelled out. -/
def ModuleGraph.spelled (g : ModuleGraph n) : ModuleGraph n :=
  fun m => { g m with exports := (g m).exports.map (spellEntry (g m)) }

/-- A name that a module gives to a namespace it imports. -/
def ModuleGraph.Reexports (g : ModuleGraph n) (v : Fin n × String) : Prop :=
  ∃ entry ∈ (g v.1).exports, spellEntry (g v.1) entry ≠ entry ∧ entry.exportedName = some v.2

lemma spellEntry_exportedName (module : ModuleGraphNode n) (entry : SyntaxExportEntry) :
    (spellEntry module entry).exportedName = entry.exportedName := by
  cases entry with
  | localExport byteRange exportedName localName =>
    unfold spellEntry
    dsimp only
    split
    · rfl
    · split <;> rfl
  | _ => rfl

/-- Only an export of a namespace import is spelled in another way. -/
lemma spellEntry_cases (module : ModuleGraphNode n) (entry : SyntaxExportEntry) :
    spellEntry module entry = entry ∨
      ∃ byteRange exportedName localName imported,
        entry = .localExport byteRange exportedName localName ∧
        importedBinding module localName = some imported ∧ imported.isNamespace = true ∧
        spellEntry module entry =
          .namespaceExport byteRange exportedName imported.specifier := by
  cases entry with
  | localExport byteRange exportedName localName =>
    unfold spellEntry
    dsimp only
    cases himp : importedBinding module localName with
    | none => exact .inl rfl
    | some imported =>
      by_cases hns : imported.isNamespace = true
      · simp only [hns, if_true]
        exact .inr ⟨_, _, localName, imported, rfl, himp, hns, rfl⟩
      · simp only [hns]
        exact .inl rfl
  | _ => exact .inl rfl

lemma importedBinding_spelled (g : ModuleGraph n) (m : Fin n) (localName : String) :
    importedBinding (g.spelled m) localName = importedBinding (g m) localName := rfl

lemma resolvedModuleId_spelled (g : ModuleGraph n) (m : Fin n)
    (specifier : SyntaxModuleSpecifier) :
    resolvedModuleId (g.spelled m) specifier = resolvedModuleId (g m) specifier := rfl

lemma mem_spelled {entry : SyntaxExportEntry} :
    entry ∈ (g.spelled m).exports ↔ ∃ entry' ∈ (g m).exports, spellEntry (g m) entry' = entry :=
  List.mem_map

lemma ModuleGraph.Closed.spelled (hc : g.Closed) : g.spelled.Closed := by
  refine fun m => ⟨(hc m).1, fun entry hentry specifier hspec => ?_⟩
  obtain ⟨entry', hentry', rfl⟩ := mem_spelled.mp hentry
  rw [resolvedModuleId_spelled]
  rcases spellEntry_cases (g m) entry' with hsame | ⟨_, _, _, imported, _, himp, _, hspell⟩
  · rw [hsame] at hspec
    exact (hc m).2 entry' hentry' specifier hspec
  · rw [hspell] at hspec
    cases hspec
    exact (hc m).1 imported (importedBinding_spec himp).1

lemma ModuleGraph.UniqueNames.spelled (hu : g.UniqueNames) : g.spelled.UniqueNames := by
  intro m
  show (((g m).exports.map (spellEntry (g m))).filterMap SyntaxExportEntry.exportedName).Nodup
  rw [List.filterMap_map]
  have hsame : SyntaxExportEntry.exportedName ∘ spellEntry (g m) =
      SyntaxExportEntry.exportedName := funext fun entry => spellEntry_exportedName (g m) entry
  rw [hsame]
  exact hu m

lemma noNamespaceReexport_spelled (g : ModuleGraph n) : g.spelled.NoNamespaceReexport := by
  intro m byteRange exportedName localName hentry imported himp
  obtain ⟨entry', -, hspell⟩ := mem_spelled.mp hentry
  rw [importedBinding_spelled] at himp
  rcases spellEntry_cases (g m) entry' with hsame | ⟨_, _, _, _, _, _, _, hspell'⟩
  · rw [hsame] at hspell
    rw [hspell] at hsame
    by_contra hns
    rw [Bool.not_eq_false] at hns
    simp [spellEntry, himp, hns] at hsame
  · rw [hspell'] at hspell
    cases hspell

/-- A graph without such exports is spelled out already. -/
lemma ModuleGraph.NoNamespaceReexport.spelled_eq (hn : g.NoNamespaceReexport) :
    g.spelled = g := by
  have hentries : ∀ m, ∀ entry ∈ (g m).exports, spellEntry (g m) entry = entry := by
    intro m entry hentry
    rcases spellEntry_cases (g m) entry with hsame | ⟨_, _, _, imported, rfl, himp, hns, _⟩
    · exact hsame
    · rw [hn m _ _ _ hentry imported himp] at hns
      cases hns
  funext m
  unfold ModuleGraph.spelled
  rw [List.map_congr_left (hentries m), List.map_id']

/-! ## Passes -/

/-- An export of a namespace import has been set. -/
def LinkState.ReexportSettled (g : ModuleGraph n) (s : LinkState n) (m : Fin n)
    (entry : SyntaxExportEntry) : Prop :=
  spellEntry (g m) entry ≠ entry → ∀ name, entry.exportedName = some name →
    s.val (m, name) ≠ none

lemma relinkEntry_spelled (g : ModuleGraph n) (m : Fin n) (s : LinkState n)
    (entry : SyntaxExportEntry) : relinkEntry g.spelled m s entry = relinkEntry g m s entry := by
  cases entry <;> rfl

/-- An export of a namespace import sets the cell of the namespace, and keeps it. -/
lemma Linking.relinkReexport (hc : g.Closed) (hu : g.UniqueNames)
    (h : Linking g.spelled g.Reexports s) {byteRange : Option ByteRange}
    {exportedName localName : String} {imported : SyntaxImportEntry}
    (hentry : .localExport byteRange exportedName localName ∈ (g m).exports)
    (himp : importedBinding (g m) localName = some imported)
    (hns : imported.isNamespace = true) :
    let s' := ModuleLinking.relinkEntry g m s (.localExport byteRange exportedName localName)
    Linking g.spelled g.Reexports s' ∧ Moves g.spelled s s' ∧
      (s'.changed = false → s'.val (m, exportedName) ≠ none ∧
        s'.CopySettled g.spelled (m, exportedName)) := by
  obtain ⟨hmem, -, hsome⟩ := importedBinding_spec himp
  obtain ⟨target, ht⟩ := Option.ne_none_iff_exists'.mp ((hc m).1 imported hmem)
  obtain ⟨importedName, hname⟩ := Option.ne_none_iff_exists'.mp hsome
  have hcand : importCandidate g m s imported = some (namespaceCandidate target) := by
    simp [importCandidate, ht, hname, hns]
  have hspell : spellEntry (g m) (.localExport byteRange exportedName localName) =
      .namespaceExport byteRange exportedName imported.specifier := by
    simp [spellEntry, himp, hns]
  obtain ⟨index, hexplicit, hview⟩ := view_of_entry hu.spelled
    (mem_spelled.mpr ⟨_, hentry, hspell⟩) (show _ = some exportedName from rfl)
  simp only [entryView, resolvedModuleId_spelled, ht] at hview
  have hj : ¬g.spelled.Joins (m, exportedName) := by
    unfold ModuleGraph.Joins
    rw [hexplicit]
    simp
  have hmark := h.unmarked _ hj
  intro s'
  have hs' : s' = ModuleLinking.relinkEntry g m s
      (.localExport byteRange exportedName localName) := rfl
  simp only [ModuleLinking.relinkEntry, himp, hcand] at hs'
  cases hget : (s.exportsByModule m).get exportedName with
  | none =>
    have hval : s.val (m, exportedName) = none := (s.val_eq_none _).mpr hget
    have hreach : Reaches g.spelled.view (m, exportedName) (namespaceCandidate target).cell :=
      .terminal hview
    rw [hget] at hs'
    rw [hs']
    refine ⟨h.setExport hval hmark hreach rfl fun _ next hview' => ?_,
      Moves.setExport hval hmark (reaches_name hreach), fun hquiet => by cases hquiet⟩
    rw [hview] at hview'
    cases hview'
  | some existing =>
    have hval := LinkState.val_of_get hget
    have hsame : sameExport existing (namespaceCandidate target) :=
      (uniquely_of_terminal hview).2 _ (h.sound.reaches _ _ hval)
    simp only [hget, if_pos hsame] at hs'
    rw [hs']
    refine ⟨h, Moves.refl _ s, fun _ => ⟨?_, copySettled_of_terminal hview⟩⟩
    rw [hval]
    simp

/-- One entry of a pass, over the spelled graph. -/
lemma Linking.relinkSpelled (hc : g.Closed) (hu : g.UniqueNames)
    (h : Linking g.spelled g.Reexports s) {entry : SyntaxExportEntry}
    (hentry : entry ∈ (g m).exports) :
    Linking g.spelled g.Reexports (ModuleLinking.relinkEntry g m s entry) ∧
      Moves g.spelled s (ModuleLinking.relinkEntry g m s entry) ∧
      ((ModuleLinking.relinkEntry g m s entry).changed = false →
        (ModuleLinking.relinkEntry g m s entry).EntrySettled g.spelled m
            (spellEntry (g m) entry) ∧
          (ModuleLinking.relinkEntry g m s entry).ReexportSettled g m entry) := by
  rcases spellEntry_cases (g m) entry with
    hsame | ⟨byteRange, exportedName, localName, imported, rfl, himp, hns, hspell⟩
  · obtain ⟨hl, hmoves, hsettled⟩ := h.relinkEntry hc.spelled hu.spelled
      (noNamespaceReexport_spelled g) (mem_spelled.mpr ⟨entry, hentry, hsame⟩)
    rw [relinkEntry_spelled] at hl hmoves hsettled
    refine ⟨hl, hmoves, fun hquiet => ⟨?_, fun hne => absurd hsame hne⟩⟩
    rw [hsame]
    exact hsettled hquiet
  · obtain ⟨hl, hmoves, hsettled⟩ := h.relinkReexport hc hu hentry himp hns
    refine ⟨hl, hmoves, fun hquiet => ⟨?_, fun _ name hname => ?_⟩⟩
    · rw [hspell]
      intro name hname
      cases hname
      exact (hsettled hquiet).2
    · cases hname
      exact (hsettled hquiet).1

end Oseo.ModuleLinking
