import Oseo.ModuleLinking.Link
import Mathlib.Algebra.Order.BigOperators.Group.Finset
import Mathlib.Data.Fin.VecNotation

/-!
# The passes over the export entries

What a pass does to the export maps: it sets names that have no value yet and marks names
that lead to two cells, so the maps stay sound and the passes come to an end. A pass that
changes nothing leaves a stable assignment.
-/

namespace Oseo.ModuleLinking

open Oseo.Library
open Function

variable {n : ℕ} {g : ModuleGraph n} {s s' : LinkState n} {m : Fin n} {name : String}
  {pending : Fin n × String → Prop}

/-! ## The maps as an assignment -/

/-- The cell a name is mapped to. -/
def LinkState.val (s : LinkState n) (v : Fin n × String) : Option (ModuleCell n) :=
  ((s.exportsByModule v.1).get v.2).map (·.cell)

/-- A name is ambiguous. -/
def LinkState.Marked (s : LinkState n) (v : Fin n × String) : Prop :=
  v.2 ∈ s.ambiguousNames v.1

instance (s : LinkState n) (v : Fin n × String) : Decidable (s.Marked v) :=
  inferInstanceAs (Decidable (_ ∈ _))

/-- A name that no explicit entry exports: it joins what the star exports offer. -/
def ModuleGraph.Joins (g : ModuleGraph n) (v : Fin n × String) : Prop :=
  g.explicitEntry v.1 v.2 = none

lemma LinkState.val_eq_none (s : LinkState n) (v : Fin n × String) :
    s.val v = none ↔ (s.exportsByModule v.1).get v.2 = none := by
  rw [LinkState.val, Option.map_eq_none_iff]

lemma LinkState.val_of_get {candidate : ExportCandidate n}
    (h : (s.exportsByModule m).get name = some candidate) :
    s.val (m, name) = some candidate.cell := by
  rw [LinkState.val, h]
  rfl

lemma val_setExport (s : LinkState n) (m : Fin n) (name : String) (candidate : ExportCandidate n)
    (v : Fin n × String) :
    (s.setExport m name candidate).val v =
      if v = (m, name) then some candidate.cell else s.val v := by
  obtain ⟨m', name'⟩ := v
  unfold LinkState.val LinkState.setExport
  dsimp only
  by_cases hm : m' = m
  · subst hm
    rw [update_self, InsertionMap.get_set]
    by_cases hn : name' = name
    · simp [hn]
    · simp [hn]
  · simp [hm]

lemma val_markAmbiguous (s : LinkState n) (m : Fin n) (name : String) (v : Fin n × String) :
    (s.markAmbiguous m name).val v = if v = (m, name) then none else s.val v := by
  obtain ⟨m', name'⟩ := v
  unfold LinkState.val LinkState.markAmbiguous
  dsimp only
  by_cases hm : m' = m
  · subst hm
    rw [update_self, InsertionMap.get_delete]
    by_cases hn : name' = name
    · simp [hn]
    · simp [hn]
  · simp [hm]

lemma marked_markAmbiguous (s : LinkState n) (m : Fin n) (name : String) (v : Fin n × String) :
    (s.markAmbiguous m name).Marked v ↔ v = (m, name) ∨ s.Marked v := by
  obtain ⟨m', name'⟩ := v
  unfold LinkState.Marked LinkState.markAmbiguous
  dsimp only
  by_cases hm : m' = m
  · subst hm
    rw [update_self]
    split
    · next h =>
      by_cases hn : name' = name
      · simp [hn, h]
      · simp [hn]
    · simp [or_comm]
  · simp [hm]

/-! ## The invariant of the passes -/

/-- The maps during the passes. Explicit names are never marked, and keep the cell of the
name they follow. A terminal in `pending` may have no value yet. -/
structure Linking (g : ModuleGraph n) (pending : Fin n × String → Prop) (s : LinkState n) :
    Prop where
  sound : Sound g.view s.val s.Marked
  source : ∀ m name candidate, (s.exportsByModule m).get name = some candidate →
    candidate.sourceModuleId = candidate.cell.moduleId
  explicit : ∀ m name, name ∈ s.explicitNames m ↔ ¬g.Joins (m, name)
  unmarked : ∀ v, ¬g.Joins v → ¬s.Marked v
  terminal : ∀ v cell, g.view v = .terminal cell → s.val v = none → pending v
  copied : ∀ v, ¬g.Joins v → ∀ next, g.view v = .follow next → ∀ w ∈ next, ∀ cell,
    s.val v = some cell → s.val w = some cell ∨ s.Marked w
  accepted : s.diagnostics = []

/-- A name with no value is set to a cell it leads to. -/
lemma Linking.setExport (h : Linking g pending s) {candidate : ExportCandidate n} {changed : Bool}
    (hval : s.val (m, name) = none) (hmark : ¬s.Marked (m, name))
    (hreach : Reaches g.view (m, name) candidate.cell)
    (hsource : candidate.sourceModuleId = candidate.cell.moduleId)
    (hcopy : ¬g.Joins (m, name) → ∀ next, g.view (m, name) = .follow next → ∀ w ∈ next,
      s.val w = some candidate.cell) :
    Linking g pending { s.setExport m name candidate with changed := changed } := by
  have hv : ∀ v, ({ s.setExport m name candidate with changed := changed } : LinkState n).val v =
      if v = (m, name) then some candidate.cell else s.val v := val_setExport s m name candidate
  constructor
  case sound =>
    constructor
    · intro v c hc
      rw [hv] at hc
      split at hc
      · next hvm =>
        cases hc
        rw [hvm]
        exact hreach
      · exact h.sound.reaches v c hc
    · exact h.sound.conflict
    · intro v hvm
      have hne : v ≠ (m, name) := fun hvm' => hmark (hvm' ▸ hvm)
      rw [hv, if_neg hne]
      exact h.sound.disjoint v hvm
  case source =>
    intro m' name' candidate' hget
    simp only [LinkState.setExport] at hget
    by_cases hm : m' = m
    · subst hm
      rw [update_self, InsertionMap.get_set] at hget
      split at hget
      · cases hget
        exact hsource
      · exact h.source m' name' candidate' hget
    · rw [update_of_ne hm] at hget
      exact h.source m' name' candidate' hget
  case explicit => exact h.explicit
  case unmarked => exact h.unmarked
  case terminal =>
    intro v cell hview hnone
    rw [hv] at hnone
    split at hnone
    · cases hnone
    · exact h.terminal v cell hview hnone
  case copied =>
    intro v hj next hview w hw cell hcell
    rw [hv] at hcell
    split at hcell
    · next hvm =>
      cases hcell
      subst hvm
      have hw' := hcopy hj next hview w hw
      left
      rw [hv]
      split
      · rfl
      · exact hw'
    · rcases h.copied v hj next hview w hw cell hcell with hw' | hw'
      · left
        rw [hv, if_neg]
        · exact hw'
        · intro hwm
          rw [hwm, hval] at hw'
          cases hw'
      · exact .inr hw'
  case accepted => exact h.accepted

/-- A name that leads to two cells is marked. -/
lemma Linking.markAmbiguous (h : Linking g pending s) {changed : Bool} (hj : g.Joins (m, name))
    (hconf : Conflict g.view (m, name)) :
    Linking g pending { s.markAmbiguous m name with changed := changed } := by
  have hv : ∀ v, ({ s.markAmbiguous m name with changed := changed } : LinkState n).val v =
      if v = (m, name) then none else s.val v := val_markAmbiguous s m name
  have hm : ∀ v, ({ s.markAmbiguous m name with changed := changed } : LinkState n).Marked v ↔
      v = (m, name) ∨ s.Marked v := marked_markAmbiguous s m name
  constructor
  case sound =>
    constructor
    · intro v c hc
      rw [hv] at hc
      split at hc
      · cases hc
      · exact h.sound.reaches v c hc
    · intro v hvm
      rcases (hm v).mp hvm with rfl | hvm
      · exact hconf
      · exact h.sound.conflict v hvm
    · intro v hvm
      rw [hv]
      split
      · rfl
      · next hne => exact h.sound.disjoint v (((hm v).mp hvm).resolve_left hne)
  case source =>
    intro m' name' candidate' hget
    simp only [LinkState.markAmbiguous] at hget
    by_cases hm' : m' = m
    · subst hm'
      rw [update_self, InsertionMap.get_delete] at hget
      split at hget
      · cases hget
      · exact h.source m' name' candidate' hget
    · rw [update_of_ne hm'] at hget
      exact h.source m' name' candidate' hget
  case explicit => exact h.explicit
  case unmarked =>
    intro v hj' hvm
    rcases (hm v).mp hvm with rfl | hvm
    · exact hj' hj
    · exact h.unmarked v hj' hvm
  case terminal =>
    intro v cell hview hnone
    rw [hv, if_neg] at hnone
    · exact h.terminal v cell hview hnone
    · rintro rfl
      exact (uniquely_of_terminal hview).not_conflict hconf
  case copied =>
    intro v hj' next hview w hw cell hcell
    rw [hv] at hcell
    split at hcell
    · cases hcell
    · rcases h.copied v hj' next hview w hw cell hcell with hw' | hw'
      · by_cases hwm : w = (m, name)
        · exact .inr ((hm w).mpr (.inl hwm))
        · left
          rw [hv, if_neg hwm]
          exact hw'
      · exact .inr ((hm w).mpr (.inr hw'))
  case accepted => exact h.accepted

/-! ## What a pass moves -/

/-- The names that the modules of a graph export explicitly. -/
def ModuleGraph.exportNames (g : ModuleGraph n) : List String :=
  (List.finRange n).flatMap fun m => (g m).exports.filterMap SyntaxExportEntry.exportedName

lemma reaches_name {v : Fin n × String} {cell : ModuleCell n} (h : Reaches g.view v cell) :
    v.2 ∈ g.exportNames := by
  have hexplicit : ∀ v : Fin n × String, ¬g.Joins v → v.2 ∈ g.exportNames := by
    intro v hj
    obtain ⟨e, he⟩ := Option.ne_none_iff_exists'.mp hj
    obtain ⟨hmem, hname⟩ := explicitEntry_mem he
    rw [ModuleGraph.exportNames, List.mem_flatMap]
    exact ⟨v.1, List.mem_finRange _,
      List.mem_filterMap.mpr ⟨e.1, mem_exports_of_mem_zipIdx hmem, hname⟩⟩
  induction h with
  | @terminal v c hview =>
    refine hexplicit v fun hj => ?_
    rw [ModuleGraph.view, hj] at hview
    dsimp only at hview
    split at hview <;> cases hview
  | @follow v w c next hview hw _ ih =>
    by_cases hj : g.Joins v
    · rw [ModuleGraph.view, hj] at hview
      dsimp only at hview
      split at hview <;> cases hview
      · exact absurd hw List.not_mem_nil
      · obtain ⟨target, -, rfl⟩ := List.mem_map.mp hw
        exact ih
    · exact hexplicit v hj

/-- What is left to do for a name: nothing once it is marked. -/
def LinkState.weight (s : LinkState n) (v : Fin n × String) : ℕ :=
  if s.Marked v then 0 else if s.val v = none then 2 else 1

/-- What is left to do for all names. -/
def LinkState.left (g : ModuleGraph n) (s : LinkState n) : ℕ :=
  ∑ v ∈ Finset.univ ×ˢ g.exportNames.toFinset, s.weight v

/-- What one step of a pass may do to the maps. -/
structure Moves (g : ModuleGraph n) (s s' : LinkState n) : Prop where
  kept : ∀ v cell, s.val v = some cell → s'.val v = some cell ∨ s'.Marked v
  marks : ∀ v, s.Marked v → s'.Marked v
  quiet : s'.changed = false →
    s.changed = false ∧ (∀ v, s'.val v = s.val v) ∧ ∀ v, s'.Marked v → s.Marked v
  less : s.changed = false → s'.changed = true → s'.left g < s.left g

lemma Moves.weight_le (h : Moves g s s') (v : Fin n × String) : s'.weight v ≤ s.weight v := by
  unfold LinkState.weight
  by_cases hm' : s'.Marked v
  · rw [if_pos hm']
    omega
  have hm : ¬s.Marked v := fun hm => hm' (h.marks v hm)
  rw [if_neg hm', if_neg hm]
  cases hval : s.val v with
  | none =>
    rw [if_pos rfl]
    split <;> omega
  | some cell =>
    rw [(h.kept v cell hval).resolve_right hm']

lemma Moves.left_le (h : Moves g s s') : s'.left g ≤ s.left g :=
  Finset.sum_le_sum fun v _ => h.weight_le v

lemma Moves.refl (g : ModuleGraph n) (s : LinkState n) : Moves g s s where
  kept := fun _ _ h => .inl h
  marks := fun _ h => h
  quiet := fun h => ⟨h, fun _ => rfl, fun _ h => h⟩
  less := fun h h' => by simp [h] at h'

lemma Moves.trans {s'' : LinkState n} (h : Moves g s s') (h' : Moves g s' s'') :
    Moves g s s'' where
  kept := fun v cell hv => by
    rcases h.kept v cell hv with hv | hv
    · exact h'.kept v cell hv
    · exact .inr (h'.marks v hv)
  marks := fun v hv => h'.marks v (h.marks v hv)
  quiet := fun hc => by
    obtain ⟨hc₁, hval₁, hmark₁⟩ := h'.quiet hc
    obtain ⟨hc₂, hval₂, hmark₂⟩ := h.quiet hc₁
    exact ⟨hc₂, fun v => (hval₁ v).trans (hval₂ v), fun v hv => hmark₂ v (hmark₁ v hv)⟩
  less := fun hc hc'' => by
    have hle := h.left_le
    have hle' := h'.left_le
    cases hc' : s'.changed with
    | true =>
      have := h.less hc hc'
      omega
    | false =>
      have := h'.less hc' hc''
      omega

/-- A step that changes one name, and reports it. -/
lemma Moves.single {v : Fin n × String} (hother : ∀ w, w ≠ v → s'.val w = s.val w)
    (hmarks : ∀ w, s.Marked w → s'.Marked w) (hchanged : s'.changed = true)
    (hkept : ∀ cell, s.val v = some cell → s'.val v = some cell ∨ s'.Marked v)
    (hname : v.2 ∈ g.exportNames) (hless : s'.weight v < s.weight v) : Moves g s s' := by
  have hkept' : ∀ w cell, s.val w = some cell → s'.val w = some cell ∨ s'.Marked w := by
    intro w cell hw
    by_cases hwv : w = v
    · rw [hwv] at hw ⊢
      exact hkept cell hw
    · exact .inl ((hother w hwv).trans hw)
  have hquiet : s'.changed = false →
      s.changed = false ∧ (∀ v, s'.val v = s.val v) ∧ ∀ v, s'.Marked v → s.Marked v := by
    intro h
    rw [hchanged] at h
    cases h
  refine ⟨hkept', hmarks, hquiet, fun _ _ => ?_⟩
  have hle : ∀ w, s'.weight w ≤ s.weight w := by
    intro w
    by_cases hwv : w = v
    · rw [hwv]
      omega
    · unfold LinkState.weight
      rw [hother w hwv]
      by_cases hm : s.Marked w
      · rw [if_pos hm, if_pos (hmarks w hm)]
      · rw [if_neg hm]
        split
        · omega
        · exact le_refl _
  exact Finset.sum_lt_sum (fun w _ => hle w)
    ⟨v, Finset.mem_product.mpr ⟨Finset.mem_univ _, List.mem_toFinset.mpr hname⟩, hless⟩

lemma Moves.setExport {candidate : ExportCandidate n} (hval : s.val (m, name) = none)
    (hmark : ¬s.Marked (m, name)) (hname : name ∈ g.exportNames) :
    Moves g s { s.setExport m name candidate with changed := true } := by
  have hv : ∀ v, ({ s.setExport m name candidate with changed := true } : LinkState n).val v =
      if v = (m, name) then some candidate.cell else s.val v := val_setExport s m name candidate
  refine @Moves.single n g s _ (m, name) (fun w hw => ?_) (fun _ hw => hw) rfl (fun cell h => ?_)
    hname ?_
  · rw [hv, if_neg hw]
  · rw [hval] at h
    cases h
  · have hmark' : ¬({ s.setExport m name candidate with changed := true } : LinkState n).Marked
        (m, name) := hmark
    unfold LinkState.weight
    rw [if_neg hmark', if_neg hmark, if_pos hval, hv, if_pos rfl]
    simp

lemma Moves.markAmbiguous (hmark : ¬s.Marked (m, name)) (hname : name ∈ g.exportNames) :
    Moves g s { s.markAmbiguous m name with changed := true } := by
  have hv : ∀ v, ({ s.markAmbiguous m name with changed := true } : LinkState n).val v =
      if v = (m, name) then none else s.val v := val_markAmbiguous s m name
  have hm : ∀ v, ({ s.markAmbiguous m name with changed := true } : LinkState n).Marked v ↔
      v = (m, name) ∨ s.Marked v := marked_markAmbiguous s m name
  refine @Moves.single n g s _ (m, name) (fun w hw => ?_) (fun w hw => ?_) rfl (fun cell h => ?_)
    hname ?_
  · rw [hv, if_neg hw]
  · exact (hm w).mpr (.inr hw)
  · exact .inr ((hm _).mpr (.inl rfl))
  · unfold LinkState.weight
    rw [if_pos ((hm _).mpr (Or.inl rfl)), if_neg hmark]
    split <;> omega

/-! ## When the passes come to an end

For any graph, with export names that may stand twice in a module. A name is set once and
marked once; only a local export of an imported binding replaces the cell a name has. So the
loop of `linkModuleGraph` ends exactly when the passes stop replacing cells.
-/

open List

/-! ## Replaced cells -/

/-- The import that an entry re-exports. -/
def reexported (module : ModuleGraphNode n) : SyntaxExportEntry → Option SyntaxImportEntry
  | .localExport _ _ localName => importedBinding module localName
  | _ => none

/-- A local export of an imported binding meets an export of its name with another cell. -/
def overwrites (g : ModuleGraph n) (m : Fin n) (s : LinkState n) : SyntaxExportEntry → Bool
  | .localExport _ exportedName localName =>
    match importedBinding (g m) localName with
    | none => false
    | some imported =>
      match importCandidate g m s imported, (s.exportsByModule m).get exportedName with
      | some candidate, some existing => !decide (sameExport existing candidate)
      | _, _ => false
  | _ => false

/-- Some entry of a module replaces a cell when its turn comes. -/
def moduleOverwrites (g : ModuleGraph n) (s : LinkState n) (m : Fin n) : Bool :=
  foldFaults (relinkEntry g m) (overwrites g m) (g m).exports s

/-- A pass replaces a cell. -/
def passOverwrites (g : ModuleGraph n) (s : LinkState n) : Bool :=
  foldFaults (fun s m => (g m).exports.foldl (relinkEntry g m) s) (moduleOverwrites g)
    (List.finRange n) { s with changed := false }

/-- An entry that is no star export leaves the maps, or sets the export of its name: to the
binding it re-exports, and in the place of another cell only if it overwrites that. -/
lemma relinkEntry_cases (g : ModuleGraph n) (m : Fin n) (s : LinkState n) {entry : SyntaxExportEntry}
    (hstar : ∀ byteRange specifier, entry ≠ .starExport byteRange specifier) :
    (relinkEntry g m s entry = s ∧ overwrites g m s entry = false) ∨
      ∃ name candidate, entry.exportedName = some name ∧
        relinkEntry g m s entry = { s.setExport m name candidate with changed := true } ∧
        (overwrites g m s entry = false → s.val (m, name) = none) ∧
        ∀ imported, reexported (g m) entry = some imported →
          importCandidate g m s imported = some candidate := by
  cases entry with
  | localExport byteRange exportedName localName =>
    simp only [relinkEntry, overwrites, reexported]
    cases importedBinding (g m) localName with
    | none => exact .inl ⟨rfl, rfl⟩
    | some imported =>
      dsimp only
      cases hcand : importCandidate g m s imported with
      | none => exact .inl ⟨rfl, rfl⟩
      | some candidate =>
        have hown : ∀ imported', some imported = some imported' →
            importCandidate g m s imported' = some candidate := by
          rintro _ ⟨⟩
          exact hcand
        cases hget : (s.exportsByModule m).get exportedName with
        | none =>
          exact .inr ⟨exportedName, candidate, rfl, rfl, fun _ => (s.val_eq_none _).mpr hget, hown⟩
        | some existing =>
          by_cases hsame : sameExport existing candidate
          · exact .inl ⟨if_pos hsame, by simp [hsame]⟩
          · exact .inr ⟨exportedName, candidate, rfl, if_neg hsame, by simp [hsame], hown⟩
  | indirectExport byteRange exportedName importedName specifier =>
    simp only [relinkEntry, overwrites, reexported]
    split
    · exact .inl ⟨rfl, trivial⟩
    split
    · exact .inl ⟨rfl, trivial⟩
    split
    · next candidate _ hcond =>
      exact .inr ⟨exportedName, candidate, rfl, rfl, fun _ => (s.val_eq_none _).mpr hcond.1,
        fun _ himp => by cases himp⟩
    · exact .inl ⟨rfl, trivial⟩
  | starExport byteRange specifier => exact absurd rfl (hstar byteRange specifier)
  | namespaceExport byteRange exportedName specifier => exact .inl ⟨rfl, rfl⟩
  | defaultExport byteRange => exact .inl ⟨rfl, rfl⟩

/-! ## The maps of any graph -/

/-- The maps during the passes: only exported names are in them, and explicit names are never
marked. -/
structure Mapped (g : ModuleGraph n) (s : LinkState n) : Prop where
  names : ∀ v, s.val v ≠ none → v.2 ∈ g.exportNames
  marked : ∀ v, s.Marked v → v.2 ∈ g.exportNames
  disjoint : ∀ v, s.Marked v → s.val v = none
  explicit : ∀ m, ∀ entry ∈ (g m).exports, ∀ name, entry.exportedName = some name →
    name ∈ s.explicitNames m
  unmarked : ∀ v, s.Marked v → v.2 ∉ s.explicitNames v.1

lemma mem_exportNames {entry : SyntaxExportEntry} (h : entry ∈ (g m).exports)
    (hname : entry.exportedName = some name) : name ∈ g.exportNames := by
  rw [ModuleGraph.exportNames, mem_flatMap]
  exact ⟨m, mem_finRange m, mem_filterMap.mpr ⟨entry, h, hname⟩⟩

lemma Mapped.changed (h : Mapped g s) (changed : Bool) : Mapped g { s with changed := changed } :=
  { h with }

lemma Mapped.setExport (h : Mapped g s) {candidate : ExportCandidate n} {changed : Bool}
    (hname : name ∈ g.exportNames) (hmark : ¬s.Marked (m, name)) :
    Mapped g { s.setExport m name candidate with changed := changed } := by
  have hv : ∀ v, ({ s.setExport m name candidate with changed := changed } : LinkState n).val v =
      if v = (m, name) then some candidate.cell else s.val v := val_setExport s m name candidate
  refine ⟨fun v hval => ?_, h.marked, fun v hvm => ?_, h.explicit, h.unmarked⟩
  · by_cases heq : v = (m, name)
    · rw [heq]
      exact hname
    · rw [hv, if_neg heq] at hval
      exact h.names v hval
  · rw [hv, if_neg]
    · exact h.disjoint v hvm
    · rintro rfl
      exact hmark hvm

lemma Mapped.markAmbiguous (h : Mapped g s) {changed : Bool} (hname : name ∈ g.exportNames)
    (hexplicit : name ∉ s.explicitNames m) :
    Mapped g { s.markAmbiguous m name with changed := changed } := by
  have hv : ∀ v, ({ s.markAmbiguous m name with changed := changed } : LinkState n).val v =
      if v = (m, name) then none else s.val v := val_markAmbiguous s m name
  have hm : ∀ v, ({ s.markAmbiguous m name with changed := changed } : LinkState n).Marked v ↔
      v = (m, name) ∨ s.Marked v := marked_markAmbiguous s m name
  refine ⟨fun v hval => ?_, fun v hvm => ?_, fun v hvm => ?_, h.explicit, fun v hvm => ?_⟩
  · rw [hv] at hval
    split at hval
    · exact absurd rfl hval
    · exact h.names v hval
  · rcases (hm v).mp hvm with rfl | hvm
    · exact hname
    · exact h.marked v hvm
  · rw [hv]
    split
    · rfl
    · next hne => exact h.disjoint v (((hm v).mp hvm).resolve_left hne)
  · rcases (hm v).mp hvm with rfl | hvm
    · exact hexplicit
    · exact h.unmarked v hvm

/-- What a step that replaces no cell does: it moves the maps forward, or leaves them. -/
structure Forward (g : ModuleGraph n) (s s' : LinkState n) : Prop where
  moves : Moves g s s'
  still : s'.changed = false → s' = s

lemma Forward.refl (g : ModuleGraph n) (s : LinkState n) : Forward g s s :=
  ⟨.refl g s, fun _ => rfl⟩

lemma Forward.trans {s'' : LinkState n} (h : Forward g s s') (h' : Forward g s' s'') :
    Forward g s s'' := by
  refine ⟨h.moves.trans h'.moves, fun hquiet => ?_⟩
  have hsame := h'.still hquiet
  rw [hsame] at hquiet ⊢
  exact h.still hquiet

/-- What a star export does: it moves the maps forward, and explicit names keep their cells. -/
structure Joined (g : ModuleGraph n) (s s' : LinkState n) : Prop extends Forward g s s' where
  explicitNames : s'.explicitNames = s.explicitNames
  values : ∀ v, v.2 ∈ s.explicitNames v.1 → s'.val v = s.val v

lemma Joined.refl (g : ModuleGraph n) (s : LinkState n) : Joined g s s :=
  ⟨.refl g s, rfl, fun _ _ => rfl⟩

lemma Joined.trans {s'' : LinkState n} (h : Joined g s s') (h' : Joined g s' s'') :
    Joined g s s'' := by
  refine ⟨h.toForward.trans h'.toForward, h'.explicitNames.trans h.explicitNames, fun v hv => ?_⟩
  rw [h'.values v (by rw [h.explicitNames]; exact hv), h.values v hv]

/-! ## The steps of a pass -/

lemma Mapped.takeAmbiguous (h : Mapped g s) (hname : name ∈ g.exportNames) :
    Mapped g (takeAmbiguous m s name) ∧ Joined g s (takeAmbiguous m s name) := by
  unfold ModuleLinking.takeAmbiguous
  by_cases hcond : name ≠ "default" ∧ name ∉ s.explicitNames m
  · rw [if_pos hcond]
    refine ⟨h.markAmbiguous hname hcond.2, ?_, rfl, fun v hv => ?_⟩
    rotate_left
    · have hval := val_markAmbiguous s m name v
      rw [if_neg] at hval
      · exact hval
      · rintro rfl
        exact hcond.2 hv
    by_cases hmark : name ∈ s.ambiguousNames m
    · -- The name is marked already: nothing is deleted and nothing added.
      have hnone : (s.exportsByModule m).get name = none :=
        (s.val_eq_none (m, name)).mp (h.disjoint (m, name) hmark)
      have hsame : s.markAmbiguous m name = s := by
        unfold LinkState.markAmbiguous
        rw [if_pos hmark, InsertionMap.delete_of_get_none hnone, Function.update_eq_self,
          Function.update_eq_self]
      simpa [hsame, hmark] using Forward.refl g s
    · have hmoves := Moves.markAmbiguous (g := g) (s := s) (m := m) hmark hname
      refine ⟨by simpa [hmark] using hmoves, fun hquiet => ?_⟩
      simp [hmark] at hquiet
  · rw [if_neg hcond]
    exact ⟨h, .refl g s⟩

lemma Mapped.takeExport (h : Mapped g s) {candidate : ExportCandidate n}
    (hname : name ∈ g.exportNames) :
    Mapped g (takeExport m s (name, candidate)) ∧
      Joined g s (takeExport m s (name, candidate)) := by
  unfold ModuleLinking.takeExport
  dsimp only
  by_cases hskip : name = "default" ∨ name ∈ s.explicitNames m ∨ name ∈ s.ambiguousNames m
  · rw [if_pos hskip]
    exact ⟨h, .refl g s⟩
  rw [if_neg hskip]
  push Not at hskip
  obtain ⟨-, hexplicit, hmark⟩ := hskip
  have hother : ∀ v : Fin n × String, v.2 ∈ s.explicitNames v.1 → v ≠ (m, name) := by
    rintro v hv rfl
    exact hexplicit hv
  cases hget : (s.exportsByModule m).get name with
  | none =>
    have hval : s.val (m, name) = none := (s.val_eq_none _).mpr hget
    refine ⟨h.setExport hname hmark, ⟨.setExport hval hmark hname,
      fun hquiet => by cases hquiet⟩, rfl, fun v hv => ?_⟩
    have hset := val_setExport s m name candidate v
    rw [if_neg (hother v hv)] at hset
    exact hset
  | some existing =>
    dsimp only
    by_cases hsame : sameExport existing candidate
    · rw [if_pos hsame]
      exact ⟨h, .refl g s⟩
    · rw [if_neg hsame]
      refine ⟨h.markAmbiguous hname hexplicit, ⟨.markAmbiguous hmark hname,
        fun hquiet => by cases hquiet⟩, rfl, fun v hv => ?_⟩
      have hmarked := val_markAmbiguous s m name v
      rw [if_neg (hother v hv)] at hmarked
      exact hmarked

lemma Mapped.takeStar (h : Mapped g s) (target : Fin n) :
    let s₁ := (s.ambiguousNames target).foldl (ModuleLinking.takeAmbiguous m) s
    let s₂ := (s₁.exportsByModule target).entries.foldl (ModuleLinking.takeExport m) s₁
    Mapped g s₂ ∧ Joined g s s₂ := by
  intro s₁ s₂
  obtain ⟨h₁, hjoined₁, -⟩ := foldl_each (I := Mapped g) (R := Joined g)
    (f := ModuleLinking.takeAmbiguous m) (fun t _ => .refl g t)
    (fun _ _ _ => .trans) (l := s.ambiguousNames target)
    (fun name hname _ ht => ht.takeAmbiguous (h.marked (target, name) hname)) h
  have hentry : ∀ exported ∈ (s₁.exportsByModule target).entries, exported.1 ∈ g.exportNames := by
    intro exported hmem
    have hget := (InsertionMap.mem_entries _ exported.1 exported.2).mp hmem
    refine h₁.names (target, exported.1) ?_
    rw [LinkState.val_of_get hget]
    simp
  obtain ⟨h₂, hjoined₂, -⟩ := foldl_each (I := Mapped g) (R := Joined g)
    (f := ModuleLinking.takeExport m) (fun t _ => .refl g t)
    (fun _ _ _ => .trans) (l := (s₁.exportsByModule target).entries)
    (fun exported hmem _ ht => ht.takeExport (hentry exported hmem)) h₁
  exact ⟨h₂, hjoined₁.trans hjoined₂⟩

/-- One entry of a pass keeps the maps. It moves them forward unless it replaces a cell, and
then it reports a change. -/
lemma Mapped.relinkEntry (h : Mapped g s) {entry : SyntaxExportEntry}
    (hentry : entry ∈ (g m).exports) :
    Mapped g (relinkEntry g m s entry) ∧
      (overwrites g m s entry = false → Forward g s (relinkEntry g m s entry)) ∧
      (overwrites g m s entry = true → (relinkEntry g m s entry).changed = true) := by
  by_cases hstar : ∃ byteRange specifier, entry = .starExport byteRange specifier
  · obtain ⟨byteRange, specifier, rfl⟩ := hstar
    simp only [ModuleLinking.relinkEntry]
    cases resolvedModuleId (g m) specifier with
    | none => exact ⟨h, fun _ => Forward.refl g s, fun hover => by cases hover⟩
    | some target =>
      obtain ⟨hmapped, hjoined⟩ := h.takeStar (m := m) target
      exact ⟨hmapped, fun _ => hjoined.toForward, fun hover => by cases hover⟩
  push Not at hstar
  rcases relinkEntry_cases g m s hstar with ⟨hsame, hover⟩ | ⟨name, candidate, hname, hset, hval, -⟩
  · rw [hsame, hover]
    exact ⟨h, fun _ => .refl g s, fun hover => by cases hover⟩
  · have hexport := mem_exportNames hentry hname
    have hmark : ¬s.Marked (m, name) := fun hm =>
      h.unmarked _ hm (h.explicit m entry hentry name hname)
    rw [hset]
    exact ⟨h.setExport hexport hmark, fun hover => ⟨.setExport (hval hover) hmark hexport,
      fun hquiet => by cases hquiet⟩, fun _ => rfl⟩

/-- One pass keeps the maps. It moves them forward unless it replaces a cell, and then it
reports a change. -/
lemma Mapped.linkPass (h : Mapped g s) :
    Mapped g (linkPass g s) ∧
      (passOverwrites g s = false → Forward g { s with changed := false } (linkPass g s)) ∧
      ((linkPass g s).changed = false → passOverwrites g s = false) := by
  have hquiet : ∀ m, ∀ entry ∈ (g m).exports, ∀ t, Mapped g t →
      (ModuleLinking.relinkEntry g m t entry).changed = false →
        t.changed = false ∧ overwrites g m t entry = false := by
    intro m entry hentry t ht hc
    obtain ⟨-, hforward, hchanged⟩ := ht.relinkEntry hentry
    cases hover : overwrites g m t entry with
    | false => exact ⟨((hforward hover).moves.quiet hc).1, rfl⟩
    | true =>
      rw [hchanged hover] at hc
      cases hc
  have hmodule := fun m t ht =>
    @foldl_faults _ _ (ModuleLinking.relinkEntry g m) (overwrites g m) (Mapped g)
      (fun t => t.changed = false) (Forward g) (fun t _ => .refl g t)
      (fun _ _ _ => .trans) _ (fun entry hentry t ht =>
        ⟨(ht.relinkEntry hentry).1, (ht.relinkEntry hentry).2.1, hquiet m entry hentry t ht⟩) t ht
  obtain ⟨hmapped, hforward, hchanged⟩ := @foldl_faults _ _
    (fun s m => (g m).exports.foldl (ModuleLinking.relinkEntry g m) s) (moduleOverwrites g)
    (Mapped g) (fun t => t.changed = false) (Forward g) (fun t _ => .refl g t)
    (fun _ _ _ => .trans) (finRange n) (fun m _ t ht => hmodule m t ht) _
    (h.changed false)
  exact ⟨hmapped, hforward, fun hc => (hchanged hc).2⟩

/-! ## The explicit exports of any graph -/

/-- The maps before the passes: no name is marked. -/
structure Unmarked (g : ModuleGraph n) (s : LinkState n) : Prop where
  names : ∀ v, s.val v ≠ none → v.2 ∈ g.exportNames
  unmarked : ∀ v, ¬s.Marked v

/-- No explicit name is forgotten. -/
def LinkState.Remembers (s s' : LinkState n) : Prop :=
  ∀ m name, name ∈ s.explicitNames m → name ∈ s'.explicitNames m

/-- What an explicit entry does: it makes its name explicit, and sets no export but that of its
name, and that only if it re-exports no import. -/
structure Installs (g : ModuleGraph n) (m : Fin n) (entry : SyntaxExportEntry)
    (s s' : LinkState n) : Prop where
  marked : ∀ v, s'.Marked v ↔ s.Marked v
  remembers : s.Remembers s'
  explicit : ∀ name, entry.exportedName = some name → name ∈ s'.explicitNames m
  value : ∀ v, s'.val v = s.val v ∨
    v.1 = m ∧ entry.exportedName = some v.2 ∧ reexported (g m) entry = none

lemma installEntry_installs (g : ModuleGraph n) (m : Fin n) (s : LinkState n)
    (entry : SyntaxExportEntry) (index : ℕ) :
    Installs g m entry s (installEntry g m s (entry, index)) := by
  unfold ModuleLinking.installEntry
  dsimp only
  cases hname : entry.exportedName with
  | none =>
    exact ⟨fun _ => .rfl, fun _ _ hmem => hmem, fun _ hname' => by simp [hname] at hname',
      fun _ => .inl rfl⟩
  | some exportedName =>
    dsimp only
    split
    · next hmem =>
      refine ⟨fun _ => .rfl, fun _ _ hmem => hmem, fun name hname' => ?_, fun _ => .inl rfl⟩
      rw [hname, Option.some.injEq] at hname'
      exact hname' ▸ hmem
    · -- The name is added first, and what follows only sets an export.
      have hadd : Installs g m entry s (s.addExplicit m exportedName) := by
        refine ⟨fun _ => .rfl, fun m' name hmem => ?_, fun name hname' => ?_, fun _ => .inl rfl⟩
        · by_cases hm : m' = m
          · subst hm
            simp [LinkState.addExplicit, hmem]
          · simpa [LinkState.addExplicit, hm] using hmem
        · rw [hname, Option.some.injEq] at hname'
          simp [LinkState.addExplicit, hname']
      have hset : reexported (g m) entry = none → ∀ candidate, Installs g m entry s
          ((s.addExplicit m exportedName).setExport m exportedName candidate) := by
        refine fun hplain candidate => ⟨hadd.marked, hadd.remembers, hadd.explicit, fun v => ?_⟩
        rw [val_setExport]
        split
        · next hv => exact .inr ⟨by rw [hv], by rw [hname, hv], hplain⟩
        · exact hadd.value v
      cases entry with
      | localExport byteRange x localName =>
        dsimp only
        split
        · next himp => exact hset himp _
        · exact hadd
      | defaultExport byteRange =>
        cases hname
        exact hset rfl _
      | namespaceExport byteRange x specifier =>
        dsimp only
        split
        · exact ⟨hadd.marked, hadd.remembers, hadd.explicit, hadd.value⟩
        · exact hset rfl _
      | indirectExport byteRange x importedName specifier => exact hadd
      | starExport byteRange specifier => cases hname

lemma Unmarked.installEntry (h : Unmarked g s) {entry : SyntaxExportEntry} {index : ℕ}
    (hentry : entry ∈ (g m).exports) : Unmarked g (installEntry g m s (entry, index)) := by
  have hi := installEntry_installs g m s entry index
  refine ⟨fun v hval => ?_, fun v hv => h.unmarked v ((hi.marked v).mp hv)⟩
  rcases hi.value v with hsame | ⟨-, hname, -⟩
  · exact h.names v (hsame ▸ hval)
  · exact mem_exportNames hentry hname

lemma mapped_installExports (g : ModuleGraph n) : Mapped g (installExports g) := by
  have hinitial : Unmarked g (.initial n) :=
    ⟨fun v hval => absurd rfl hval, fun v hv => absurd hv not_mem_nil⟩
  have hmodule : ∀ m, ∀ t, Unmarked g t →
      let t' := (g m).exports.zipIdx.foldl (ModuleLinking.installEntry g m) t
      Unmarked g t' ∧ t.Remembers t' ∧ ∀ e ∈ (g m).exports.zipIdx,
        ∃ u, Unmarked g u ∧ t.Remembers u ∧
          LinkState.Remembers (ModuleLinking.installEntry g m u e) t' := fun m t ht =>
    @foldl_each _ _ (ModuleLinking.installEntry g m) (Unmarked g) LinkState.Remembers
      (fun _ _ _ _ hmem => hmem) (fun _ _ _ h h' m' name hmem => h' m' name (h m' name hmem)) _
      (fun e he t ht => ⟨ht.installEntry (mem_exports_of_mem_zipIdx he),
        (installEntry_installs g m t e.1 e.2).remembers⟩) _ ht
  obtain ⟨h, -, hall⟩ := @foldl_each _ _
    (fun s m => (g m).exports.zipIdx.foldl (ModuleLinking.installEntry g m) s) (Unmarked g)
    LinkState.Remembers (fun _ _ _ _ hmem => hmem)
    (fun _ _ _ h h' m' name hmem => h' m' name (h m' name hmem)) (finRange n)
    (fun m _ t ht => ⟨(hmodule m t ht).1, (hmodule m t ht).2.1⟩) _ hinitial
  refine ⟨h.names, fun v hv => absurd hv (h.unmarked v), fun v hv => absurd hv (h.unmarked v),
    fun m entry hentry name hname => ?_, fun v hv => absurd hv (h.unmarked v)⟩
  obtain ⟨t, ht, -, hlast⟩ := hall m (mem_finRange m)
  obtain ⟨i, hi⟩ := mem_iff_getElem?.mp hentry
  obtain ⟨u, hu, -, hlast'⟩ := (hmodule m t ht).2.2 (entry, i) (mem_zipIdx_iff_getElem?.mpr hi)
  exact hlast m name (hlast' m name ((installEntry_installs g m u entry i).explicit name hname))

/-! ## Graphs whose passes come to an end

Where every record of a name re-exports the same import, or none re-exports an import, no pass
replaces a cell: a re-exported name has the cell of the binding it re-exports, or that binding
has become ambiguous. Two records of one name that re-export different bindings replace each
other's cell in every pass.
-/

variable {imported : SyntaxImportEntry} {cell : ModuleCell n}

/-! ## Names that re-export one import -/

/-- Where a record re-exports an import, every record of its name re-exports that import. -/
def ModuleGraph.ReexportsAgree (g : ModuleGraph n) : Prop :=
  ∀ m, ∀ entry ∈ (g m).exports, ∀ entry' ∈ (g m).exports,
    entry'.exportedName = entry.exportedName → reexported (g m) entry ≠ none →
      reexported (g m) entry' = reexported (g m) entry

/-- The cell comes from an import: it is that of the imported namespace or binding, unless the
binding has become ambiguous. -/
def LinkState.ComesFrom (s : LinkState n) (g : ModuleGraph n) (m : Fin n)
    (imported : SyntaxImportEntry) (cell : ModuleCell n) : Prop :=
  ∃ target importedName, resolvedModuleId (g m) imported.specifier = some target ∧
    imported.importedName = some importedName ∧
    if imported.isNamespace then cell = (namespaceCandidate target).cell
    else s.val (target, importedName) = some cell ∨ s.Marked (target, importedName)

lemma comesFrom_of_candidate {candidate : ExportCandidate n}
    (h : importCandidate g m s imported = some candidate) :
    s.ComesFrom g m imported candidate.cell := by
  unfold importCandidate at h
  split at h
  · next target importedName ht hname =>
    refine ⟨target, importedName, ht, hname, ?_⟩
    by_cases hns : imported.isNamespace = true
    · rw [if_pos hns] at h ⊢
      cases h
      rfl
    · rw [if_neg hns] at h ⊢
      exact .inl (LinkState.val_of_get h)
  · cases h

lemma LinkState.ComesFrom.cell_eq (h : s.ComesFrom g m imported cell)
    (hdisjoint : ∀ v, s.Marked v → s.val v = none) {candidate : ExportCandidate n}
    (hcand : importCandidate g m s imported = some candidate) : candidate.cell = cell := by
  obtain ⟨target, importedName, ht, hname, hcell⟩ := h
  simp only [importCandidate, ht, hname] at hcand
  by_cases hns : imported.isNamespace = true
  · rw [if_pos hns] at hcand hcell
    cases hcand
    exact hcell.symm
  · rw [if_neg hns] at hcand hcell
    have hval := LinkState.val_of_get hcand
    rcases hcell with hcell | hmark
    · rw [hval, Option.some.injEq] at hcell
      exact hcell
    · rw [hdisjoint _ hmark] at hval
      cases hval

lemma LinkState.ComesFrom.moves (h : s.ComesFrom g m imported cell) (hmoves : Moves g s s') :
    s'.ComesFrom g m imported cell := by
  obtain ⟨target, importedName, ht, hname, hcell⟩ := h
  refine ⟨target, importedName, ht, hname, ?_⟩
  by_cases hns : imported.isNamespace = true
  · rw [if_pos hns] at hcell ⊢
    exact hcell
  · rw [if_neg hns] at hcell ⊢
    rcases hcell with hcell | hmark
    · exact hmoves.kept _ _ hcell
    · exact .inr (hmoves.marks _ hmark)

/-- Every re-exported name has a cell that comes from its import, if it has one. -/
def LinkState.Copied (s : LinkState n) (g : ModuleGraph n) : Prop :=
  ∀ m, ∀ entry ∈ (g m).exports, ∀ imported, reexported (g m) entry = some imported →
    ∀ name, entry.exportedName = some name → ∀ cell, s.val (m, name) = some cell →
      s.ComesFrom g m imported cell

/-- A step that moves the maps forward keeps this, if it takes new cells from imports. -/
lemma LinkState.Copied.moves (h : s.Copied g) (hmoves : Moves g s s')
    (hnew : ∀ m, ∀ entry ∈ (g m).exports, ∀ imported, reexported (g m) entry = some imported →
      ∀ name, entry.exportedName = some name → s'.val (m, name) = s.val (m, name) ∨
        ∃ candidate, importCandidate g m s imported = some candidate ∧
          s'.val (m, name) = some candidate.cell) : s'.Copied g := by
  intro m entry hentry imported himp name hname cell hcell
  rcases hnew m entry hentry imported himp name hname with hsame | ⟨candidate, hcand, hval⟩
  · rw [hsame] at hcell
    exact (h m entry hentry imported himp name hname cell hcell).moves hmoves
  · rw [hval, Option.some.injEq] at hcell
    rw [← hcell]
    exact (comesFrom_of_candidate hcand).moves hmoves

/-- With agreeing re-exports, an entry replaces no cell. -/
lemma LinkState.Copied.not_overwrites (h : s.Copied g) (hmapped : Mapped g s)
    {entry : SyntaxExportEntry} (hentry : entry ∈ (g m).exports) :
    overwrites g m s entry = false := by
  cases entry with
  | localExport byteRange exportedName localName =>
    unfold overwrites
    dsimp only
    split
    · rfl
    · next imported himp =>
      split
      · next candidate existing hcand hget =>
        have hcell := (h m _ hentry imported himp exportedName rfl existing.cell
          (LinkState.val_of_get hget)).cell_eq hmapped.disjoint hcand
        simp [sameExport, hcell]
      · rfl
  | _ => rfl

/-- The cell that an entry gives its own name. -/
lemma relinkEntry_val (hmapped : Mapped g s) {entry : SyntaxExportEntry}
    (hentry : entry ∈ (g m).exports) (v : Fin n × String)
    (hv : v.2 ∈ s.explicitNames v.1) :
    (relinkEntry g m s entry).val v = s.val v ∨
      (entry.exportedName = some v.2 ∧ m = v.1 ∧ ∀ imported, reexported (g m) entry = some imported →
        ∃ candidate, importCandidate g m s imported = some candidate ∧
          (relinkEntry g m s entry).val v = some candidate.cell) := by
  by_cases hstar : ∃ byteRange specifier, entry = .starExport byteRange specifier
  · obtain ⟨byteRange, specifier, rfl⟩ := hstar
    left
    simp only [relinkEntry]
    split
    · rfl
    · next target ht => exact (hmapped.takeStar target).2.values v hv
  push Not at hstar
  rcases relinkEntry_cases g m s hstar with ⟨hsame, -⟩ | ⟨name, candidate, hname, hset, -, hcand⟩
  · rw [hsame]
    exact .inl rfl
  · -- Setting the name of the entry leaves every other one.
    have hval : (relinkEntry g m s entry).val v =
        if v = (m, name) then some candidate.cell else s.val v := by
      rw [hset]
      exact val_setExport s m name candidate v
    split at hval
    · next hvm =>
      rw [hvm] at hval ⊢
      exact .inr ⟨hname, rfl, fun imported himp => ⟨candidate, hcand imported himp, hval⟩⟩
    · exact .inl hval

lemma LinkState.Copied.relinkEntry (h : s.Copied g) (hagree : g.ReexportsAgree)
    (hmapped : Mapped g s) {entry : SyntaxExportEntry} (hentry : entry ∈ (g m).exports) :
    (relinkEntry g m s entry).Copied g := by
  have hforward := (hmapped.relinkEntry hentry).2.1 (h.not_overwrites hmapped hentry)
  refine h.moves hforward.moves fun m' entry' hentry' imported himp name hname => ?_
  rcases relinkEntry_val hmapped hentry (m', name) (hmapped.explicit m' entry' hentry' name hname)
    with hsame | ⟨hname', rfl, hown⟩
  · exact .inl hsame
  · -- The entry has the name of a re-export, so it re-exports the same import.
    have hne : reexported (g m) entry' ≠ none := by
      rw [himp]
      simp
    have heq := hagree m entry' hentry' entry hentry (hname'.trans hname.symm) hne
    exact .inr (hown imported (heq.trans himp))

/-- One pass keeps this, and replaces no cell. -/
lemma LinkState.Copied.linkPass (h : s.Copied g) (hagree : g.ReexportsAgree)
    (hmapped : Mapped g s) :
    (Mapped g (linkPass g s) ∧ (linkPass g s).Copied g) ∧ passOverwrites g s = false := by
  have hmodule : ∀ m, ∀ t, Mapped g t ∧ t.Copied g →
      (Mapped g ((g m).exports.foldl (ModuleLinking.relinkEntry g m) t) ∧
        ((g m).exports.foldl (ModuleLinking.relinkEntry g m) t).Copied g) ∧
        moduleOverwrites g t m = false := by
    intro m t ht
    obtain ⟨hkept, -, hfault⟩ := @foldl_faults _ _ (ModuleLinking.relinkEntry g m)
      (overwrites g m) (fun t => Mapped g t ∧ t.Copied g) (fun _ => True) (fun _ _ => True)
      (fun _ _ => trivial) (fun _ _ _ _ _ => trivial) (g m).exports
      (fun entry hentry t ht => ⟨⟨(ht.1.relinkEntry hentry).1,
        ht.2.relinkEntry hagree ht.1 hentry⟩, fun _ => trivial,
        fun _ => ⟨trivial, ht.2.not_overwrites ht.1 hentry⟩⟩) t ht
    exact ⟨hkept, (hfault trivial).2⟩
  obtain ⟨hkept, -, hfault⟩ := @foldl_faults _ _
    (fun s m => (g m).exports.foldl (ModuleLinking.relinkEntry g m) s) (moduleOverwrites g)
    (fun t => Mapped g t ∧ t.Copied g) (fun _ => True) (fun _ _ => True) (fun _ _ => trivial)
    (fun _ _ _ _ _ => trivial) (List.finRange n)
    (fun m _ t ht => ⟨(hmodule m t ht).1, fun _ => trivial,
      fun _ => ⟨trivial, (hmodule m t ht).2⟩⟩) _ ⟨hmapped.changed false, h⟩
  exact ⟨hkept, (hfault trivial).2⟩

/-- Before the passes, a re-exported name has no cell. -/
lemma copied_installExports (hagree : g.ReexportsAgree) : (installExports g).Copied g := by
  let I : LinkState n → Prop := fun s => ∀ m, ∀ entry ∈ (g m).exports,
    reexported (g m) entry ≠ none → ∀ name, entry.exportedName = some name → s.val (m, name) = none
  have hstep : ∀ m, ∀ e ∈ (g m).exports.zipIdx, ∀ s, I s → I (installEntry g m s e) ∧ True := by
    intro m e he s hs
    refine ⟨fun m' entry' hentry' himp name hname => ?_, trivial⟩
    rcases (installEntry_installs g m s e.1 e.2).value (m', name) with hsame | ⟨rfl, hname', hplain⟩
    · exact hsame.trans (hs m' entry' hentry' himp name hname)
    · -- The entry has the name of a re-export, so it is one itself.
      rw [hagree m' entry' hentry' e.1 (mem_exports_of_mem_zipIdx he) (hname'.trans hname.symm) himp]
        at hplain
      exact absurd hplain himp
  have hall : I (installExports g) := by
    refine (@foldl_each _ _ (fun s m => (g m).exports.zipIdx.foldl (installEntry g m) s) I
      (fun _ _ => True) (fun _ _ => trivial) (fun _ _ _ _ _ => trivial) (List.finRange n)
      (fun m _ t ht => ?_) (.initial n) fun _ _ _ _ _ _ => rfl).1
    exact ⟨(@foldl_each _ _ (installEntry g m) I (fun _ _ => True) (fun _ _ => trivial)
      (fun _ _ _ _ _ => trivial) _ (hstep m) t ht).1, trivial⟩
  intro m entry hentry imported himp name hname cell hcell
  rw [hall m entry hentry (by rw [himp]; simp) name hname] at hcell
  cases hcell

/-! ## The end of the passes -/

/-- For every graph, the passes end exactly when only finitely many of them replace a cell. None
does when all records of a re-exported name re-export the same import. -/
theorem linkExports_ends_iff (g : ModuleGraph n) :
    ((∃ fuel s, linkExports g fuel = some s) ↔
      ∃ N, ∀ k, N ≤ k → passOverwrites g ((linkPass g)^[k] (installExports g)) = false) ∧
    (g.ReexportsAgree → ∀ k, passOverwrites g ((linkPass g)^[k] (installExports g)) = false) := by
  refine ⟨?_, fun hagree k => ?_⟩
  · refine saturate_ends_iff (I := Mapped g) (fun s hs => hs.linkPass.1) (LinkState.left g)
      (fun s hs hover hc => (hs.linkPass.2.1 hover).moves.less rfl hc)
      (fun s hs hc => hs.linkPass.2.2 hc) (fun s hs hc => ?_) _ (mapped_installExports g)
    -- A pass that changes nothing leaves the maps, so the next one is the same pass.
    have hsame := (hs.linkPass.2.1 (hs.linkPass.2.2 hc)).still hc
    rw [hsame]
    exact hc
  · have hkept : Mapped g ((linkPass g)^[k] (installExports g)) ∧
        ((linkPass g)^[k] (installExports g)).Copied g := by
      induction k with
      | zero => exact ⟨mapped_installExports g, copied_installExports hagree⟩
      | succ k ih =>
        rw [Function.iterate_succ_apply']
        exact (ih.2.linkPass hagree ih.1).1
    exact (hkept.2.linkPass hagree hkept.1).2

/-- Module 0 imports two bindings of module 1, and exports both under one name. -/
def twiceExported : ModuleGraph 2 :=
  let one : SyntaxModuleSpecifier := ⟨"./one.js", ⟨20, 30⟩⟩
  ![{ imports := [⟨⟨0, 31⟩, some "x", some "x", false, one⟩, ⟨⟨0, 31⟩, some "y", some "y", false, one⟩]
      exports := [.localExport (some ⟨40, 46⟩) "name" "x", .localExport (some ⟨55, 61⟩) "name" "y"]
      resolutions := [(one, 1)] },
    { imports := []
      exports := [.localExport none "x" "x", .localExport none "y" "y"]
      resolutions := [] }]

lemma LinkState.eq_of_fields {s s' : LinkState n} (hmaps : s.exportsByModule = s'.exportsByModule)
    (hdiagnostics : s.diagnostics = s'.diagnostics) (hexplicit : s.explicitNames = s'.explicitNames)
    (hambiguous : s.ambiguousNames = s'.ambiguousNames) (hchanged : s.changed = s'.changed) :
    s = s' := by
  cases s
  subst hmaps hdiagnostics hexplicit hambiguous hchanged
  rfl

/-- Every pass after the first puts the first cell in the place of the second, and the second in
the place of the first. -/
theorem twiceExported_loops : ¬∃ fuel, (linkModuleGraph twiceExported fuel).isSome := by
  let first := linkPass twiceExported (installExports twiceExported)
  have hchanged : first.changed = true := by decide +kernel
  have hentries : ∀ m, ((linkPass twiceExported first).exportsByModule m).entries =
      (first.exportsByModule m).entries := by decide +kernel
  have hpass : linkPass twiceExported first = first := by
    have hmaps : (linkPass twiceExported first).exportsByModule = first.exportsByModule :=
      funext fun m => by
        cases hm : first.exportsByModule m
        cases hm' : (linkPass twiceExported first).exportsByModule m
        have := hentries m
        rw [hm, hm'] at this
        congr
    have hdiagnostics : (linkPass twiceExported first).diagnostics = first.diagnostics := by
      decide +kernel
    have hexplicit : (linkPass twiceExported first).explicitNames = first.explicitNames :=
      funext (by decide +kernel)
    have hambiguous : (linkPass twiceExported first).ambiguousNames = first.ambiguousNames :=
      funext (by decide +kernel)
    have hchanged' : (linkPass twiceExported first).changed = first.changed := by decide +kernel
    exact LinkState.eq_of_fields hmaps hdiagnostics hexplicit hambiguous hchanged'
  rintro ⟨fuel, hend⟩
  have hloop : linkExports twiceExported fuel = none := by
    cases fuel with
    | zero => rfl
    | succ fuel =>
      unfold linkExports
      rw [saturate, if_pos hchanged]
      exact saturate_of_fixed hpass hchanged fuel
  unfold linkModuleGraph at hend
  rw [hloop] at hend
  cases hend

end Oseo.ModuleLinking
