import Oseo.ModuleLinking.EntryTheorems

/-!
# Linking agrees with ResolveExport

The explicit exports start the invariant, the passes end in a stable assignment, and the
checks ask whether every imported name has a value. So linking succeeds exactly when
ResolveExport finds a binding for each of them, and its maps hold exactly the bindings that
ResolveExport finds.
-/

namespace Oseo.ModuleLinking

open Oseo.Library
open Option
open List

variable {n : ℕ} {g : ModuleGraph n} {s s' : LinkState n} {m : Fin n} {name : String}
  {pending : Fin n × String → Prop}

/-! ## The explicit exports -/

/-- The candidate an explicit entry is installed with, if it does not follow a name. The
export of a namespace import waits for the first pass. -/
def entryCandidate (g : ModuleGraph n) (m : Fin n) (e : SyntaxExportEntry × ℕ) :
    Option (ExportCandidate n) :=
  if spellEntry (g m) e.1 = e.1 then
    match entryView g m e with
    | .terminal cell => some ⟨cell, cell.moduleId⟩
    | .follow _ => none
  else
    none

lemma entryView_spelled (g : ModuleGraph n) (m : Fin n) (e : SyntaxExportEntry × ℕ) :
    entryView g.spelled m e = entryView g m e := by
  obtain ⟨entry, index⟩ := e
  cases entry <;> rfl

lemma explicitEntry_spelled (g : ModuleGraph n) (m : Fin n) (name : String) :
    g.spelled.explicitEntry m name =
      (g.explicitEntry m name).map fun e => (spellEntry (g m) e.1, e.2) := by
  unfold ModuleGraph.explicitEntry ModuleGraph.spelled
  rw [zipIdx_map, find?_map]
  have hkey : (fun e : SyntaxExportEntry × ℕ => decide (e.1.exportedName = some name)) ∘
      Prod.map (spellEntry (g m)) id = fun e => decide (e.1.exportedName = some name) := by
    funext e
    simp [spellEntry_exportedName]
  rw [hkey]
  rfl

lemma joins_spelled {v : Fin n × String} : g.spelled.Joins v ↔ g.Joins v := by
  unfold ModuleGraph.Joins
  rw [explicitEntry_spelled, map_eq_none_iff]

/-- What the first loop has done once it has read the entries `done` of a module. -/
structure Installed (g : ModuleGraph n) (s : LinkState n) (m : Fin n)
    (done : List (SyntaxExportEntry × ℕ)) : Prop where
  explicit : ∀ name, name ∈ s.explicitNames m ↔ ∃ e ∈ done, e.1.exportedName = some name
  value : ∀ name, (s.exportsByModule m).get name =
    (done.find? fun e => e.1.exportedName = some name).bind (entryCandidate g m)

/-- What reading one module leaves alone. -/
structure InstallFrame (s s' : LinkState n) (m : Fin n) : Prop where
  diagnostics : s'.diagnostics = s.diagnostics
  ambiguousNames : s'.ambiguousNames = s.ambiguousNames
  explicitNames : ∀ m', m' ≠ m → s'.explicitNames m' = s.explicitNames m'
  exportsByModule : ∀ m', m' ≠ m → s'.exportsByModule m' = s.exportsByModule m'

lemma InstallFrame.trans {s'' : LinkState n} (h : InstallFrame s s' m)
    (h' : InstallFrame s' s'' m) : InstallFrame s s'' m where
  diagnostics := h'.diagnostics.trans h.diagnostics
  ambiguousNames := h'.ambiguousNames.trans h.ambiguousNames
  explicitNames := fun m' hm => (h'.explicitNames m' hm).trans (h.explicitNames m' hm)
  exportsByModule := fun m' hm => (h'.exportsByModule m' hm).trans (h.exportsByModule m' hm)

lemma find_append_single {α : Type*} {p : α → Bool} {l : List α} {a : α}
    (h : ∀ b ∈ l, p b = true → p a = true → False) :
    (l ++ [a]).find? p = if p a then some a else l.find? p := by
  rw [find?_append]
  by_cases ha : p a = true
  · have hnone : l.find? p = none := by
      rw [find?_eq_none]
      exact fun b hb hpb => h b hb hpb ha
    simp [hnone, ha]
  · simp [ha]

/-- Installing an entry whose name is new. -/
lemma Installed.entry (hc : g.Closed) {done : List (SyntaxExportEntry × ℕ)} (h : Installed g s m done)
    {e : SyntaxExportEntry × ℕ} (he : e.1 ∈ (g m).exports)
    (hnew : ∀ name, e.1.exportedName = some name → ∀ e' ∈ done, e'.1.exportedName ≠ some name) :
    Installed g (installEntry g m s e) m (done ++ [e]) ∧
      InstallFrame s (installEntry g m s e) m := by
  obtain ⟨entry, index⟩ := e
  -- The value of every name after the step, by what the entry exports.
  have hfind : ∀ name, (done ++ [(entry, index)]).find?
      (fun e => e.1.exportedName = some name) =
        if entry.exportedName = some name then some (entry, index)
        else done.find? fun e => e.1.exportedName = some name := by
    intro name
    rw [find_append_single]
    · simp
    · intro e' he' hp hp'
      exact hnew name (of_decide_eq_true hp') e' he' (of_decide_eq_true hp)
  have hexplicit : ∀ name, (∃ e ∈ done ++ [(entry, index)], e.1.exportedName = some name) ↔
      (∃ e ∈ done, e.1.exportedName = some name) ∨ entry.exportedName = some name := by
    intro name
    simp only [mem_append, mem_singleton, or_and_right, exists_or, exists_eq_left]
  cases hname : entry.exportedName with
  | none =>
    have hs : installEntry g m s (entry, index) = s := by
      unfold installEntry
      simp only [hname]
    rw [hs]
    refine ⟨⟨fun name => ?_, fun name => ?_⟩, rfl, rfl, fun _ _ => rfl, fun _ _ => rfl⟩
    · rw [hexplicit, hname, h.explicit]
      simp
    · rw [hfind, hname, h.value]
      simp
  | some exportedName =>
    have hnot : exportedName ∉ s.explicitNames m := by
      intro hmem
      obtain ⟨e', he', hname'⟩ := (h.explicit exportedName).mp hmem
      exact hnew exportedName hname e' he' hname'
    have hold : done.find? (fun e => e.1.exportedName = some exportedName) = none := by
      rw [find?_eq_none]
      intro e' he' hp
      exact hnew exportedName hname e' he' (of_decide_eq_true hp)
    -- Every explicit entry sets the candidate of its view, or nothing.
    have hstep : installEntry g m s (entry, index) =
        match entryCandidate g m (entry, index) with
        | some candidate => (s.addExplicit m exportedName).setExport m exportedName candidate
        | none => s.addExplicit m exportedName := by
      unfold installEntry
      simp only [hname, if_neg hnot]
      cases entry with
      | localExport byteRange x localName =>
        cases hname
        simp only [entryCandidate, entryView]
        cases himp : importedBinding (g m) localName with
        | none => simp [spellEntry, himp]
        | some imported =>
          obtain ⟨hmem, -, hsome⟩ := importedBinding_spec himp
          obtain ⟨target, ht⟩ := ne_none_iff_exists'.mp ((hc m).1 imported hmem)
          obtain ⟨importedName, hin⟩ := ne_none_iff_exists'.mp hsome
          by_cases hns : imported.isNamespace = true
          · simp [spellEntry, himp, hns]
          · simp [spellEntry, himp, hns, ht, hin]
      | indirectExport byteRange x importedName specifier =>
        obtain ⟨target, ht⟩ := ne_none_iff_exists'.mp ((hc m).2 _ he specifier rfl)
        simp [entryCandidate, entryView, spellEntry, ht]
      | namespaceExport byteRange x specifier =>
        cases hname
        obtain ⟨target, ht⟩ := ne_none_iff_exists'.mp ((hc m).2 _ he specifier rfl)
        simp [entryCandidate, entryView, spellEntry, ht, namespaceCandidate]
      | defaultExport byteRange =>
        cases hname
        simp [entryCandidate, entryView, spellEntry]
      | starExport byteRange specifier => cases hname
    have hadd : ∀ name, name ∈ (s.addExplicit m exportedName).explicitNames m ↔
        name ∈ s.explicitNames m ∨ exportedName = name := by
      intro name
      simp [LinkState.addExplicit, eq_comm]
    have hframe : InstallFrame s (s.addExplicit m exportedName) m :=
      ⟨rfl, rfl, fun m' hm => Function.update_of_ne hm _ _, fun _ _ => rfl⟩
    rw [hstep]
    cases hcand : entryCandidate g m (entry, index) with
    | none =>
      refine ⟨⟨fun name => ?_, fun name => ?_⟩, hframe⟩
      · rw [hexplicit, hname, hadd, h.explicit, some.injEq]
      · rw [hfind, hname]
        show (s.exportsByModule m).get name = _
        rw [h.value]
        by_cases heq : exportedName = name
        · rw [if_pos (by rw [heq]), ← heq, hold, bind_some, hcand]
          rfl
        · rw [if_neg (by simpa using heq)]
    | some candidate =>
      refine ⟨⟨fun name => ?_, fun name => ?_⟩, hframe.trans ⟨rfl, rfl, fun _ _ => rfl, ?_⟩⟩
      · rw [hexplicit, hname, some.injEq, ← h.explicit]
        exact hadd name
      · rw [hfind, hname]
        simp only [LinkState.setExport, Function.update_self]
        rw [InsertionMap.get_set]
        by_cases heq : exportedName = name
        · rw [if_pos heq.symm, if_pos (by rw [heq]), bind_some, hcand]
        · rw [if_neg (Ne.symm heq), if_neg (by simpa using heq)]
          exact h.value name
      · exact fun m' hm => Function.update_of_ne hm _ _

section
variable (hc : g.Closed) (hu : g.UniqueNames)
include hc hu

/-- Installing the entries of one module. -/
lemma Installed.entries
    {done rest : List (SyntaxExportEntry × ℕ)} (hall : done ++ rest = (g m).exports.zipIdx)
    (h : Installed g s m done) :
    Installed g (rest.foldl (installEntry g m) s) m (g m).exports.zipIdx ∧
      InstallFrame s (rest.foldl (installEntry g m) s) m := by
  induction rest generalizing done s with
  | nil =>
    rw [append_nil] at hall
    rw [← hall]
    exact ⟨h, rfl, rfl, fun _ _ => rfl, fun _ _ => rfl⟩
  | cons e rest ih =>
    have hmem : e ∈ (g m).exports.zipIdx := by
      rw [← hall]
      exact mem_append_right _ mem_cons_self
    have hnew : ∀ name, e.1.exportedName = some name →
        ∀ e' ∈ done, e'.1.exportedName ≠ some name := by
      intro name hname e' he' hname'
      have hnodup := hu.zipIdx m
      rw [← hall, filterMap_append, nodup_append] at hnodup
      exact hnodup.2.2 name (mem_filterMap.mpr ⟨e', he', hname'⟩) name
        (mem_filterMap.mpr ⟨e, mem_cons_self, hname⟩) rfl
    obtain ⟨h₁, hframe₁⟩ := h.entry hc (mem_exports_of_mem_zipIdx hmem) hnew
    obtain ⟨h₂, hframe₂⟩ := ih (by rw [← hall, append_assoc]; rfl) h₁
    exact ⟨h₂, hframe₁.trans hframe₂⟩

/-- Installing the modules of a list. -/
lemma installed_modules {modules : List (Fin n)} (hnodup : modules.Nodup)
    (h : ∀ m ∈ modules, Installed g s m []) :
    let s' := modules.foldl (fun s m => (g m).exports.zipIdx.foldl (installEntry g m) s) s
    (∀ m ∈ modules, Installed g s' m (g m).exports.zipIdx) ∧ s'.diagnostics = s.diagnostics ∧
      s'.ambiguousNames = s.ambiguousNames ∧
      ∀ m ∉ modules, s'.explicitNames m = s.explicitNames m ∧
        s'.exportsByModule m = s.exportsByModule m := by
  induction modules generalizing s with
  | nil => exact ⟨fun m hm => absurd hm not_mem_nil, rfl, rfl, fun _ _ => ⟨rfl, rfl⟩⟩
  | cons m modules ih =>
    rw [nodup_cons] at hnodup
    obtain ⟨h₁, hframe⟩ := (h m mem_cons_self).entries hc hu (nil_append _)
    rw [foldl_cons]
    have hrest : ∀ m' ∈ modules,
        Installed g ((g m).exports.zipIdx.foldl (installEntry g m) s) m' [] := by
      intro m' hm'
      have hne : m' ≠ m := fun heq => hnodup.1 (heq ▸ hm')
      have h' := h m' (mem_cons_of_mem _ hm')
      refine ⟨fun name => ?_, fun name => ?_⟩
      · rw [hframe.explicitNames m' hne, h'.explicit]
      · rw [hframe.exportsByModule m' hne, h'.value]
    obtain ⟨hall, hdiag, hamb, hother⟩ := ih hnodup.2 hrest
    refine ⟨fun m' hm' => ?_, hdiag.trans hframe.diagnostics, hamb.trans hframe.ambiguousNames,
      fun m' hm' => ?_⟩
    · rcases mem_cons.mp hm' with rfl | hm'
      · obtain ⟨he, hx⟩ := hother m' hnodup.1
        exact ⟨fun name => by rw [he]; exact h₁.explicit name,
          fun name => by rw [hx]; exact h₁.value name⟩
      · exact hall m' hm'
    · rw [mem_cons, not_or] at hm'
      obtain ⟨he, hx⟩ := hother m' hm'.2
      exact ⟨he.trans (hframe.explicitNames m' hm'.1), hx.trans (hframe.exportsByModule m' hm'.1)⟩

/-- The explicit exports start the invariant. -/
lemma linking_installExports :
    Linking g.spelled g.Reexports (installExports g) := by
  have hinit : ∀ m ∈ finRange n, Installed g (LinkState.initial n) m [] :=
    fun m _ => ⟨fun name => by simp [LinkState.initial], fun name => rfl⟩
  obtain ⟨hall, hdiag, hamb, -⟩ :=
    installed_modules hc hu (nodup_finRange n) hinit
  have h : ∀ m, Installed g (installExports g) m (g m).exports.zipIdx :=
    fun m => hall m (mem_finRange m)
  have hget : ∀ m name, ((installExports g).exportsByModule m).get name =
      (g.explicitEntry m name).bind (entryCandidate g m) := fun m name => (h m).value name
  have hmark : ∀ v, ¬(installExports g).Marked v := by
    intro v hv
    unfold LinkState.Marked at hv
    rw [show (installExports g).ambiguousNames = (LinkState.initial n).ambiguousNames from hamb]
      at hv
    exact absurd hv not_mem_nil
  -- What a name is installed with is the cell of a terminal.
  have hterminal : ∀ v candidate, ((installExports g).exportsByModule v.1).get v.2 =
      some candidate → g.spelled.view v = .terminal candidate.cell ∧
        candidate.sourceModuleId = candidate.cell.moduleId := by
    intro v candidate hcand
    rw [hget] at hcand
    obtain ⟨e, hentry, he⟩ := bind_eq_some_iff.mp hcand
    unfold entryCandidate at he
    split at he
    · next hsame =>
      rw [ModuleGraph.view, explicitEntry_spelled, hentry, map_some, hsame]
      dsimp only
      rw [entryView_spelled]
      split at he
      · next cell hview =>
        cases he
        exact ⟨hview, rfl⟩
      · cases he
    · cases he
  have hval : ∀ v cell, (installExports g).val v = some cell →
      g.spelled.view v = .terminal cell := by
    intro v cell hcell
    obtain ⟨candidate, hcand, rfl⟩ := map_eq_some_iff.mp hcell
    exact (hterminal v candidate hcand).1
  constructor
  case sound =>
    exact ⟨fun v c hv => .terminal (hval v c hv), fun v hv => absurd hv (hmark v),
      fun v hv => absurd hv (hmark v)⟩
  case source => exact fun m name candidate hcand => (hterminal (m, name) candidate hcand).2
  case explicit =>
    intro m name
    rw [(h m).explicit, joins_spelled]
    unfold ModuleGraph.Joins ModuleGraph.explicitEntry
    rw [find?_eq_none]
    push Not
    constructor
    · rintro ⟨e, he, hname⟩
      exact ⟨e, he, by simpa using hname⟩
    · rintro ⟨e, he, hname⟩
      exact ⟨e, he, by simpa using hname⟩
  case unmarked => exact fun v _ => hmark v
  case terminal =>
    intro v cell hview hnone
    rw [LinkState.val_eq_none, hget] at hnone
    rw [ModuleGraph.view, explicitEntry_spelled] at hview
    cases hentry : g.explicitEntry v.1 v.2 with
    | none =>
      rw [hentry, map_none] at hview
      dsimp only at hview
      split at hview <;> cases hview
    | some e =>
      -- An entry that is spelled as it stands was installed.
      rw [hentry, map_some] at hview
      rw [hentry, bind_some, entryCandidate] at hnone
      obtain ⟨hmem, hname⟩ := explicitEntry_mem hentry
      refine ⟨e.1, mem_exports_of_mem_zipIdx hmem, fun hsame => ?_, hname⟩
      dsimp only at hview
      rw [hsame, entryView_spelled] at hview
      rw [if_pos hsame, hview] at hnone
      cases hnone
  case copied =>
    intro v _ next hview w _ cell hcell
    rw [hval v cell hcell] at hview
    cases hview
  case accepted => exact hdiag

/-! ## The passes end -/

/-- One pass. If it changes nothing, every entry is settled. -/
lemma Linking.linkPass (h : Linking g.spelled g.Reexports s) :
    Linking g.spelled g.Reexports (linkPass g s) ∧
      Moves g.spelled { s with changed := false } (linkPass g s) ∧
      ((linkPass g s).changed = false → ∀ m, ∀ entry ∈ (g m).exports,
        (linkPass g s).EntrySettled g.spelled m (spellEntry (g m) entry) ∧
          (linkPass g s).ReexportSettled g m entry) := by
  have h₀ : Linking g.spelled g.Reexports { s with changed := false } := { h with }
  have hentries := fun m t (ht : Linking g.spelled g.Reexports t) =>
    foldl_each (f := ModuleLinking.relinkEntry g m) (l := (g m).exports)
      (fun t _ => Moves.refl g.spelled t) (fun _ _ _ a b => a.trans b) (fun entry hentry t ht =>
        ⟨(ht.relinkSpelled hc hu hentry).1, (ht.relinkSpelled hc hu hentry).2.1⟩) ht
  obtain ⟨hl, hmoves, heach⟩ := foldl_each
    (f := fun s m => (g m).exports.foldl (ModuleLinking.relinkEntry g m) s) (l := finRange n)
    (fun t _ => .refl g.spelled t) (fun _ _ _ a b => .trans a b)
    (fun m _ t ht => ⟨(hentries m t ht).1, (hentries m t ht).2.1⟩) h₀
  refine ⟨hl, hmoves, fun hquiet m entry hentry => ?_⟩
  obtain ⟨t, ht, -, hlast⟩ := heach m (mem_finRange m)
  obtain ⟨t', ht', -, hlast'⟩ := (hentries m t ht).2.2 entry hentry
  have hend := hlast'.trans hlast
  obtain ⟨hquiet', hval, hmark⟩ := hend.quiet hquiet
  obtain ⟨hsettled, hreexport⟩ := (ht'.relinkSpelled hc hu hentry).2.2 hquiet'
  -- Nothing changed after this entry, so it is still settled.
  have hcopy : ∀ v, (ModuleLinking.relinkEntry g m t' entry).CopySettled g.spelled v →
      (ModuleLinking.linkPass g s).CopySettled g.spelled v := by
    intro v hv next hview w hw cell hcell
    have hcell' := (hval w).symm.trans hcell
    exact (hval v).trans (hv next hview w hw cell hcell')
  refine ⟨?_, fun hne name hname hnone => hreexport hne name hname ((hval _).symm.trans hnone)⟩
  generalize spellEntry (g m) entry = spelled at hsettled
  cases spelled with
  | starExport byteRange specifier =>
    intro target htarget name hj hd
    obtain ⟨hmarked, hvalue⟩ := hsettled target htarget name hj hd
    refine ⟨fun hm => hend.marks _ (hmarked (hmark _ hm)), fun cell hcell => ?_⟩
    rcases hvalue cell ((hval _).symm.trans hcell) with hv | hv
    · exact hend.kept _ _ hv
    · exact .inr (hend.marks _ hv)
  | localExport byteRange exportedName localName =>
    exact fun name hname => hcopy _ (hsettled name hname)
  | indirectExport byteRange exportedName importedName specifier =>
    exact fun name hname => hcopy _ (hsettled name hname)
  | namespaceExport byteRange exportedName specifier =>
    exact fun name hname => hcopy _ (hsettled name hname)
  | defaultExport byteRange => exact fun name hname => hcopy _ (hsettled name hname)

end

lemma mem_starTargets_iff {target : Fin n} :
    target ∈ (starExportEntries (g m)).filterMap id ↔
      ∃ byteRange specifier, .starExport byteRange specifier ∈ (g m).exports ∧
        resolvedModuleId (g m) specifier = some target := by
  constructor
  · intro h
    obtain ⟨t, ht, hid⟩ := mem_filterMap.mp h
    obtain ⟨entry, hentry, hparse⟩ := mem_filterMap.mp ht
    cases entry with
    | starExport byteRange specifier =>
      cases hparse
      exact ⟨byteRange, specifier, hentry, hid⟩
    | _ => cases hparse
  · intro ⟨_, _, h, ht⟩
    exact mem_starTargets h ht

/-- When every entry is settled, the maps are a stable assignment. -/
lemma Linking.stable (h : Linking g pending s)
    (hsettled : ∀ m, ∀ entry ∈ (g m).exports, s.EntrySettled g m entry)
    (hpending : ∀ v, pending v → s.val v ≠ none) :
    Stable g.view s.val s.Marked g.Joins := by
  have hstar : ∀ v : Fin n × String, g.Joins v → ∀ next, g.view v = .follow next → ∀ w ∈ next,
      v.2 ≠ "default" ∧ w.2 = v.2 ∧ s.StarSettled g v.1 w.1 := by
    intro v hj next hview w hw
    rw [ModuleGraph.view, show g.explicitEntry v.1 v.2 = none from hj] at hview
    dsimp only at hview
    split at hview
    · cases hview
      exact absurd hw not_mem_nil
    · next hd =>
      cases hview
      obtain ⟨target, ht, rfl⟩ := mem_map.mp hw
      obtain ⟨byteRange, specifier, hentry, hres⟩ := mem_starTargets_iff.mp ht
      exact ⟨hd, rfl, hsettled v.1 _ hentry target hres⟩
  constructor
  case terminal =>
    intro v cell hview
    cases hval : s.val v with
    | none => exact absurd hval (hpending v (h.terminal v cell hview hval))
    | some cell' => rw [(uniquely_of_terminal hview).2 cell' (h.sound.reaches v cell' hval)]
  case mark =>
    intro v hj next hview w hw hmark
    obtain ⟨hd, hname, hset⟩ := hstar v hj next hview w hw
    refine (hset v.2 hj hd).1 ?_
    rw [← hname]
    exact hmark
  case value =>
    intro v next hview w hw cell hcell
    by_cases hj : g.Joins v
    · obtain ⟨hd, hname, hset⟩ := hstar v hj next hview w hw
      refine (hset v.2 hj hd).2 cell ?_
      rw [← hname]
      exact hcell
    · left
      obtain ⟨⟨entry, index⟩, hentry⟩ := ne_none_iff_exists'.mp hj
      obtain ⟨hmem, hname⟩ := explicitEntry_mem hentry
      have hset := hsettled v.1 entry (mem_exports_of_mem_zipIdx hmem)
      cases entry with
      | starExport byteRange specifier => cases hname
      | localExport byteRange x localName => exact hset v.2 hname next hview w hw cell hcell
      | indirectExport byteRange x y specifier => exact hset v.2 hname next hview w hw cell hcell
      | namespaceExport byteRange x specifier => exact hset v.2 hname next hview w hw cell hcell
      | defaultExport byteRange => exact hset v.2 hname next hview w hw cell hcell

/-- The passes end in sound maps that nothing is left to add to. -/
lemma linkExports_ends (hc : g.Closed) (hu : g.UniqueNames) :
    ∃ s fuel₀, (∀ fuel, fuel₀ ≤ fuel → linkExports g fuel = some s) ∧
      Linking g.spelled g.Reexports s ∧
      Stable g.spelled.view s.val s.Marked g.spelled.Joins := by
  obtain ⟨last, hlast, hquiet, hend⟩ := saturate_ends (I := Linking g.spelled g.Reexports)
    (fun s hs => (hs.linkPass hc hu).1) (LinkState.left g.spelled)
    (fun s hs hchanged => (hs.linkPass hc hu).2.1.less rfl hchanged)
    (installExports g) (linking_installExports hc hu)
  obtain ⟨hl, -, hsettled⟩ := hlast.linkPass hc hu
  refine ⟨linkPass g last, _, hend, hl, hl.stable (fun m entry hentry => ?_) fun v hv => ?_⟩
  · obtain ⟨entry', hentry', rfl⟩ := mem_spelled.mp hentry
    exact (hsettled hquiet m entry' hentry').1
  · obtain ⟨entry, hentry, hne, hname⟩ := hv
    exact (hsettled hquiet v.1 entry hentry).2 hne v.2 hname

/-! ## The checks -/

/-- A name has a value, and is not ambiguous. -/
def LinkState.Supplies (s : LinkState n) (w : Fin n × String) : Prop :=
  ¬s.Marked w ∧ s.val w ≠ none

/-- The name an indirect export asks its target for. -/
def exportRequest (g : ModuleGraph n) (m : Fin n) : SyntaxExportEntry → Option (Fin n × String)
  | .indirectExport _ _ importedName specifier =>
    (resolvedModuleId (g m) specifier).map fun target => (target, importedName)
  | _ => none

/-- The name an import asks its target for. -/
def importRequest (g : ModuleGraph n) (m : Fin n) (entry : SyntaxImportEntry) :
    Option (Fin n × String) :=
  if entry.localName ≠ none ∧ entry.isNamespace = false then
    entry.importedName.bind fun importedName =>
      (resolvedModuleId (g m) entry.specifier).map fun target => (target, importedName)
  else
    none

/-- A check reads the maps and reports unless `ok`. -/
structure Checks (ok : Prop) (s s' : LinkState n) : Prop where
  exportsByModule : s'.exportsByModule = s.exportsByModule
  ambiguousNames : s'.ambiguousNames = s.ambiguousNames
  accepted : s'.diagnostics = [] ↔ s.diagnostics = [] ∧ ok

lemma Checks.pass {ok : Prop} (h : ok) : Checks ok s s := ⟨rfl, rfl, by simp [h]⟩

lemma Checks.report {ok : Prop} (h : ¬ok) (diagnostic : Diagnostic n) :
    Checks ok s (s.report diagnostic) :=
  ⟨rfl, rfl, by simp [LinkState.report, h]⟩

lemma Checks.trans {ok ok' : Prop} {s'' : LinkState n} (h : Checks ok s s')
    (h' : Checks ok' s' s'') : Checks (ok ∧ ok') s s'' where
  exportsByModule := h'.exportsByModule.trans h.exportsByModule
  ambiguousNames := h'.ambiguousNames.trans h.ambiguousNames
  accepted := by rw [h'.accepted, h.accepted, and_assoc]

lemma Checks.congr {ok ok' : Prop} (h : Checks ok s s') (hok : ok ↔ ok') : Checks ok' s s' where
  exportsByModule := h.exportsByModule
  ambiguousNames := h.ambiguousNames
  accepted := by rw [h.accepted, hok]

lemma Checks.supplies {ok : Prop} (h : Checks ok s s') (w : Fin n × String) :
    s'.Supplies w ↔ s.Supplies w := by
  unfold LinkState.Supplies LinkState.Marked LinkState.val
  rw [h.exportsByModule, h.ambiguousNames]

/-- Checks over a list, where each reads the maps the list started with. -/
lemma Checks.list {α β : Type} (f : LinkState n × β → α → LinkState n × β) (ok : α → Prop)
    (l : List α) (acc : LinkState n × β)
    (step : ∀ a ∈ l, ∀ acc' : LinkState n × β,
      (∀ w, acc'.1.Supplies w ↔ acc.1.Supplies w) → Checks (ok a) acc'.1 (f acc' a).1) :
    Checks (∀ a ∈ l, ok a) acc.1 (l.foldl f acc).1 := by
  have hall : ∀ acc' : LinkState n × β, (∀ w, acc'.1.Supplies w ↔ acc.1.Supplies w) →
      Checks (∀ a ∈ l, ok a) acc'.1 (l.foldl f acc').1 := by
    induction l with
    | nil => exact fun acc' _ => .pass fun a ha => absurd ha not_mem_nil
    | cons a l ih =>
      intro acc' hacc
      have h₁ := step a mem_cons_self acc' hacc
      have h₂ := ih (fun b hb => step b (mem_cons_of_mem _ hb)) (f acc' a)
        fun w => (h₁.supplies w).trans (hacc w)
      exact (h₁.trans h₂).congr (by simp)
  exact hall acc fun _ => .rfl

lemma checkIndirect_checks (hc : g.Closed) {entry : SyntaxExportEntry}
    (hentry : entry ∈ (g m).exports) :
    Checks (∀ w, exportRequest g m entry = some w → s.Supplies w) s
      (checkIndirect g m s entry) := by
  cases entry with
  | indirectExport byteRange exportedName importedName specifier =>
    obtain ⟨target, ht⟩ := ne_none_iff_exists'.mp ((hc m).2 _ hentry specifier rfl)
    have hok : (∀ w, exportRequest g m
        (.indirectExport byteRange exportedName importedName specifier) = some w →
          s.Supplies w) ↔ s.Supplies (target, importedName) := by
      simp [exportRequest, ht]
    refine .congr ?_ hok.symm
    simp only [checkIndirect, ht, any_some, bind_some, decide_eq_true_eq]
    split
    · next hmark => exact .report (fun h => h.1 hmark) _
    · next hmark =>
      split
      · next hget => exact .report (fun h => h.2 ((s.val_eq_none _).mpr hget)) _
      · next hget => exact .pass ⟨hmark, fun h => hget ((s.val_eq_none _).mp h)⟩
  | _ => exact .pass fun w hw => by cases hw

lemma linkImport_checks (hc : g.Closed) {entry : SyntaxImportEntry}
    (hentry : entry ∈ (g m).imports) (imports : List (LinkedModuleImport n)) :
    Checks (∀ w, importRequest g m entry = some w → s.Supplies w) s
      (linkImport g m (s, imports) entry).1 := by
  obtain ⟨target, ht⟩ := ne_none_iff_exists'.mp ((hc m).1 entry hentry)
  unfold linkImport
  cases hlocal : entry.localName with
  | none => exact .pass fun w hw => by simp [importRequest, hlocal] at hw
  | some localName =>
    cases himported : entry.importedName with
    | none => exact .pass fun w hw => by simp [importRequest, himported] at hw
    | some importedName =>
      simp only [ht]
      by_cases hns : entry.isNamespace = true
      · rw [if_pos hns]
        exact .pass fun w hw => by simp [importRequest, hns] at hw
      · rw [if_neg hns]
        have hok : (∀ w, importRequest g m entry = some w → s.Supplies w) ↔
            s.Supplies (target, importedName) := by
          simp [importRequest, hlocal, himported, ht, hns]
        refine .congr ?_ hok.symm
        split
        · next hmark => exact .report (fun h => h.1 hmark) _
        · next hmark =>
          split
          · next hget => exact .report (fun h => h.2 ((s.val_eq_none _).mpr hget)) _
          · next candidate hget =>
            exact .pass ⟨hmark, fun h => by
              rw [LinkState.val_of_get hget] at h
              cases h⟩

/-- The names that a module asks others for. -/
def ModuleGraph.Requests (g : ModuleGraph n) (m : Fin n) (w : Fin n × String) : Prop :=
  (∃ entry ∈ (g m).exports, exportRequest g m entry = some w) ∨
    ∃ entry ∈ (g m).imports, importRequest g m entry = some w

lemma linkModule_checks (hc : g.Closed) (m : Fin n)
    (acc : LinkState n × (Fin n → List (LinkedModuleImport n))) :
    Checks (∀ w, g.Requests m w → acc.1.Supplies w) acc.1 (linkModule g acc m).1 := by
  have h₁ : Checks (∀ entry ∈ (g m).exports, ∀ w, exportRequest g m entry = some w →
      acc.1.Supplies w) acc.1 ((g m).exports.foldl (checkIndirect g m) acc.1) := by
    have hlist := Checks.list
      (fun (acc : LinkState n × Unit) entry => (checkIndirect g m acc.1 entry, ()))
      (fun entry => ∀ w, exportRequest g m entry = some w → acc.1.Supplies w) (g m).exports
      (acc.1, ())
      fun entry hentry acc' hacc => (checkIndirect_checks hc hentry).congr (by simp only [hacc])
    have hfold : ∀ (l : List SyntaxExportEntry) (t : LinkState n),
        (l.foldl (fun acc entry => (checkIndirect g m acc.1 entry, ())) (t, ())).1 =
          l.foldl (checkIndirect g m) t := by
      intro l
      induction l with
      | nil => exact fun _ => rfl
      | cons a l ih => exact fun t => ih _
    rwa [hfold] at hlist
  set t := (g m).exports.foldl (checkIndirect g m) acc.1 with htdef
  have h₂ := Checks.list (linkImport g m)
    (fun entry => ∀ w, importRequest g m entry = some w → t.Supplies w) (g m).imports (t, [])
    fun entry hentry acc' hacc => by
      obtain ⟨t', imports⟩ := acc'
      exact (linkImport_checks hc hentry imports).congr (by simp only [hacc])
  refine (h₁.trans h₂).congr ?_
  simp only [h₁.supplies]
  constructor
  · rintro ⟨hexp, himp⟩ w (⟨entry, hentry, hw⟩ | ⟨entry, hentry, hw⟩)
    · exact hexp entry hentry w hw
    · exact himp entry hentry w hw
  · intro h
    exact ⟨fun entry hentry w hw => h w (.inl ⟨entry, hentry, hw⟩),
      fun entry hentry w hw => h w (.inr ⟨entry, hentry, hw⟩)⟩

/-! ## Linking -/

/-- The names whose resolution an environment of the graph needs: those of the indirect
exports, and those of the imports that bind no namespace. -/
inductive ModuleGraph.Required (g : ModuleGraph n) : Fin n → String → Prop
  | indirect {m : Fin n} {e : IndirectExportEntry n} (he : e ∈ indirectExportEntries (g m)) :
      g.Required m e.exportName
  | imported {m target : Fin n} {entry : SyntaxImportEntry} {localName importedName : String}
      (hentry : entry ∈ (g m).imports) (hlocal : entry.localName = some localName)
      (hname : entry.importedName = some importedName) (hns : entry.isNamespace = false)
      (ht : resolvedModuleId (g m) entry.specifier = some target) :
      g.Required target importedName

section
variable (hc : g.Closed) (hu : g.UniqueNames)
include hc hu

/-- An indirect export is a terminal, or follows a name that its module asks for. -/
lemma view_indirect {e : IndirectExportEntry n}
    (he : e ∈ indirectExportEntries (g m)) :
    (∃ cell, g.view (m, e.exportName) = .terminal cell) ∨
      ∃ w, g.view (m, e.exportName) = .follow [w] ∧ g.Requests m w := by
  obtain ⟨entry, hentry, hparse⟩ := mem_filterMap.mp he
  obtain ⟨index, -, hview⟩ := view_of_entry hu hentry (parseIndirect_key _ _ _ hparse)
  cases entry with
  | localExport byteRange exportedName localName =>
    simp only [parseIndirect] at hparse
    cases himp : importedBinding (g m) localName with
    | none => simp [himp] at hparse
    | some imported =>
      obtain ⟨hmem, hlocal, hsome⟩ := importedBinding_spec himp
      obtain ⟨target, ht⟩ := ne_none_iff_exists'.mp ((hc m).1 imported hmem)
      obtain ⟨importedName, hname⟩ := ne_none_iff_exists'.mp hsome
      simp only [himp] at hparse
      split at hparse
      · cases hparse
      · next hns =>
        right
        refine ⟨(target, importedName), ?_, .inr ⟨imported, hmem, ?_⟩⟩
        · rw [hview]
          simp [entryView, himp, hns, ht, hname]
        · simp [importRequest, hlocal, hns, hname, ht]
  | indirectExport byteRange exportedName importedName specifier =>
    obtain ⟨target, ht⟩ := ne_none_iff_exists'.mp ((hc m).2 _ hentry specifier rfl)
    right
    refine ⟨(target, importedName), ?_, .inl ⟨_, hentry, ?_⟩⟩
    · rw [hview]
      simp [entryView, ht]
    · simp [exportRequest, ht]
  | namespaceExport byteRange exportedName specifier =>
    obtain ⟨target, ht⟩ := ne_none_iff_exists'.mp ((hc m).2 _ hentry specifier rfl)
    left
    refine ⟨⟨target, .namespace target⟩, ?_⟩
    rw [hview]
    simp [entryView, ht]
  | starExport byteRange specifier => cases hparse
  | defaultExport byteRange => cases hparse

/-- An import's request is a required name, and an indirect export's is what that follows. -/
lemma ModuleGraph.Requests.required {w : Fin n × String}
    (h : g.Requests m w) :
    g.Required w.1 w.2 ∨
      ∃ e ∈ indirectExportEntries (g m), g.view (m, e.exportName) = .follow [w] := by
  rcases h with ⟨entry, hentry, hw⟩ | ⟨entry, hentry, hw⟩
  · right
    cases entry with
    | indirectExport byteRange exportedName importedName specifier =>
      obtain ⟨target, ht⟩ := ne_none_iff_exists'.mp ((hc m).2 _ hentry specifier rfl)
      obtain ⟨index, -, hview⟩ := view_of_entry hu hentry rfl
      simp only [exportRequest, ht, map_some, some.injEq] at hw
      refine ⟨⟨exportedName, some target, .name importedName⟩, ?_, ?_⟩
      · exact mem_filterMap.mpr ⟨_, hentry, by simp [parseIndirect, ht]⟩
      · rw [hview, ← hw]
        simp [entryView, ht]
    | _ => cases hw
  · left
    unfold importRequest at hw
    split at hw
    · next hcond =>
      obtain ⟨importedName, hname, hw⟩ := bind_eq_some_iff.mp hw
      obtain ⟨target, ht, rfl⟩ := map_eq_some_iff.mp hw
      obtain ⟨localName, hlocal⟩ := ne_none_iff_exists'.mp hcond.1
      exact .imported hentry hlocal hname hcond.2 ht
    · cases hw

/-- Outside the star exports, a name follows what its module asks for. -/
lemma supplied_of_requests
    (h : ∀ m w, g.Requests m w → s.val w ≠ none) : Supplied g.view s.val g.Joins := by
  intro v hj next hview w hw
  obtain ⟨⟨entry, index⟩, hentry⟩ := ne_none_iff_exists'.mp hj
  obtain ⟨hmem, hname⟩ := explicitEntry_mem hentry
  have hexp := mem_exports_of_mem_zipIdx hmem
  have hparse : ∃ e, parseIndirect (g v.1) entry = some e := by
    rw [ModuleGraph.view, hentry] at hview
    cases entry with
    | localExport byteRange exportedName localName =>
      simp only [entryView] at hview
      cases himp : importedBinding (g v.1) localName with
      | none => simp [himp] at hview
      | some imported =>
        obtain ⟨importedName, hin⟩ := ne_none_iff_exists'.mp (importedBinding_spec himp).2.2
        by_cases hns : imported.isNamespace = true
        · simp [himp, hns] at hview
        · simp [parseIndirect, himp, hns, hin]
    | indirectExport byteRange exportedName importedName specifier => exact ⟨_, rfl⟩
    | namespaceExport byteRange exportedName specifier => exact ⟨_, rfl⟩
    | starExport byteRange specifier => cases hname
    | defaultExport byteRange => cases hview
  obtain ⟨e, he⟩ := hparse
  have hkey := parseIndirect_key _ _ _ he
  rw [hname, some.injEq] at hkey
  rcases view_indirect hc hu (mem_filterMap.mpr ⟨entry, hexp, he⟩) with
    ⟨cell, hview'⟩ | ⟨w', hview', hw'⟩
  · rw [← hkey, hview] at hview'
    cases hview'
  · rw [← hkey, hview] at hview'
    cases hview'
    rw [mem_singleton.mp hw]
    exact h v.1 w' hw'

/-- Every request is supplied exactly when every required name leads to one cell. -/
lemma requests_supplied (h : Linking g pending s)
    (hstable : Stable g.view s.val s.Marked g.Joins) :
    (∀ m w, g.Requests m w → s.Supplies w) ↔
      ∀ m name, g.Required m name → ∃ cell, Uniquely g.view (m, name) cell := by
  constructor
  · intro hall
    have hsup : Supplied g.view s.val g.Joins := supplied_of_requests hc hu fun m w hw =>
      (hall m w hw).2
    have huniq : ∀ m w, g.Requests m w → ∃ cell, Uniquely g.view w cell := by
      intro m w hw
      obtain ⟨cell, hcell⟩ := ne_none_iff_exists'.mp (hall m w hw).2
      exact ⟨cell, hstable.uniquely h.sound hsup hcell⟩
    intro m name hreq
    cases hreq with
    | indirect he =>
      rcases view_indirect hc hu he with ⟨cell, hview⟩ | ⟨w, hview, hw⟩
      · exact ⟨cell, uniquely_of_terminal hview⟩
      · obtain ⟨cell, hcell⟩ := huniq m w hw
        exact ⟨cell, (uniquely_follow hview).mpr hcell⟩
    | @imported m' _ entry localName _ hentry hlocal hname hns ht =>
      refine huniq m' _ (.inr ⟨entry, hentry, ?_⟩)
      simp [importRequest, hlocal, hns, hname, ht]
  · intro hall m w hw
    have huniq : ∃ cell, Uniquely g.view w cell := by
      rcases hw.required hc hu with hreq | ⟨e, he, hview⟩
      · exact hall _ _ hreq
      · obtain ⟨cell, hcell⟩ := hall m _ (.indirect he)
        exact ⟨cell, (uniquely_follow hview).mp hcell⟩
    obtain ⟨cell, hcell⟩ := huniq
    have hval := hstable.assigned h.sound hcell
    refine ⟨fun hmark => ?_, ?_⟩
    · rw [h.sound.disjoint w hmark] at hval
      cases hval
    · rw [hval]
      simp

end

/-- The maps hold exactly the cells that names lead to, each from its own module. -/
lemma Linking.get_iff (h : Linking g pending s) (hstable : Stable g.view s.val s.Marked g.Joins)
    (hsup : Supplied g.view s.val g.Joins) (candidate : ExportCandidate n) :
    (s.exportsByModule m).get name = some candidate ↔
      Uniquely g.view (m, name) candidate.cell ∧
        candidate.sourceModuleId = candidate.cell.moduleId := by
  constructor
  · intro hget
    exact ⟨hstable.uniquely h.sound hsup (LinkState.val_of_get hget), h.source _ _ _ hget⟩
  · rintro ⟨huniq, hsource⟩
    have hval := hstable.assigned h.sound huniq
    obtain ⟨candidate', hget, hcell⟩ := map_eq_some_iff.mp hval
    have hsource' := h.source _ _ _ hget
    rw [hget, some.injEq]
    obtain ⟨cell, sourceModuleId⟩ := candidate
    obtain ⟨cell', sourceModuleId'⟩ := candidate'
    simp only at hcell hsource hsource' ⊢
    rw [hcell, hsource, hsource', hcell]

lemma requests_spelled {w : Fin n × String} : g.spelled.Requests m w ↔ g.Requests m w := by
  have hrequest : ∀ entry, exportRequest g.spelled m (spellEntry (g m) entry) =
      exportRequest g m entry := by
    intro entry
    rcases spellEntry_cases (g m) entry with hsame | ⟨_, _, _, _, rfl, _, _, hspell⟩
    · rw [hsame]
      cases entry <;> rfl
    · rw [hspell]
      rfl
  refine or_congr ⟨?_, ?_⟩ .rfl
  · rintro ⟨entry, hentry, hw⟩
    obtain ⟨entry', hentry', rfl⟩ := mem_spelled.mp hentry
    exact ⟨entry', hentry', (hrequest entry').symm.trans hw⟩
  · rintro ⟨entry, hentry, hw⟩
    exact ⟨_, mem_spelled.mpr ⟨entry, hentry, rfl⟩, (hrequest entry).trans hw⟩

/-- Linking ends, in the maps that the passes end in. It reports no error exactly when
ResolveExport finds a binding for every required name of the spelled graph. -/
lemma linkModuleGraph_ends (hc : g.Closed) (hu : g.UniqueNames) :
    ∃ s fuel₀ result, (∀ fuel, fuel₀ ≤ fuel →
        linkExports g fuel = some s ∧ linkModuleGraph g fuel = some result) ∧
      Linking g.spelled g.Reexports s ∧
      Stable g.spelled.view s.val s.Marked g.spelled.Joins ∧
      (result.diagnostics = [] ↔ ∀ m name, g.spelled.Required m name →
        ∃ cell, g.spelled.ResolveExport m name (.binding cell)) ∧
      (result.diagnostics = [] →
        Supplied g.spelled.view s.val g.spelled.Joins ∧
        ∃ modules, result.modules = some modules ∧
          ∀ m, (modules m).exports = s.exportsByModule m) := by
  obtain ⟨s, fuel₀, hend, h, hstable⟩ := linkExports_ends hc hu
  have hchecks := Checks.list (linkModule g) (fun m => ∀ w, g.Requests m w → s.Supplies w)
    (finRange n) (s, fun _ => [])
    fun m _ acc' hacc => (linkModule_checks hc m acc').congr (by simp only [hacc])
  set out := (finRange n).foldl (linkModule g) (s, fun _ => []) with hout
  have hok : out.1.diagnostics = [] ↔ ∀ m name, g.spelled.Required m name →
      ∃ cell, g.spelled.ResolveExport m name (.binding cell) := by
    rw [hchecks.accepted]
    simp only [h.accepted, true_and, mem_finRange, forall_const,
      resolveExport_binding hc.spelled hu.spelled, ← requests_spelled (g := g)]
    exact requests_supplied hc.spelled hu.spelled h hstable
  have hrun : ∀ fuel, fuel₀ ≤ fuel → linkModuleGraph g fuel =
      if out.1.diagnostics ≠ [] then some ⟨out.1.diagnostics, none⟩
      else some ⟨[], some fun m => ⟨out.1.exportsByModule m, out.2 m⟩⟩ := by
    intro fuel hfuel
    unfold linkModuleGraph
    rw [hend fuel hfuel]
  by_cases hd : out.1.diagnostics = []
  · refine ⟨s, fuel₀, ⟨[], some fun m => ⟨out.1.exportsByModule m, out.2 m⟩⟩,
      fun fuel hfuel => ⟨hend fuel hfuel, ?_⟩, h, hstable, ⟨fun _ => hok.mp hd, fun _ => rfl⟩,
      fun _ => ⟨?_, _, rfl, fun m => ?_⟩⟩
    · rw [hrun fuel hfuel, if_neg (not_not.mpr hd)]
    · exact supplied_of_requests hc.spelled hu.spelled fun m w hw =>
        ((hchecks.accepted.mp hd).2 m (mem_finRange m) w (requests_spelled.mp hw)).2
    · exact congrFun hchecks.exportsByModule m
  · refine ⟨s, fuel₀, ⟨out.1.diagnostics, none⟩, fun fuel hfuel => ⟨hend fuel hfuel, ?_⟩, h,
      hstable, hok, fun h => absurd h hd⟩
    rw [hrun fuel hfuel, if_pos hd]

/-- Linking ends. It reports no error exactly when ResolveExport finds a binding for every
required name, and then the export maps hold exactly the bindings that ResolveExport finds. -/
theorem linkModuleGraph_resolves (hc : g.Closed) (hu : g.UniqueNames)
    (hn : g.NoNamespaceReexport) :
    ∃ fuel₀ result, (∀ fuel, fuel₀ ≤ fuel → linkModuleGraph g fuel = some result) ∧
      (result.diagnostics = [] ↔
        ∀ m name, g.Required m name → ∃ cell, g.ResolveExport m name (.binding cell)) ∧
      (result.diagnostics = [] →
        ∃ modules, result.modules = some modules ∧ ∀ m name candidate,
          (modules m).exports.get name = some candidate ↔
            g.ResolveExport m name (.binding candidate.cell) ∧
              candidate.sourceModuleId = candidate.cell.moduleId) := by
  obtain ⟨s, fuel₀, result, hend, h, hstable, hok, hmodules⟩ := linkModuleGraph_ends hc hu
  rw [hn.spelled_eq] at h hstable hok hmodules
  refine ⟨fuel₀, result, fun fuel hfuel => (hend fuel hfuel).2, hok, fun hd => ?_⟩
  obtain ⟨hsup, modules, hresult, hexports⟩ := hmodules hd
  refine ⟨modules, hresult, fun m name candidate => ?_⟩
  rw [hexports, resolveExport_binding hc hu]
  exact h.get_iff hstable hsup candidate

local instance threeModules : @NeZero ℕ Zero.ofOfNat0 (2 + 1) := ⟨by decide⟩

/-- Modules 0 and 1 star-export each other and both star-export module 2, which exports a
default and a name that module 0 imports from module 1. -/
def starCycle : ModuleGraph 3 :=
  let one : SyntaxModuleSpecifier := ⟨"./one.js", ⟨0, 10⟩⟩
  let two : SyntaxModuleSpecifier := ⟨"./two.js", ⟨20, 30⟩⟩
  let zero : SyntaxModuleSpecifier := ⟨"./zero.js", ⟨0, 10⟩⟩
  ![{ imports := [⟨⟨40, 50⟩, some "value", some "local", false, one⟩]
      exports := [.starExport none one, .starExport none two, .localExport none "again" "local"]
      resolutions := [(one, 1), (two, 2)] },
    { imports := []
      exports := [.starExport none zero, .starExport none two]
      resolutions := [(zero, 0), (two, 2)] },
    { imports := []
      exports := [.defaultExport none, .localExport none "value" "value"]
      resolutions := [] }]

lemma linkModuleGraph_resolves_starCycle :
    ∃ fuel₀ result, (∀ fuel, fuel₀ ≤ fuel → linkModuleGraph starCycle fuel = some result) ∧
      (result.diagnostics = [] ↔ ∀ m name, starCycle.Required m name →
        ∃ cell, starCycle.ResolveExport m name (.binding cell)) ∧
      (result.diagnostics = [] →
        ∃ modules, result.modules = some modules ∧ ∀ m name candidate,
          (modules m).exports.get name = some candidate ↔
            starCycle.ResolveExport m name (.binding candidate.cell) ∧
              candidate.sourceModuleId = candidate.cell.moduleId) := by
  have hc : starCycle.Closed := by
    have himports : ∀ m, ∀ entry ∈ (starCycle m).imports,
        resolvedModuleId (starCycle m) entry.specifier ≠ none := by decide
    have hexports : ∀ m, ∀ entry ∈ (starCycle m).exports, (entry.specifier.all fun specifier =>
        (resolvedModuleId (starCycle m) specifier).isSome) = true := by decide
    refine fun m => ⟨himports m, fun entry hentry specifier hspec => ?_⟩
    have hall := hexports m entry hentry
    rw [hspec, all_some] at hall
    exact isSome_iff_ne_none.mp hall
  have hu : starCycle.UniqueNames := by
    unfold ModuleGraph.UniqueNames
    decide
  have hn : starCycle.NoNamespaceReexport := by
    have hall : ∀ m, ∀ entry ∈ (starCycle m).imports, entry.isNamespace = false := by decide
    exact fun m _ _ _ _ imported himp => hall m imported (importedBinding_spec himp).1
  exact linkModuleGraph_resolves hc hu hn

/-- The cycle links: both modules that star-export module 2 offer its name. -/
example : (linkModuleGraph starCycle 10).map (fun r => (r.diagnostics.length,
    r.modules.map fun m => ((m 1).exports.get "value").map fun c => c.cell)) =
    some (0, some (some ⟨2, .identifier "value"⟩)) := by decide +kernel

/-! ## Namespaces behind star exports

The linker gives every module one namespace cell, and every export of the namespace is that
cell, in whichever form a module writes it. Its decision which names are ambiguous is that of
ResolveExport on the spelled graph.
-/

variable {target : Fin n}

/-- A module exports the namespace of `target` under a name: as `export * as name`, or as an
export of a namespace import. -/
def ModuleGraph.ExportsNamespace (g : ModuleGraph n) (m : Fin n) (name : String)
    (target : Fin n) : Prop :=
  ∃ entry ∈ (g m).exports, ∃ byteRange specifier,
    spellEntry (g m) entry = .namespaceExport byteRange name specifier ∧
      resolvedModuleId (g m) specifier = some target

lemma ModuleGraph.ExportsNamespace.view (hu : g.UniqueNames)
    (h : g.ExportsNamespace m name target) :
    g.spelled.view (m, name) = .terminal ⟨target, .namespace target⟩ := by
  obtain ⟨entry, hentry, byteRange, specifier, hspell, ht⟩ := h
  obtain ⟨index, -, hview⟩ := view_of_entry hu.spelled (mem_spelled.mpr ⟨entry, hentry, hspell⟩)
    (show _ = some name from rfl)
  rw [hview]
  simp only [entryView, resolvedModuleId_spelled, ht]

/-- The cell of a linked name is the cell of the namespace, whatever the form. -/
lemma Linking.get_namespace {pending : Fin n × String → Prop}
    (h : Linking g.spelled pending s) (hu : g.UniqueNames)
    (hstable : Stable g.spelled.view s.val s.Marked g.spelled.Joins)
    (hns : g.ExportsNamespace m name target) :
    (s.exportsByModule m).get name = some (namespaceCandidate target) := by
  have hval := hstable.terminal _ _ (hns.view hu)
  obtain ⟨⟨cell, sourceModuleId⟩, hget, hcell⟩ := Option.map_eq_some_iff.mp hval
  have hsource := h.source _ _ _ hget
  dsimp only at hcell hsource
  rw [hget, hsource, hcell]
  rfl

/-- Linking decides like ResolveExport on the spelled graph: the same graphs have no error, and
then the same names are ambiguous and the same names are bound, to the same cells. Every
export of a namespace is the one cell of that namespace. -/
theorem linkModuleGraph_namespaces (hc : g.Closed) (hu : g.UniqueNames) :
    ∃ s fuel₀ result, (∀ fuel, fuel₀ ≤ fuel →
        linkExports g fuel = some s ∧ linkModuleGraph g fuel = some result) ∧
      (result.diagnostics = [] ↔ ∀ m name, g.spelled.Required m name →
        ∃ cell, g.spelled.ResolveExport m name (.binding cell)) ∧
      (result.diagnostics = [] → ∃ modules, result.modules = some modules ∧ ∀ m name,
        (name ∈ s.ambiguousNames m ↔ g.spelled.ResolveExport m name .ambiguous) ∧
          ∀ candidate, (modules m).exports.get name = some candidate ↔
            g.spelled.ResolveExport m name (.binding candidate.cell) ∧
              candidate.sourceModuleId = candidate.cell.moduleId) ∧
      ∀ m name target, g.ExportsNamespace m name target →
        g.spelled.ResolveExport m name (.binding ⟨target, .namespace target⟩) ∧
          (s.exportsByModule m).get name = some (namespaceCandidate target) := by
  obtain ⟨s, fuel₀, result, hend, h, hstable, hok, hmodules⟩ := linkModuleGraph_ends hc hu
  refine ⟨s, fuel₀, result, hend, hok, fun hd => ?_, fun m name target hns => ⟨?_, ?_⟩⟩
  · obtain ⟨hsup, modules, hresult, hexports⟩ := hmodules hd
    refine ⟨modules, hresult, fun m name => ⟨?_, fun candidate => ?_⟩⟩
    · rw [resolveExport_ambiguous hc.spelled hu.spelled]
      show s.Marked (m, name) ↔ _
      exact hstable.marked_iff h.sound hsup
    · rw [hexports, resolveExport_binding hc.spelled hu.spelled]
      exact h.get_iff hstable hsup candidate
  · rw [resolveExport_binding hc.spelled hu.spelled]
    exact uniquely_of_terminal (hns.view hu)
  · exact h.get_namespace hu hstable hns

local instance fourModules : @NeZero ℕ Zero.ofOfNat0 (3 + 1) := ⟨by decide⟩

/-- Modules 1 and 2 import the namespace of module 0 and export it as `ns`. Module 3
star-exports both. -/
def namespaceDiamond : ModuleGraph 4 :=
  let target : SyntaxModuleSpecifier := ⟨"./target.js", ⟨20, 33⟩⟩
  let left : SyntaxModuleSpecifier := ⟨"./left.js", ⟨14, 25⟩⟩
  let right : SyntaxModuleSpecifier := ⟨"./right.js", ⟨40, 52⟩⟩
  let reexport : ModuleGraphNode 4 :=
    { imports := [⟨⟨0, 34⟩, some "*", some "ns", true, target⟩]
      exports := [.localExport none "ns" "ns"]
      resolutions := [(target, 0)] }
  ![{ imports := [], exports := [], resolutions := [] }, reexport, reexport,
    { imports := []
      exports := [.starExport none left, .starExport none right]
      resolutions := [(left, 1), (right, 2)] }]

lemma namespaceDiamond_closed : namespaceDiamond.Closed := by
  have himports : ∀ m, ∀ entry ∈ (namespaceDiamond m).imports,
      resolvedModuleId (namespaceDiamond m) entry.specifier ≠ none := by decide
  have hexports : ∀ m, ∀ entry ∈ (namespaceDiamond m).exports,
      (entry.specifier.all fun specifier =>
        (resolvedModuleId (namespaceDiamond m) specifier).isSome) = true := by decide
  refine fun m => ⟨himports m, fun entry hentry specifier hspec => ?_⟩
  have hall := hexports m entry hentry
  rw [hspec, Option.all_some] at hall
  exact Option.isSome_iff_ne_none.mp hall

lemma namespaceDiamond_uniqueNames : namespaceDiamond.UniqueNames := by
  unfold ModuleGraph.UniqueNames
  decide

/-- As the graph stands, ResolveExport takes the two exports for two bindings. -/
lemma namespaceDiamond_ambiguous :
    namespaceDiamond.ResolveExport 3 "ns" .ambiguous ∧
      (linkModuleGraph namespaceDiamond 10).map (fun result => (result.diagnostics.length,
        result.modules.map fun modules => (modules 3).exports.get "ns")) =
        some (0, some (some (namespaceCandidate 0))) :=
  ⟨⟨3, [(3, "ns"), (1, "ns"), (2, "ns")], by decide +kernel⟩, by decide +kernel⟩

/-- Spelled out, they are one binding, and the linker keeps it. -/
lemma linkModuleGraph_namespaces_diamond :
    let g := namespaceDiamond
    ∃ s fuel₀ result, (∀ fuel, fuel₀ ≤ fuel →
        linkExports g fuel = some s ∧ linkModuleGraph g fuel = some result) ∧
      (result.diagnostics = [] ↔ ∀ m name, g.spelled.Required m name →
        ∃ cell, g.spelled.ResolveExport m name (.binding cell)) ∧
      (result.diagnostics = [] → ∃ modules, result.modules = some modules ∧ ∀ m name,
        (name ∈ s.ambiguousNames m ↔ g.spelled.ResolveExport m name .ambiguous) ∧
          ∀ candidate, (modules m).exports.get name = some candidate ↔
            g.spelled.ResolveExport m name (.binding candidate.cell) ∧
              candidate.sourceModuleId = candidate.cell.moduleId) ∧
      ∀ m name target, g.ExportsNamespace m name target →
        g.spelled.ResolveExport m name (.binding ⟨target, .namespace target⟩) ∧
          (s.exportsByModule m).get name = some (namespaceCandidate target) :=
  linkModuleGraph_namespaces namespaceDiamond_closed namespaceDiamond_uniqueNames

/-! ## Imports -/

/-- An import that binds a local name. -/
def SyntaxImportEntry.binds (entry : SyntaxImportEntry) : Bool :=
  entry.localName.isSome && entry.importedName.isSome

/-- What an import is linked to: the namespace of its target, or the cell ResolveExport finds. -/
def ModuleGraph.Imports (g : ModuleGraph n) (m : Fin n) (entry : SyntaxImportEntry)
    (linked : LinkedModuleImport n) : Prop :=
  ∃ localName importedName target, entry.localName = some localName ∧
    entry.importedName = some importedName ∧
    resolvedModuleId (g m) entry.specifier = some target ∧
    if entry.isNamespace then linked = ⟨⟨target, .namespace target⟩, "*", localName, some target⟩
    else ∃ cell, g.spelled.ResolveExport target importedName (.binding cell) ∧
      linked = ⟨cell, importedName, localName, none⟩

/-- The imports of every module, in the order of their entries. -/
def ModuleGraph.ImportsAll (g : ModuleGraph n) (m : Fin n) :
    List (LinkedModuleImport n) → Prop :=
  Forall₂ (g.Imports m) ((g m).imports.filter SyntaxImportEntry.binds)

section

variable (hc : g.Closed) {t : LinkState n} (hexports : t.exportsByModule = s.exportsByModule)
  (hambiguous : t.ambiguousNames = s.ambiguousNames)
  (hresolves : ∀ m name candidate, (s.exportsByModule m).get name = some candidate →
    g.spelled.ResolveExport m name (.binding candidate.cell))
  (hsupplies : ∀ m w, g.Requests m w → s.Supplies w)
include hc hexports hambiguous hresolves hsupplies

lemma linkImports_imports {l : List SyntaxImportEntry} (hl : ∀ entry ∈ l, entry ∈ (g m).imports)
    (imports : List (LinkedModuleImport n)) : ∃ linked,
      Forall₂ (g.Imports m) (l.filter SyntaxImportEntry.binds) linked ∧
      l.foldl (linkImport g m) (t, imports) = (t, imports ++ linked) := by
  induction l generalizing imports with
  | nil => exact ⟨[], .nil, by rw [append_nil]; rfl⟩
  | cons entry l ih =>
    have ih := ih fun other hmem => hl other (mem_cons_of_mem _ hmem)
    have hentry := hl entry mem_cons_self
    rw [foldl_cons]
    cases hbinds : entry.binds with
    | false =>
      -- It is passed over.
      obtain ⟨linked, hlinked, hrest⟩ := ih imports
      refine ⟨linked, by rwa [filter_cons_of_neg (by simp [hbinds])], ?_⟩
      rw [← hrest]
      congr 1
      unfold linkImport
      cases hlocal : entry.localName <;> cases himported : entry.importedName <;>
        simp_all [SyntaxImportEntry.binds]
    | true =>
      have hone : ∃ one, g.Imports m entry one ∧
          linkImport g m (t, imports) entry = (t, imports ++ [one]) := by
        obtain ⟨hlocal, himported⟩ := Bool.and_eq_true_iff.mp hbinds
        obtain ⟨localName, hlocal⟩ := Option.isSome_iff_exists.mp hlocal
        obtain ⟨importedName, himported⟩ := Option.isSome_iff_exists.mp himported
        obtain ⟨target, ht⟩ := Option.ne_none_iff_exists'.mp ((hc m).1 entry hentry)
        simp only [ModuleGraph.Imports, linkImport, hlocal, himported, ht, hexports, hambiguous]
        by_cases hns : entry.isNamespace = true
        · exact ⟨_, ⟨_, _, _, rfl, rfl, rfl, by rw [if_pos hns]⟩, if_pos hns⟩
        · -- Its request was supplied, so that the map of the target has the name.
          obtain ⟨hmarked, hval⟩ := hsupplies m (target, importedName)
            (.inr ⟨entry, hentry, by simp [importRequest, hlocal, himported, ht, hns]⟩)
          cases hget : (s.exportsByModule target).get importedName with
          | none => exact absurd ((s.val_eq_none _).mpr hget) hval
          | some candidate =>
            refine ⟨⟨candidate.cell, importedName, localName, none⟩, ⟨_, _, _, rfl, rfl, rfl, ?_⟩, ?_⟩
            · rw [if_neg hns]
              exact ⟨_, hresolves target importedName candidate hget, rfl⟩
            · rw [if_neg hns]
              exact if_neg hmarked
      obtain ⟨one, hfirst, hone⟩ := hone
      obtain ⟨linked, hlinked, hrest⟩ := ih (imports ++ [one])
      rw [filter_cons_of_pos hbinds, hone, hrest, append_assoc]
      exact ⟨one :: linked, .cons hfirst hlinked, rfl⟩

/-- The modules are linked one after the other, and none changes the maps. -/
lemma linkModules_imports (modules : List (Fin n)) (imports : Fin n → List (LinkedModuleImport n))
    (hm : m ∈ modules ∨ g.ImportsAll m (imports m)) :
    g.ImportsAll m ((modules.foldl (linkModule g) (t, imports)).2 m) := by
  induction modules generalizing t imports with
  | nil => exact hm.resolve_left not_mem_nil
  | cons a modules ih =>
    obtain ⟨hexports, hambiguous⟩ := List.foldlRecOn (g a).exports (checkIndirect g a)
      (motive := fun t => t.exportsByModule = s.exportsByModule ∧
        t.ambiguousNames = s.ambiguousNames) ⟨hexports, hambiguous⟩ fun t ht entry _ => by
          unfold checkIndirect
          dsimp only
          repeat' split
          all_goals exact ht
    obtain ⟨linked, hlinked, hrun⟩ := linkImports_imports hc hexports hambiguous hresolves hsupplies
      (fun _ hmem => hmem) []
    rw [foldl_cons, linkModule, hrun]
    apply ih hexports hambiguous
    by_cases hne : m = a
    · subst hne
      exact .inr (by rwa [Function.update_self])
    · rw [Function.update_of_ne hne]
      exact hm.imp_left fun hmem => (mem_cons.mp hmem).resolve_left hne

end

end Oseo.ModuleLinking
