import Oseo.Library.InsertionMap
import Oseo.Library.Saturation
import Oseo.Library.Folds
import Oseo.Library.TerminalSearch
import Mathlib.Data.Finset.Prod
import Mathlib.Data.Fintype.Basic

/-!
# Linking a module graph

The syntax that `linkModuleGraph` of `modules.ts` reads, and ResolveExport (16.2.1.7.2.2) on it, with
its one resolve set that every nested call appends to.

* Modules are numbered in the order of `graph.modules`;
* an entry keeps the byte range its diagnostics carry.
-/

namespace Oseo.ModuleLinking

/-- A half-open range of source bytes. -/
structure ByteRange where
  start : ℕ
  stop : ℕ
deriving DecidableEq, Repr

/-- A module specifier: two are the same request when value and place agree. -/
structure SyntaxModuleSpecifier where
  value : String
  byteRange : ByteRange
deriving DecidableEq, Repr

/-- One import entry. A namespace import has the requested name `"*"`, and so may an import
by a string name: only `isNamespace` tells them apart. -/
structure SyntaxImportEntry where
  byteRange : ByteRange
  importedName : Option String
  localName : Option String
  isNamespace : Bool
  specifier : SyntaxModuleSpecifier
deriving DecidableEq, Repr

/-- One export entry. -/
inductive SyntaxExportEntry
  | localExport (byteRange : Option ByteRange) (exportedName localName : String)
  | indirectExport (byteRange : Option ByteRange) (exportedName importedName : String)
      (specifier : SyntaxModuleSpecifier)
  | namespaceExport (byteRange : Option ByteRange) (exportedName : String)
      (specifier : SyntaxModuleSpecifier)
  | starExport (byteRange : Option ByteRange) (specifier : SyntaxModuleSpecifier)
  | defaultExport (byteRange : Option ByteRange)
deriving DecidableEq, Repr

/-- The name an entry exports, if it exports one. -/
def SyntaxExportEntry.exportedName : SyntaxExportEntry → Option String
  | .localExport _ exportedName _ => some exportedName
  | .indirectExport _ exportedName _ _ => some exportedName
  | .namespaceExport _ exportedName _ => some exportedName
  | .starExport _ _ => none
  | .defaultExport _ => some "default"

/-- The range of an entry's diagnostics. -/
def SyntaxExportEntry.byteRange : SyntaxExportEntry → Option ByteRange
  | .localExport byteRange _ _ => byteRange
  | .indirectExport byteRange _ _ _ => byteRange
  | .namespaceExport byteRange _ _ => byteRange
  | .starExport byteRange _ => byteRange
  | .defaultExport byteRange => byteRange

/-- The specifier of an entry, if it requests a module. -/
def SyntaxExportEntry.specifier : SyntaxExportEntry → Option SyntaxModuleSpecifier
  | .localExport _ _ _ => none
  | .indirectExport _ _ _ specifier => some specifier
  | .namespaceExport _ _ specifier => some specifier
  | .starExport _ specifier => some specifier
  | .defaultExport _ => none

/-- One parsed module with its resolutions. -/
structure ModuleGraphNode (n : ℕ) where
  imports : List SyntaxImportEntry
  exports : List SyntaxExportEntry
  resolutions : List (SyntaxModuleSpecifier × Fin n)
deriving DecidableEq

/-- The modules of a graph, in order. -/
abbrev ModuleGraph (n : ℕ) := Fin n → ModuleGraphNode n

/-- The module a specifier was resolved to. -/
def resolvedModuleId {n : ℕ} (module : ModuleGraphNode n) (specifier : SyntaxModuleSpecifier) :
    Option (Fin n) :=
  (module.resolutions.find? fun resolution => resolution.1 = specifier).map Prod.snd

/-- The import entry that binds a local name. -/
def importedBinding {n : ℕ} (module : ModuleGraphNode n) (localName : String) :
    Option SyntaxImportEntry :=
  module.imports.find? fun entry => entry.localName = some localName ∧ entry.importedName ≠ none

/-- The local name of a cell. The compiler's own names, `*default:index*` and
`*namespace:module*`, are no identifiers. -/
inductive CellName (n : ℕ)
  | identifier (name : String)
  | default (index : ℕ)
  | namespace (module : Fin n)
deriving DecidableEq, Repr

/-- One runtime cell: a module and a local name in it. -/
structure ModuleCell (n : ℕ) where
  moduleId : Fin n
  localName : CellName n
deriving DecidableEq, Repr

/-! ## What a built graph promises -/

/-- Every specifier of an import or export entry was resolved. -/
def ModuleGraph.Closed {n : ℕ} (g : ModuleGraph n) : Prop :=
  ∀ m, (∀ entry ∈ (g m).imports, resolvedModuleId (g m) entry.specifier ≠ none) ∧
    ∀ entry ∈ (g m).exports, ∀ specifier, entry.specifier = some specifier →
      resolvedModuleId (g m) specifier ≠ none

/-- No module exports a name twice. -/
def ModuleGraph.UniqueNames {n : ℕ} (g : ModuleGraph n) : Prop :=
  ∀ m, ((g m).exports.filterMap SyntaxExportEntry.exportedName).Nodup

/-- No module exports the local name of a namespace import. -/
def ModuleGraph.NoNamespaceReexport {n : ℕ} (g : ModuleGraph n) : Prop :=
  ∀ m byteRange exportedName localName,
    .localExport byteRange exportedName localName ∈ (g m).exports →
    ∀ imported, importedBinding (g m) localName = some imported → imported.isNamespace = false

/-! ## ResolveExport -/

variable {n : ℕ}

/-! ## ParseModule -/

/-- A local export: its name and the binding it exports. -/
structure LocalExportEntry (n : ℕ) where
  exportName : String
  localName : CellName n

/-- The `[[ImportName]]` of an indirect export. -/
inductive ImportName
  | all
  | name (importName : String)

/-- An indirect export: its name, the module it requests, and the name there. -/
structure IndirectExportEntry (n : ℕ) where
  exportName : String
  importedModule : Option (Fin n)
  importName : ImportName

/-- An export entry is local when it exports a binding of the module itself, or the
namespace object that an import binds. The index tells where a default export stands. -/
def parseLocal (module : ModuleGraphNode n) :
    SyntaxExportEntry × ℕ → Option (LocalExportEntry n)
  | (.localExport _ exportName localName, _) =>
    match importedBinding module localName with
    | none => some ⟨exportName, .identifier localName⟩
    | some ie => if ie.isNamespace then some ⟨exportName, .identifier localName⟩ else none
  | (.defaultExport _, index) => some ⟨"default", .default index⟩
  | _ => none

/-- An export entry is indirect when it names an export of another module, or its
namespace. -/
def parseIndirect (module : ModuleGraphNode n) :
    SyntaxExportEntry → Option (IndirectExportEntry n)
  | .localExport _ exportName localName =>
    match importedBinding module localName with
    | none => none
    | some ie =>
      if ie.isNamespace then none
      else ie.importedName.map fun importName =>
        ⟨exportName, resolvedModuleId module ie.specifier, .name importName⟩
  | .indirectExport _ exportName importName specifier =>
    some ⟨exportName, resolvedModuleId module specifier, .name importName⟩
  | .namespaceExport _ exportName specifier =>
    some ⟨exportName, resolvedModuleId module specifier, .all⟩
  | _ => none

/-- The module an `export *` requests. -/
def parseStar (module : ModuleGraphNode n) : SyntaxExportEntry → Option (Option (Fin n))
  | .starExport _ specifier => some (resolvedModuleId module specifier)
  | _ => none

/-- `[[LocalExportEntries]]`. -/
def localExportEntries (module : ModuleGraphNode n) : List (LocalExportEntry n) :=
  module.exports.zipIdx.filterMap (parseLocal module)

/-- `[[IndirectExportEntries]]`. -/
def indirectExportEntries (module : ModuleGraphNode n) : List (IndirectExportEntry n) :=
  module.exports.filterMap (parseIndirect module)

/-- `[[StarExportEntries]]`, as the modules they request. -/
def starExportEntries (module : ModuleGraphNode n) : List (Option (Fin n)) :=
  module.exports.filterMap (parseStar module)

/-! ## The search -/

/-- The result of ResolveExport. A namespace binding is the namespace cell of its module. -/
inductive Resolution (n : ℕ)
  | null
  | ambiguous
  | binding (cell : ModuleCell n)
deriving DecidableEq

/-- A resolve set: the pairs of module and export name visited so far. -/
abbrev ResolveSet (n : ℕ) := List (Fin n × String)

/-- Step 8: the star exports in turn, with the resolution found so far. -/
def resolveStars (resolve : ResolveSet n → Fin n → String → Option (Resolution n × ResolveSet n))
    (exportName : String) :
    List (Option (Fin n)) → Resolution n → ResolveSet n → Option (Resolution n × ResolveSet n)
  | [], starResolution, resolveSet => some (starResolution, resolveSet)
  | none :: _, _, _ => none
  | some importedModule :: rest, starResolution, resolveSet =>
    match resolve resolveSet importedModule exportName with
    | none => none
    | some (.ambiguous, resolveSet) => some (.ambiguous, resolveSet)
    | some (.null, resolveSet) => resolveStars resolve exportName rest starResolution resolveSet
    | some (.binding cell, resolveSet) =>
      match starResolution with
      | .binding cell' =>
        if cell ≠ cell' then some (.ambiguous, resolveSet)
        else resolveStars resolve exportName rest starResolution resolveSet
      | _ => resolveStars resolve exportName rest (.binding cell) resolveSet

/-- ResolveExport, with at most `fuel` nested calls. No result where a requested module was
not loaded. -/
def resolveExport (g : ModuleGraph n) :
    ℕ → ResolveSet n → Fin n → String → Option (Resolution n × ResolveSet n)
  | 0, _, _, _ => none
  | fuel + 1, resolveSet, module, exportName =>
    if (module, exportName) ∈ resolveSet then
      some (.null, resolveSet)
    else
      let resolveSet := resolveSet ++ [(module, exportName)]
      match (localExportEntries (g module)).find? fun e => e.exportName = exportName with
      | some e => some (.binding ⟨module, e.localName⟩, resolveSet)
      | none =>
        match (indirectExportEntries (g module)).find? fun e => e.exportName = exportName with
        | some e =>
          match e.importedModule, e.importName with
          | none, _ => none
          | some importedModule, .all =>
            some (.binding ⟨importedModule, .namespace importedModule⟩, resolveSet)
          | some importedModule, .name importName =>
            resolveExport g fuel resolveSet importedModule importName
        | none =>
          if exportName = "default" then
            some (.null, resolveSet)
          else
            resolveStars (resolveExport g fuel) exportName (starExportEntries (g module)) .null
              resolveSet

/-- ResolveExport on its own, with an empty resolve set. -/
def ModuleGraph.ResolveExport (g : ModuleGraph n) (module : Fin n) (exportName : String)
    (resolution : Resolution n) : Prop :=
  ∃ fuel resolveSet, resolveExport g fuel [] module exportName = some (resolution, resolveSet)

/-! ## Linking

`linkModuleGraph`: the exports of all modules are computed together, by passes over every
export entry until a pass changes nothing; then the indirect exports and the imports are
checked against the maps.

A cell is written as its key, the module and the local name: `cellFor` numbers the keys in
the order of first use. The passes are given `fuel`.
-/

open Oseo.Library

/-- A link error: code `OSEO2001`, with a source, a range and a message. -/
structure Diagnostic (n : ℕ) where
  sourceId : Fin n
  byteRange : ByteRange
  message : String
deriving DecidableEq, Repr

/-- An entry without a range is reported at the start of its module. -/
def linkDiagnostic (sourceId : Fin n) (byteRange : Option ByteRange) (message : String) :
    Diagnostic n :=
  ⟨sourceId, byteRange.getD ⟨0, 0⟩, message⟩

/-- An export resolved to a cell. -/
structure ExportCandidate (n : ℕ) where
  cell : ModuleCell n
  sourceModuleId : Fin n
deriving DecidableEq, Repr

/-- `sameExport`: candidates are compared by their cells. -/
def sameExport (left right : ExportCandidate n) : Prop := left.cell = right.cell

instance (left right : ExportCandidate n) : Decidable (sameExport left right) :=
  inferInstanceAs (Decidable (_ = _))

/-- The candidate that names a module's namespace. -/
def namespaceCandidate (target : Fin n) : ExportCandidate n :=
  ⟨⟨target, .namespace target⟩, target⟩

/-- The maps under construction, with the `changed` flag of the passes. -/
structure LinkState (n : ℕ) where
  diagnostics : List (Diagnostic n)
  exportsByModule : Fin n → InsertionMap String (ExportCandidate n)
  explicitNames : Fin n → List String
  ambiguousNames : Fin n → List String
  changed : Bool

/-- No module has been read. -/
def LinkState.initial (n : ℕ) : LinkState n where
  diagnostics := []
  exportsByModule := fun _ => .empty
  explicitNames := fun _ => []
  ambiguousNames := fun _ => []
  changed := false

/-- Adds a diagnostic. -/
def LinkState.report (s : LinkState n) (diagnostic : Diagnostic n) : LinkState n :=
  { s with diagnostics := s.diagnostics ++ [diagnostic] }

/-- Sets an export of a module. -/
def LinkState.setExport (s : LinkState n) (m : Fin n) (name : String)
    (candidate : ExportCandidate n) : LinkState n :=
  { s with
    exportsByModule :=
      Function.update s.exportsByModule m ((s.exportsByModule m).set name candidate) }

/-- Deletes an export of a module and adds its name to the ambiguous ones. -/
def LinkState.markAmbiguous (s : LinkState n) (m : Fin n) (name : String) : LinkState n :=
  { s with
    exportsByModule := Function.update s.exportsByModule m ((s.exportsByModule m).delete name)
    ambiguousNames := Function.update s.ambiguousNames m
      (if name ∈ s.ambiguousNames m then s.ambiguousNames m else s.ambiguousNames m ++ [name]) }

/-! ## The explicit exports -/

/-- Adds the name of an entry to the explicit ones. -/
def LinkState.addExplicit (s : LinkState n) (m : Fin n) (name : String) : LinkState n :=
  { s with explicitNames := Function.update s.explicitNames m (s.explicitNames m ++ [name]) }

/-- One explicit export entry, at its index, before any star is followed. -/
def installEntry (g : ModuleGraph n) (m : Fin n) (s : LinkState n)
    (indexed : SyntaxExportEntry × ℕ) : LinkState n :=
  let (entry, index) := indexed
  match entry.exportedName with
  | none => s
  | some exportedName =>
    if exportedName ∈ s.explicitNames m then
      s.report (linkDiagnostic m entry.byteRange s!"Duplicate export '{exportedName}'.")
    else
      let s := s.addExplicit m exportedName
      match entry with
      | .localExport _ _ localName =>
        if importedBinding (g m) localName = none then
          s.setExport m exportedName ⟨⟨m, .identifier localName⟩, m⟩
        else
          s
      | .defaultExport _ => s.setExport m "default" ⟨⟨m, .default index⟩, m⟩
      | .namespaceExport _ _ specifier =>
        match resolvedModuleId (g m) specifier with
        | none =>
          s.report (linkDiagnostic m entry.byteRange
            s!"Module '{specifier.value}' was not resolved.")
        | some target => s.setExport m exportedName (namespaceCandidate target)
      | _ => s

/-- The first loop over the modules. -/
def installExports (g : ModuleGraph n) : LinkState n :=
  (List.finRange n).foldl
    (fun s m => (g m).exports.zipIdx.foldl (installEntry g m) s) (.initial n)

/-! ## The passes -/

/-- Takes over an ambiguous name of a star export's target. -/
def takeAmbiguous (m : Fin n) (s : LinkState n) (name : String) : LinkState n :=
  if name ≠ "default" ∧ name ∉ s.explicitNames m then
    { s.markAmbiguous m name with
      changed := s.changed || decide (name ∉ s.ambiguousNames m) }
  else
    s

/-- Takes over an export of a star export's target. -/
def takeExport (m : Fin n) (s : LinkState n) (exported : String × ExportCandidate n) :
    LinkState n :=
  let (name, candidate) := exported
  if name = "default" ∨ name ∈ s.explicitNames m ∨ name ∈ s.ambiguousNames m then
    s
  else
    match (s.exportsByModule m).get name with
    | none => { s.setExport m name candidate with changed := true }
    | some existing =>
      if sameExport existing candidate then s
      else { s.markAmbiguous m name with changed := true }

/-- The candidate for a local export of an imported binding. -/
def importCandidate (g : ModuleGraph n) (m : Fin n) (s : LinkState n)
    (imported : SyntaxImportEntry) : Option (ExportCandidate n) :=
  match resolvedModuleId (g m) imported.specifier, imported.importedName with
  | some target, some importedName =>
    if imported.isNamespace then some (namespaceCandidate target)
    else (s.exportsByModule target).get importedName
  | _, _ => none

/-- One export entry in a pass. -/
def relinkEntry (g : ModuleGraph n) (m : Fin n) (s : LinkState n) :
    SyntaxExportEntry → LinkState n
  | .localExport _ exportedName localName =>
    match importedBinding (g m) localName with
    | none => s
    | some imported =>
      match importCandidate g m s imported with
      | none => s
      | some candidate =>
        match (s.exportsByModule m).get exportedName with
        | none => { s.setExport m exportedName candidate with changed := true }
        | some existing =>
          if sameExport existing candidate then s
          else { s.setExport m exportedName candidate with changed := true }
  | .indirectExport _ exportedName importedName specifier =>
    match resolvedModuleId (g m) specifier with
    | none => s
    | some target =>
      match (s.exportsByModule target).get importedName with
      | none => s
      | some candidate =>
        if (s.exportsByModule m).get exportedName = none ∧ exportedName ∉ s.ambiguousNames m then
          { s.setExport m exportedName candidate with changed := true }
        else
          s
  | .starExport _ specifier =>
    match resolvedModuleId (g m) specifier with
    | none => s
    | some target =>
      let s := (s.ambiguousNames target).foldl (takeAmbiguous m) s
      (s.exportsByModule target).entries.foldl (takeExport m) s
  | _ => s

/-- One pass over every export entry. -/
def linkPass (g : ModuleGraph n) (s : LinkState n) : LinkState n :=
  (List.finRange n).foldl (fun s m => (g m).exports.foldl (relinkEntry g m) s)
    { s with changed := false }

/-- The passes, until one changes nothing. -/
def linkExports (g : ModuleGraph n) (fuel : ℕ) : Option (LinkState n) :=
  saturate (linkPass g) LinkState.changed fuel (installExports g)

/-! ## The checks -/

/-- One imported binding or namespace of a linked module. -/
structure LinkedModuleImport (n : ℕ) where
  cell : ModuleCell n
  importedName : String
  localName : String
  namespaceModuleId : Option (Fin n)
deriving DecidableEq, Repr

/-- Checks an indirect export against its target. -/
def checkIndirect (g : ModuleGraph n) (m : Fin n) (s : LinkState n) (entry : SyntaxExportEntry) :
    LinkState n :=
  match entry with
  | .indirectExport byteRange _ importedName specifier =>
    let target := resolvedModuleId (g m) specifier
    if target.any (fun target => decide (importedName ∈ s.ambiguousNames target)) then
      s.report (linkDiagnostic m byteRange s!"Export '{importedName}' is ambiguous.")
    else if target.bind (fun target => (s.exportsByModule target).get importedName) = none then
      s.report (linkDiagnostic m byteRange s!"Module has no export '{importedName}'.")
    else
      s
  | _ => s

/-- Checks and links one import. -/
def linkImport (g : ModuleGraph n) (m : Fin n) (acc : LinkState n × List (LinkedModuleImport n))
    (entry : SyntaxImportEntry) : LinkState n × List (LinkedModuleImport n) :=
  let (s, imports) := acc
  match entry.localName, entry.importedName with
  | some localName, some importedName =>
    match resolvedModuleId (g m) entry.specifier with
    | none =>
      (s.report (linkDiagnostic m entry.byteRange
        s!"Module '{entry.specifier.value}' was not resolved."), imports)
    | some target =>
      if entry.isNamespace then
        (s, imports ++ [⟨⟨target, .namespace target⟩, "*", localName, some target⟩])
      else if importedName ∈ s.ambiguousNames target then
        (s.report (linkDiagnostic m entry.byteRange s!"Import '{importedName}' is ambiguous."),
          imports)
      else
        match (s.exportsByModule target).get importedName with
        | none =>
          (s.report (linkDiagnostic m entry.byteRange
            s!"Module has no export '{importedName}'."), imports)
        | some candidate => (s, imports ++ [⟨candidate.cell, importedName, localName, none⟩])
  | _, _ => acc

/-- Checks one module: its indirect exports, then its imports. -/
def linkModule (g : ModuleGraph n)
    (acc : LinkState n × (Fin n → List (LinkedModuleImport n))) (m : Fin n) :
    LinkState n × (Fin n → List (LinkedModuleImport n)) :=
  let s := (g m).exports.foldl (checkIndirect g m) acc.1
  let (s, imports) := (g m).imports.foldl (linkImport g m) (s, [])
  (s, Function.update acc.2 m imports)

/-- One module after linking. -/
structure LinkedModule (n : ℕ) where
  exports : InsertionMap String (ExportCandidate n)
  imports : List (LinkedModuleImport n)

/-- The result of linking: errors, or the linked modules. -/
structure ModuleLinkResult (n : ℕ) where
  diagnostics : List (Diagnostic n)
  modules : Option (Fin n → LinkedModule n)

/-- Resolves imports and exports. -/
def linkModuleGraph (g : ModuleGraph n) (fuel : ℕ) : Option (ModuleLinkResult n) :=
  match linkExports g fuel with
  | none => none
  | some s =>
    let (s, imports) := (List.finRange n).foldl (linkModule g) (s, fun _ => [])
    if s.diagnostics ≠ [] then
      some ⟨s.diagnostics, none⟩
    else
      some ⟨[], some fun m => ⟨s.exportsByModule m, imports m⟩⟩

/-! ## ResolveExport is a search for a terminal

The pairs of a module and an export name form a graph: an explicit local export is a terminal
with its cell, every other name follows the names it is taken from. ResolveExport is the
search of this graph, so it has a result for every name, and that result is a binding exactly
when the name leads to one cell.
-/

open Option
open List

/-! ## The graph of export names -/

/-- The explicit entry that exports a name, with its index. -/
def ModuleGraph.explicitEntry (g : ModuleGraph n) (m : Fin n) (name : String) :
    Option (SyntaxExportEntry × ℕ) :=
  (g m).exports.zipIdx.find? fun e => e.1.exportedName = some name

/-- What an explicit entry exports. -/
def entryView (g : ModuleGraph n) (m : Fin n) :
    SyntaxExportEntry × ℕ → View (Fin n × String) (ModuleCell n)
  | (.localExport _ _ localName, _) =>
    match importedBinding (g m) localName with
    | none => .terminal ⟨m, .identifier localName⟩
    | some imported =>
      if imported.isNamespace then .terminal ⟨m, .identifier localName⟩
      else
        match resolvedModuleId (g m) imported.specifier, imported.importedName with
        | some target, some importedName => .follow [(target, importedName)]
        | _, _ => .follow []
  | (.indirectExport _ _ importedName specifier, _) =>
    match resolvedModuleId (g m) specifier with
    | some target => .follow [(target, importedName)]
    | none => .follow []
  | (.namespaceExport _ _ specifier, _) =>
    match resolvedModuleId (g m) specifier with
    | some target => .terminal ⟨target, .namespace target⟩
    | none => .follow []
  | (.defaultExport _, index) => .terminal ⟨m, .default index⟩
  | (.starExport _ _, _) => .follow []

/-- The graph of export names. -/
def ModuleGraph.view (g : ModuleGraph n) (v : Fin n × String) :
    View (Fin n × String) (ModuleCell n) :=
  match g.explicitEntry v.1 v.2 with
  | some entry => entryView g v.1 entry
  | none =>
    if v.2 = "default" then .follow []
    else .follow (((starExportEntries (g v.1)).filterMap id).map fun target => (target, v.2))

/-! ## The entries ParseModule sorts -/

lemma parseLocal_key (module : ModuleGraphNode n) (e : SyntaxExportEntry × ℕ)
    (e' : LocalExportEntry n) (h : parseLocal module e = some e') :
    e.1.exportedName = some e'.exportName := by
  obtain ⟨entry, index⟩ := e
  cases entry <;> simp only [parseLocal] at h
  · split at h
    · cases h
      rfl
    · split at h
      · cases h
        rfl
      · cases h
  all_goals cases h
  rfl

lemma parseIndirect_key (module : ModuleGraphNode n) (e : SyntaxExportEntry)
    (e' : IndirectExportEntry n) (h : parseIndirect module e = some e') :
    e.exportedName = some e'.exportName := by
  cases e <;> simp only [parseIndirect] at h
  · split at h
    · cases h
    · split at h
      · cases h
      · obtain ⟨_, _, rfl⟩ := map_eq_some_iff.mp h
        rfl
  all_goals cases h
  all_goals rfl

lemma indirectExportEntries_eq (module : ModuleGraphNode n) :
    indirectExportEntries module =
      module.exports.zipIdx.filterMap fun e => parseIndirect module e.1 := by
  unfold indirectExportEntries
  conv_lhs => rw [← zipIdx_map_fst 0 module.exports, filterMap_map]
  rfl

lemma ModuleGraph.UniqueNames.zipIdx {g : ModuleGraph n} (h : g.UniqueNames) (m : Fin n) :
    ((g m).exports.zipIdx.filterMap fun e => e.1.exportedName).Nodup := by
  have hm := h m
  rw [← zipIdx_map_fst 0 (g m).exports, filterMap_map] at hm
  exact hm

lemma find_local {g : ModuleGraph n} (h : g.UniqueNames) (m : Fin n) (name : String) :
    (localExportEntries (g m)).find? (fun e => e.exportName = name) =
      (g.explicitEntry m name).bind (parseLocal (g m)) :=
  find_filterMap (parseLocal_key (g m)) (h.zipIdx m) name

lemma find_indirect {g : ModuleGraph n} (h : g.UniqueNames) (m : Fin n) (name : String) :
    (indirectExportEntries (g m)).find? (fun e => e.exportName = name) =
      (g.explicitEntry m name).bind fun e => parseIndirect (g m) e.1 := by
  rw [indirectExportEntries_eq]
  exact find_filterMap (fun (e : SyntaxExportEntry × ℕ) => parseIndirect_key (g m) e.1)
    (h.zipIdx m) name

lemma explicitEntry_mem {g : ModuleGraph n} {m : Fin n} {name : String}
    {e : SyntaxExportEntry × ℕ} (h : g.explicitEntry m name = some e) :
    e ∈ (g m).exports.zipIdx ∧ e.1.exportedName = some name :=
  ⟨mem_of_find?_eq_some h, by simpa using find?_some h⟩

lemma ModuleGraph.UniqueNames.explicitEntry {g : ModuleGraph n} (h : g.UniqueNames) {m : Fin n}
    {name : String} {e : SyntaxExportEntry × ℕ} (he : e ∈ (g m).exports.zipIdx)
    (hname : e.1.exportedName = some name) : g.explicitEntry m name = some e := by
  cases hf : g.explicitEntry m name with
  | none =>
    have := find?_eq_none.mp hf e he
    simp [hname] at this
  | some e' =>
    obtain ⟨hmem, hname'⟩ := explicitEntry_mem hf
    rw [eq_of_key (h.zipIdx m) hmem he hname' hname]

lemma importedBinding_spec {module : ModuleGraphNode n} {localName : String}
    {entry : SyntaxImportEntry} (h : importedBinding module localName = some entry) :
    entry ∈ module.imports ∧ entry.localName = some localName ∧ entry.importedName ≠ none := by
  refine ⟨mem_of_find?_eq_some h, ?_⟩
  have := find?_some h
  simpa using this

lemma mem_exports_of_mem_zipIdx {module : ModuleGraphNode n} {e : SyntaxExportEntry × ℕ}
    (h : e ∈ module.exports.zipIdx) : e.1 ∈ module.exports :=
  mem_of_getElem? (mem_zipIdx_iff_getElem?.mp h)

/-! ## ResolveExport as a search -/

/-- The outcome of a search as a resolution. -/
def Resolution.ofOutcome : Outcome (ModuleCell n) → Resolution n
  | .null => .null
  | .ambiguous => .ambiguous
  | .found cell => .binding cell

/-- The result of a search as that of ResolveExport. -/
def ofSearch (r : Outcome (ModuleCell n) × List (Fin n × String)) :
    Resolution n × ResolveSet n :=
  (Resolution.ofOutcome r.1, r.2)

lemma resolveStars_eq {resolve : ResolveSet n → Fin n → String → Option (Resolution n × ResolveSet n)}
    {go : ResolveSet n → Fin n × String → Option (Outcome (ModuleCell n) × ResolveSet n)}
    (h : ∀ set m x, resolve set m x = (go set (m, x)).map ofSearch) (name : String)
    (targets : List (Fin n)) {far : Outcome (ModuleCell n)} (hfar : far ≠ .ambiguous)
    (set : ResolveSet n) :
    resolveStars resolve name (targets.map some) (Resolution.ofOutcome far) set =
      (searchAll go (targets.map fun t => (t, name)) far set).map ofSearch := by
  induction targets generalizing far set with
  | nil => rfl
  | cons t rest ih =>
    rw [map_cons, map_cons, searchAll, resolveStars, h]
    rcases go set (t, name) with _ | ⟨found, set'⟩
    · rfl
    cases found with
    | null =>
      rw [map_some]
      show resolveStars resolve name (rest.map some) (.ofOutcome far) set' = _
      rw [ih hfar]
      cases far <;> first | rfl | exact absurd rfl hfar
    | ambiguous => cases far <;> rfl
    | found cell =>
      cases far with
      | ambiguous => exact absurd rfl hfar
      | null => exact @ih (.found cell) (by simp) set'
      | found cell' =>
        rw [map_some]
        simp only [ofSearch, Resolution.ofOutcome, Outcome.join]
        by_cases hc : cell = cell'
        · rw [if_neg (by simp [hc]), if_pos hc.symm]
          exact ih hfar set'
        · rw [if_pos hc, if_neg (Ne.symm hc)]
          rfl

/-- Every requested module was loaded. -/
lemma starExportEntries_eq {g : ModuleGraph n} (h : g.Closed) (m : Fin n) :
    starExportEntries (g m) = ((starExportEntries (g m)).filterMap id).map some := by
  have hall : ∀ t ∈ starExportEntries (g m), t.isSome := by
    intro t ht
    obtain ⟨entry, hmem, hentry⟩ := mem_filterMap.mp ht
    cases entry with
    | starExport byteRange specifier =>
      have hres := (h m).2 _ hmem specifier rfl
      simp only [parseStar, some.injEq] at hentry
      rw [← hentry]
      exact isSome_iff_ne_none.mpr hres
    | _ => cases hentry
  generalize starExportEntries (g m) = l at hall
  induction l with
  | nil => rfl
  | cons t rest ih =>
    obtain ⟨t', rfl⟩ := isSome_iff_exists.mp (hall t mem_cons_self)
    rw [filterMap_cons_some (by rfl), map_cons,
      ← ih fun u hu => hall u (mem_cons_of_mem _ hu)]

/-- ResolveExport is the search of the graph of export names. -/
lemma resolveExport_eq_search {g : ModuleGraph n} (hc : g.Closed) (hu : g.UniqueNames)
    (fuel : ℕ) (set : ResolveSet n) (m : Fin n) (name : String) :
    resolveExport g fuel set m name = (search g.view fuel set (m, name)).map ofSearch := by
  induction fuel generalizing set m name with
  | zero => rfl
  | succ fuel ih =>
    have hone : ∀ (set : ResolveSet n) (w : Fin n × String),
        searchAll (search g.view fuel) [w] .null set = search g.view fuel set w := by
      intro set w
      rw [searchAll]
      rcases search g.view fuel set w with _ | ⟨found, set'⟩
      · rfl
      · cases found <;> rfl
    rw [resolveExport, search]
    by_cases hmem : (m, name) ∈ set
    · rw [if_pos hmem, if_pos hmem]
      rfl
    rw [if_neg hmem, if_neg hmem, find_local hu, find_indirect hu, ModuleGraph.view]
    cases hentry : g.explicitEntry m name with
    | none =>
      simp only [bind_none]
      by_cases hd : name = "default"
      · rw [if_pos hd, if_pos hd]
        rfl
      · rw [if_neg hd, if_neg hd]
        conv_lhs => rw [starExportEntries_eq hc]
        exact @resolveStars_eq n _ _ ih name _ .null (by simp) (set ++ [(m, name)])
    | some e =>
      obtain ⟨entry, index⟩ := e
      have hentry' := mem_exports_of_mem_zipIdx (explicitEntry_mem hentry).1
      simp only [bind_some, entryView]
      cases entry with
      | defaultExport byteRange => rfl
      | starExport byteRange specifier => cases (explicitEntry_mem hentry).2
      | localExport byteRange exportedName localName =>
        simp only [parseLocal, parseIndirect]
        cases himp : importedBinding (g m) localName with
        | none => rfl
        | some ie =>
          obtain ⟨hie, -, hsome⟩ := importedBinding_spec himp
          obtain ⟨target, htarget⟩ := ne_none_iff_exists'.mp ((hc m).1 ie hie)
          obtain ⟨importedName, hname⟩ := ne_none_iff_exists'.mp hsome
          by_cases hns : ie.isNamespace
          · simp only [hns]
            rfl
          · simp only [hns, hname, htarget, map_some, Bool.false_eq_true, if_false, hone]
            exact ih _ _ _
      | indirectExport byteRange exportedName importedName specifier =>
        obtain ⟨target, htarget⟩ :=
          ne_none_iff_exists'.mp ((hc m).2 _ hentry' specifier rfl)
        simp only [parseLocal, parseIndirect, htarget, hone]
        exact ih _ _ _
      | namespaceExport byteRange exportedName specifier =>
        obtain ⟨target, htarget⟩ :=
          ne_none_iff_exists'.mp ((hc m).2 _ hentry' specifier rfl)
        simp only [parseLocal, parseIndirect, htarget]
        rfl

/-! ## Every name has a result -/

/-- The names that the modules of a graph import from each other. -/
def ModuleGraph.importNames (g : ModuleGraph n) : List String :=
  (List.finRange n).flatMap fun m =>
    ((g m).exports.filterMap fun entry =>
      match entry with
      | .indirectExport _ _ importedName _ => some importedName
      | _ => none) ++ (g m).imports.filterMap (·.importedName)

lemma mem_importNames_export {g : ModuleGraph n} {m : Fin n} {byteRange : Option ByteRange}
    {exportedName importedName : String} {specifier : SyntaxModuleSpecifier}
    (h : .indirectExport byteRange exportedName importedName specifier ∈ (g m).exports) :
    importedName ∈ g.importNames := by
  unfold ModuleGraph.importNames
  rw [mem_flatMap]
  refine ⟨m, mem_finRange m, mem_append_left _ ?_⟩
  exact mem_filterMap.mpr ⟨_, h, rfl⟩

lemma mem_importNames_import {g : ModuleGraph n} {m : Fin n} {entry : SyntaxImportEntry}
    (h : entry ∈ (g m).imports) {importedName : String}
    (hname : entry.importedName = some importedName) : importedName ∈ g.importNames := by
  unfold ModuleGraph.importNames
  rw [mem_flatMap]
  refine ⟨m, mem_finRange m, mem_append_right _ ?_⟩
  exact mem_filterMap.mpr ⟨_, h, hname⟩

/-- A followed name is imported somewhere, or is the name itself. -/
lemma view_follow_name {g : ModuleGraph n} {v w : Fin n × String} {next : List (Fin n × String)}
    (h : g.view v = .follow next) (hw : w ∈ next) : w.2 ∈ g.importNames ∨ w.2 = v.2 := by
  unfold ModuleGraph.view at h
  split at h
  · next e he =>
    obtain ⟨entry, index⟩ := e
    have hmem := mem_exports_of_mem_zipIdx (explicitEntry_mem he).1
    cases entry with
    | localExport byteRange exportedName localName =>
      simp only [entryView] at h
      split at h
      · cases h
      · next imported himp =>
        split at h
        · cases h
        · split at h
          · next target importedName _ hname =>
            cases h
            rw [mem_singleton.mp hw]
            exact .inl (mem_importNames_import (importedBinding_spec himp).1 hname)
          · cases h
            exact absurd hw not_mem_nil
    | indirectExport byteRange exportedName importedName specifier =>
      simp only [entryView] at h
      split at h <;> cases h
      · rw [mem_singleton.mp hw]
        exact .inl (mem_importNames_export hmem)
      · exact absurd hw not_mem_nil
    | namespaceExport byteRange exportedName specifier =>
      simp only [entryView] at h
      split at h <;> cases h
      exact absurd hw not_mem_nil
    | defaultExport byteRange => cases h
    | starExport byteRange specifier =>
      cases h
      exact absurd hw not_mem_nil
  · split at h <;> cases h
    · exact absurd hw not_mem_nil
    · obtain ⟨target, -, rfl⟩ := mem_map.mp hw
      exact .inr rfl

/-- ResolveExport has a result for every name. -/
lemma ModuleGraph.ResolveExport.total {g : ModuleGraph n} (hc : g.Closed) (hu : g.UniqueNames)
    (m : Fin n) (name : String) : ∃ resolution, g.ResolveExport m name resolution := by
  let s : Finset (Fin n × String) := Finset.univ ×ˢ insert name g.importNames.toFinset
  have hclosed : ∀ w ∈ s, ∀ next, g.view w = .follow next → ∀ u ∈ next, u ∈ s := by
    intro w hw next hview u hu
    rw [Finset.mem_product, Finset.mem_insert, List.mem_toFinset] at hw ⊢
    refine ⟨Finset.mem_univ _, ?_⟩
    rcases view_follow_name hview hu with h | h
    · exact .inr h
    · rw [h]
      exact hw.2
  have hstart : (m, name) ∈ s := by
    rw [Finset.mem_product, Finset.mem_insert]
    exact ⟨Finset.mem_univ _, .inl rfl⟩
  obtain ⟨out, visited, hrun⟩ :=
    @search_isSome _ _ g.view _ _ s hclosed (s.card + 1) [] (m, name) hstart (by simp)
  have hres : resolveExport g (s.card + 1) [] m name =
      some (.ofOutcome out, visited) := by
    rw [resolveExport_eq_search hc hu, hrun]
    rfl
  exact ⟨_, _, visited, hres⟩

section
variable {g : ModuleGraph n} (hc : g.Closed) (hu : g.UniqueNames) {m : Fin n} {name : String}
include hc hu

lemma ModuleGraph.ResolveExport.search {resolution : Resolution n}
    (h : g.ResolveExport m name resolution) :
    ∃ fuel visited out, Library.search g.view fuel [] (m, name) = some (out, visited) ∧
      resolution = Resolution.ofOutcome out := by
  obtain ⟨fuel, set, hrun⟩ := h
  rw [resolveExport_eq_search hc hu] at hrun
  obtain ⟨⟨out, visited⟩, hsearch, hout⟩ := map_eq_some_iff.mp hrun
  cases hout
  exact ⟨fuel, visited, out, hsearch, rfl⟩

/-- ResolveExport finds a binding exactly when the name leads to one cell. -/
lemma resolveExport_binding {cell : ModuleCell n} :
    g.ResolveExport m name (.binding cell) ↔ Uniquely g.view (m, name) cell := by
  constructor
  · intro h
    obtain ⟨fuel, visited, out, hrun, hout⟩ := h.search hc hu
    refine ((search_spec hrun).1 cell).mp ?_
    cases out <;> cases hout
    rfl
  · intro h
    obtain ⟨resolution, hres⟩ := ModuleGraph.ResolveExport.total hc hu m name
    obtain ⟨fuel, visited, out, hrun, hout⟩ := hres.search hc hu
    rw [((search_spec hrun).1 cell).mpr h] at hout
    rwa [hout] at hres

/-- ResolveExport finds an ambiguous name exactly when it leads to two cells. -/
lemma resolveExport_ambiguous :
    g.ResolveExport m name .ambiguous ↔ Conflict g.view (m, name) := by
  constructor
  · intro h
    obtain ⟨fuel, visited, out, hrun, hout⟩ := h.search hc hu
    refine (search_spec hrun).2.1.mp ?_
    cases out <;> cases hout
    rfl
  · intro h
    obtain ⟨resolution, hres⟩ := ModuleGraph.ResolveExport.total hc hu m name
    obtain ⟨fuel, visited, out, hrun, hout⟩ := hres.search hc hu
    rw [(search_spec hrun).2.1.mpr h] at hout
    rwa [hout] at hres

/-- ResolveExport has one result for every name. -/
theorem ModuleGraph.ResolveExport.unique {resolution resolution' : Resolution n}
    (h : g.ResolveExport m name resolution) (h' : g.ResolveExport m name resolution') :
    resolution = resolution' := by
  obtain ⟨fuel, visited, out, hrun, rfl⟩ := h.search hc hu
  obtain ⟨fuel', visited', out', hrun', rfl⟩ := h'.search hc hu
  obtain ⟨hfound, hambiguous, hnull⟩ := search_spec hrun'
  obtain ⟨hfound', hambiguous', hnull'⟩ := search_spec hrun
  cases out with
  | null => rw [hnull.mpr (hnull'.mp rfl)]
  | ambiguous => rw [hambiguous.mpr (hambiguous'.mp rfl)]
  | found cell => rw [(hfound cell).mpr ((hfound' cell).mp rfl)]

end

end Oseo.ModuleLinking
