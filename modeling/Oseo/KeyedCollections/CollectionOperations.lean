import Oseo.KeyedCollections.CollectionSteps

/-!
# Collections and iterations

The invariant of a run: every vector holds the records of the history, and every iteration that
goes on has visited the records below its index that are still there.
-/

namespace Oseo.KeyedCollections

open List
open Function
open Oseo.Library

variable {c c' : Collections} {h : CollectionHistory} {t : Target} {it : Iteration}
  {representative : ℕ → ℕ}

/-- The vector of a collection. -/
def Collections.slots (c : Collections) : Target → Slots
  | .map m => (c.map m).slots
  | .set s => (c.set s).slots

/-- Where an iteration that goes on is: its collection, its kind and its index. -/
structure Cursor where
  target : Target
  kind : IterationKind
  index : ℕ

/-- Where an iteration is, unless it has finished. -/
def Collections.cursor (c : Collections) : Iteration → Option Cursor
  | .mapIterator i =>
    (c.mapIterator i).target.map fun m =>
      ⟨.map m, (c.mapIterator i).kind, (c.mapIterator i).index⟩
  | .setIterator i =>
    if (c.setIterator i).done then none
    else
      (c.setIterator i).set.map fun s =>
        ⟨.set s, (c.setIterator i).kind, (c.setIterator i).index⟩
  | .forEach f =>
    match c.activation f with
    | some (.mapForEach m index) => some ⟨.map m, .entry, index⟩
    | some (.setForEach s index) => some ⟨.set s, .entry, index⟩
    | _ => none

/-- The iteration has been started. -/
def Collections.Started (c : Collections) : Iteration → Prop
  | .mapIterator i => i < c.nextMapIterator
  | .setIterator i => i < c.nextSetIterator
  | .forEach f => f < c.nextActivation

/-- The iterator has been created. -/
def Collections.Created (c : Collections) : Iteration → Prop
  | .mapIterator i => i < c.nextMapIterator
  | .setIterator i => i < c.nextSetIterator
  | .forEach _ => False

/-- An iteration over records has visited those below its index that are still there. -/
structure Cursor.Follows (cursor : Cursor) (s : IterationHistory) (r : Records) : Prop where
  target : s.target = cursor.target
  kind : s.kind = cursor.kind
  going : s.done = false
  lt : ∀ id ∈ s.visited, id < cursor.index
  le : cursor.index ≤ r.next
  complete : ∀ record ∈ r.live, record.id < cursor.index → record.id ∈ s.visited

/-- The collections agree with the history. -/
structure Collections.Tracks (c : Collections) (h : CollectionHistory) : Prop where
  represents : ∀ t, (c.slots t).Represents (h.records t)
  cursor : ∀ it cursor, c.cursor it = some cursor →
    ∃ s, h.iteration it = some s ∧ cursor.Follows s (h.records cursor.target)
  finished : ∀ it s, c.cursor it = none → h.iteration it = some s → s.done = true
  fresh : ∀ it, ¬ c.Started it → h.iteration it = none
  created : ∀ it, c.Created it → ∃ s, h.iteration it = some s
  sorted : ∀ it s, h.iteration it = some s → s.visited.Pairwise (· < ·)
  activation : ∀ f, ¬ c.Started (.forEach f) → c.activation f = none

/-- A change of records that leaves ids to the records they were of. -/
structure Records.Evolves (r r' : Records) : Prop where
  next : r.next ≤ r'.next
  ids : ∀ record ∈ r'.live, r.next ≤ record.id ∨ ∃ record' ∈ r.live, record'.id = record.id

lemma Cursor.Follows.evolve {cursor : Cursor} {s : IterationHistory} {r r' : Records}
    (hf : cursor.Follows s r) (he : r.Evolves r') : cursor.Follows s r' :=
  { hf with
    le := Nat.le_trans hf.le he.next
    complete := fun record hmem hlt => by
      rcases he.ids record hmem with hge | ⟨record', hmem', hid⟩
      · have := hf.le
        omega
      · rw [← hid] at hlt ⊢
        exact hf.complete record' hmem' hlt }

lemma Records.evolves_insert (r : Records) (key value : Value) : r.Evolves (r.insert key value) where
  next := Nat.le_succ _
  ids record hmem := by
    rcases mem_append.mp hmem with hmem | hmem
    · exact .inr ⟨record, hmem, rfl⟩
    · rw [mem_singleton.mp hmem]
      exact .inl (Nat.le_refl _)

lemma Records.evolves_store (r : Records) (key value : Value) : r.Evolves (r.store key value) := by
  unfold Records.store
  split
  · refine ⟨Nat.le_refl _, fun record hmem => .inr ?_⟩
    obtain ⟨x, hx, rfl⟩ := mem_map.mp hmem
    refine ⟨x, hx, ?_⟩
    split <;> rfl
  · exact r.evolves_insert key value

lemma Records.evolves_delete (r : Records) (key : Value) : r.Evolves (r.delete key) where
  next := Nat.le_refl _
  ids record hmem := .inr ⟨record, mem_of_mem_filter hmem, rfl⟩

lemma Records.evolves_clear (r : Records) : r.Evolves r.clear where
  next := Nat.le_refl _
  ids record hmem := absurd hmem (by simp [Records.clear])

/-! ## Steps of the collections -/

/-- Only one vector changes. -/
structure Writes (c c' : Collections) (t : Target) : Prop where
  slots : ∀ t', t' ≠ t → c'.slots t' = c.slots t'
  cursor : ∀ it, c'.cursor it = c.cursor it
  started : ∀ it, c.Started it → c'.Started it
  created : ∀ it, c'.Created it → c.Created it
  activation : ∀ f, ¬ c'.Started (.forEach f) → c.activation f = none → c'.activation f = none

/-- A step that changes the records of one collection. -/
theorem Collections.Tracks.write (ht : c.Tracks h) (hw : Writes c c' t) {r : Records}
    (hrep : (c'.slots t).Represents r) (he : (h.records t).Evolves r) :
    c'.Tracks (h.setRecords t r) := by
  constructor
  case represents =>
    intro t'
    by_cases heq : t' = t
    · subst heq
      simpa [CollectionHistory.setRecords] using hrep
    · rw [hw.slots t' heq]
      simpa [CollectionHistory.setRecords, heq] using ht.represents t'
  case cursor =>
    intro it cursor hcursor
    rw [hw.cursor] at hcursor
    obtain ⟨s, hs, hf⟩ := ht.cursor it cursor hcursor
    refine ⟨s, hs, ?_⟩
    by_cases heq : cursor.target = t
    · rw [heq] at hf ⊢
      simpa [CollectionHistory.setRecords] using hf.evolve he
    · simpa [CollectionHistory.setRecords, heq] using hf
  case finished =>
    intro it s hcursor
    rw [hw.cursor] at hcursor
    exact ht.finished it s hcursor
  case fresh => exact fun it hit => ht.fresh it fun hstarted => hit (hw.started it hstarted)
  case created => exact fun it hit => ht.created it (hw.created it hit)
  case sorted => exact ht.sorted
  case activation =>
    exact fun f hf => hw.activation f hf (ht.activation f fun hstarted => hf (hw.started _ hstarted))

/-- A write of the vectors leaves iterations alone. -/
lemma Writes.of_vectors {map : ℕ → OseoMap} {set : ℕ → OseoSet} (hc' : c' = { c with map, set })
    (hslots : ∀ t', t' ≠ t → c'.slots t' = c.slots t') : Writes c c' t := by
  subst hc'
  refine ⟨hslots, fun it => ?_, fun it => ?_, fun it => ?_, fun f _ hf => hf⟩
  · cases it <;> rfl
  · cases it <;> exact id
  · cases it <;> exact id

lemma setMap_writes (c : Collections) (m : ℕ) (f : OseoMap → OseoMap) :
    Writes c (c.setMap m f) (.map m) := by
  refine .of_vectors rfl fun t' hne => ?_
  cases t' with
  | map m' =>
    have hne' : m' ≠ m := fun heq => hne (by rw [heq])
    simp [Collections.slots, Collections.setMap, hne']
  | set s => rfl

lemma setMap_slots (c : Collections) (m : ℕ) (f : OseoMap → OseoMap) :
    (c.setMap m f).slots (.map m) = (f (c.map m)).slots := by
  simp [Collections.slots, Collections.setMap]

lemma setSet_writes (c : Collections) (s : ℕ) (f : OseoSet → OseoSet) :
    Writes c (c.setSet s f) (.set s) := by
  refine .of_vectors rfl fun t' hne => ?_
  cases t' with
  | map m => rfl
  | set s' =>
    have hne' : s' ≠ s := fun heq => hne (by rw [heq])
    simp [Collections.slots, Collections.setSet, hne']

lemma setSet_slots (c : Collections) (s : ℕ) (f : OseoSet → OseoSet) :
    (c.setSet s f).slots (.set s) = (f (c.set s)).slots := by
  simp [Collections.slots, Collections.setSet]

/-! ## Steps of the iterations -/

/-- Only one iteration changes. -/
structure Moves (c c' : Collections) (it : Iteration) : Prop where
  slots : ∀ t, c'.slots t = c.slots t
  cursor : ∀ it', it' ≠ it → c'.cursor it' = c.cursor it'
  activation : ∀ f, ¬ c'.Started (.forEach f) → c.activation f = none → c'.activation f = none

/-- A step of one iteration. -/
theorem Collections.Tracks.move (ht : c.Tracks h) (hm : Moves c c' it) {s : IterationHistory}
    (hstarted : ∀ it', c.Started it' ∨ it' = it → c'.Started it')
    (hcreated : ∀ it', c'.Created it' → c.Created it' ∨ it' = it)
    (hcursor : ∀ cursor, c'.cursor it = some cursor →
      cursor.Follows s (h.records cursor.target))
    (hfinished : c'.cursor it = none → s.done = true) (hsorted : s.visited.Pairwise (· < ·)) :
    c'.Tracks { h with iteration := update h.iteration it (some s) } := by
  constructor
  case represents =>
    intro t
    rw [hm.slots]
    exact ht.represents t
  case cursor =>
    intro it' cursor heq
    by_cases hit : it' = it
    · subst hit
      exact ⟨s, update_self .., hcursor cursor heq⟩
    · rw [hm.cursor it' hit] at heq
      obtain ⟨s', hs', hf⟩ := ht.cursor it' cursor heq
      exact ⟨s', (update_of_ne hit ..).trans hs', hf⟩
  case finished =>
    intro it' s' heq hs'
    change update h.iteration it (some s) it' = some s' at hs'
    by_cases hit : it' = it
    · subst hit
      rw [update_self, Option.some.injEq] at hs'
      rw [← hs']
      exact hfinished heq
    · rw [hm.cursor it' hit] at heq
      rw [update_of_ne hit] at hs'
      exact ht.finished it' s' heq hs'
  case fresh =>
    intro it' hit'
    have hit : it' ≠ it := fun heq => hit' (hstarted it' (.inr heq))
    exact (update_of_ne hit ..).trans
      (ht.fresh it' fun hstart => hit' (hstarted it' (.inl hstart)))
  case created =>
    intro it' hit'
    by_cases hit : it' = it
    · subst hit
      exact ⟨s, update_self ..⟩
    · obtain ⟨s', hs'⟩ := ht.created it' ((hcreated it' hit').resolve_right hit)
      exact ⟨s', (update_of_ne hit ..).trans hs'⟩
  case sorted =>
    intro it' s' hs'
    change update h.iteration it (some s) it' = some s' at hs'
    by_cases hit : it' = it
    · subst hit
      rw [update_self, Option.some.injEq] at hs'
      rw [← hs']
      exact hsorted
    · rw [update_of_ne hit] at hs'
      exact ht.sorted it' s' hs'
  case activation =>
    intro f hf
    refine hm.activation f hf (ht.activation f fun hstart => hf ?_)
    exact hstarted _ (.inl hstart)

/-- Nothing is started or created. -/
structure Stays (c c' : Collections) : Prop where
  started : ∀ it, c'.Started it ↔ c.Started it
  created : ∀ it, c'.Created it ↔ c.Created it

/-- A step of an iteration that has been started. -/
lemma Collections.Tracks.moveStarted (ht : c.Tracks h) (hm : Moves c c' it) (hs : Stays c c')
    {s s' : IterationHistory} (hiteration : h.iteration it = some s)
    (hcursor : ∀ cursor, c'.cursor it = some cursor →
      cursor.Follows s' (h.records cursor.target))
    (hfinished : c'.cursor it = none → s'.done = true) (hsorted : s'.visited.Pairwise (· < ·)) :
    c'.Tracks { h with iteration := update h.iteration it (some s') } := by
  have hstarted : c.Started it := by
    by_contra hnot
    rw [ht.fresh it hnot] at hiteration
    cases hiteration
  refine ht.move hm (fun it' hit' => ?_) (fun it' hit' => ?_) hcursor hfinished hsorted
  · rw [hs.started]
    exact hit'.elim id fun heq => heq ▸ hstarted
  · exact .inl ((hs.created it').mp hit')

/-- The scan from an index stops at the first record that has not been visited. -/
lemma Cursor.Follows.visit {cursor : Cursor} {s : IterationHistory} {r : Records} {slots : Slots}
    {i : ℕ} (hf : cursor.Follows s r) (hr : slots.Represents r)
    (hfirst : firstFrom slots.live cursor.index slots.count = some i) :
    (i ∉ s.visited ∧ slots.record i ∈ r.live ∧
      ∀ record ∈ r.live, record.id < i → record.id ∈ s.visited) ∧
    Cursor.Follows { cursor with index := i + 1 } { s with visited := s.visited ++ [i] } r := by
  obtain ⟨⟨hle, hlt⟩, hlive, hdead⟩ := firstFrom_some.mp hfirst
  have hmem : slots.record i ∈ r.live := by
    rw [← hr.records]
    exact Slots.mem_live.mpr ⟨i, hlt, hlive, rfl⟩
  have hbefore : ∀ record ∈ r.live, record.id < i → record.id ∈ s.visited := by
    intro record hrecord hid
    by_cases hindex : record.id < cursor.index
    · exact hf.complete record hrecord hindex
    · -- The scan passed this position, so it is a tombstone.
      rw [← hr.records] at hrecord
      obtain ⟨j, -, hj, rfl⟩ := Slots.mem_live.mp hrecord
      have hjdead := hdead j (Nat.not_lt.mp hindex) hid
      rw [hj] at hjdead
      cases hjdead
  refine ⟨⟨fun hvisited => ?_, hmem, hbefore⟩, ?_⟩
  · have := hf.lt i hvisited
    omega
  constructor
  case target => exact hf.target
  case kind => exact hf.kind
  case going => exact hf.going
  case lt =>
    intro id hid
    rcases mem_append.mp hid with hid | hid
    · have := hf.lt id hid
      show id < i + 1
      omega
    · rw [mem_singleton.mp hid]
      exact Nat.lt_succ_self i
  case le =>
    rw [← hr.records]
    exact hlt
  case complete =>
    intro record hrecord hid
    rcases Nat.lt_succ_iff_lt_or_eq.mp hid with hid | hid
    · exact mem_append_left _ (hbefore record hrecord hid)
    · rw [hid]
      simp

/-- A scan that finds nothing has every record behind it. -/
lemma Cursor.Follows.exhausted {cursor : Cursor} {s : IterationHistory} {r : Records}
    {slots : Slots} (hf : cursor.Follows s r) (hr : slots.Represents r)
    (hfirst : firstFrom slots.live cursor.index slots.count = none) :
    ∀ record ∈ r.live, record.id ∈ s.visited := by
  intro record hrecord
  by_cases hindex : record.id < cursor.index
  · exact hf.complete record hrecord hindex
  · rw [← hr.records] at hrecord
    obtain ⟨j, hlt, hj, rfl⟩ := Slots.mem_live.mp hrecord
    have hjdead := firstFrom_none.mp hfirst j (Nat.not_lt.mp hindex) hlt
    rw [hj] at hjdead
    cases hjdead

section
variable (ht : c.Tracks h) (hm : Moves c c' it) (hs : Stays c c')
include ht hm hs

/-- An iteration visits a record. -/
theorem Collections.Tracks.visit {cursor : Cursor} {i : ℕ} (hcursor : c.cursor it = some cursor)
    (hfirst : firstFrom (c.slots cursor.target).live cursor.index
      (c.slots cursor.target).count = some i)
    (hcursor' : c'.cursor it = some { cursor with index := i + 1 }) :
    let item := cursor.kind.item ((c.slots cursor.target).key i) ((c.slots cursor.target).value i)
    CollectionAnswers h (.visited it i item) ∧
      c'.Tracks (collectionStep h (.visited it i item)) := by
  obtain ⟨s, hiteration, hf⟩ := ht.cursor it cursor hcursor
  obtain ⟨⟨hnew, hmem, hbefore⟩, hf'⟩ := hf.visit (ht.represents cursor.target) hfirst
  have htarget := hf.target
  refine ⟨⟨s, hiteration, hf.going, hnew, ?_, ?_⟩, ?_⟩
  · rw [htarget, hf.kind]
    exact ⟨_, hmem, rfl, rfl⟩
  · rw [htarget]
    exact hbefore
  · simp only [collectionStep, CollectionHistory.setIteration, hiteration, Option.map_some]
    have hsorted := ht.sorted it s hiteration
    refine ht.moveStarted hm hs hiteration (fun cursor' heq => ?_) ?_ ?_
    · rw [hcursor', Option.some.injEq] at heq
      rw [← heq]
      exact hf'
    · rw [hcursor']
      exact nofun
    · refine pairwise_append.mpr ⟨hsorted, pairwise_singleton _ _, ?_⟩
      intro x hx y hy
      rw [mem_singleton.mp hy]
      exact Nat.lt_of_lt_of_le (hf.lt x hx) (firstFrom_some.mp hfirst).1.1

/-- An iteration that goes on finishes, or user code throws in it. -/
theorem Collections.Tracks.stop
    (hcursor' : c'.cursor it = none) {s : IterationHistory} (hiteration : h.iteration it = some s) :
    c'.Tracks (h.setIteration it fun s => { s with done := true }) := by
  simp only [CollectionHistory.setIteration, hiteration, Option.map_some]
  refine ht.moveStarted hm hs hiteration (fun cursor heq => ?_) (fun _ => rfl)
    (ht.sorted it s hiteration)
  rw [hcursor'] at heq
  cases heq

/-- An iteration that has visited every record finishes. -/
lemma Collections.Tracks.finish {cursor : Cursor} (hcursor : c.cursor it = some cursor)
    (hfirst : firstFrom (c.slots cursor.target).live cursor.index
      (c.slots cursor.target).count = none)
    (hcursor' : c'.cursor it = none) :
    CollectionAnswers h (.finished it) ∧ c'.Tracks (collectionStep h (.finished it)) := by
  obtain ⟨s, hiteration, hf⟩ := ht.cursor it cursor hcursor
  refine ⟨⟨s, hiteration, .inr ?_⟩, ht.stop hm hs hcursor' hiteration⟩
  rw [hf.target]
  exact hf.exhausted (ht.represents cursor.target) hfirst

/-- An iterator that has finished says so again. -/
lemma Collections.Tracks.finishAgain
    (hcreated : c.Created it) (hcursor : c.cursor it = none) (hcursor' : c'.cursor it = none) :
    CollectionAnswers h (.finished it) ∧ c'.Tracks (collectionStep h (.finished it)) := by
  obtain ⟨s, hiteration⟩ := ht.created it hcreated
  exact ⟨⟨s, hiteration, .inl (ht.finished it s hcursor hiteration)⟩,
    ht.stop hm hs hcursor' hiteration⟩

/-- User code throws in an iteration. -/
lemma Collections.Tracks.throws
    {cursor : Cursor} (hcursor : c.cursor it = some cursor) (hcursor' : c'.cursor it = none) :
    c'.Tracks (collectionStep h (.thrown it)) := by
  obtain ⟨s, hiteration, -⟩ := ht.cursor it cursor hcursor
  exact ht.stop hm hs hcursor' hiteration

end

/-- An iteration starts before the first record. -/
theorem Collections.Tracks.start (ht : c.Tracks h) (hm : Moves c c' it) {t : Target}
    {kind : IterationKind} (hnew : ¬ c.Started it)
    (hstarted : ∀ it', c.Started it' ∨ it' = it → c'.Started it')
    (hcreated : ∀ it', c'.Created it' → c.Created it' ∨ it' = it)
    (hcursor' : c'.cursor it = some ⟨t, kind, 0⟩) :
    CollectionAnswers h (.started it t kind) ∧
      c'.Tracks (collectionStep h (.started it t kind)) := by
  refine ⟨ht.fresh it hnew, ht.move hm hstarted hcreated (fun cursor heq => ?_) ?_ ?_⟩
  · rw [hcursor', Option.some.injEq] at heq
    rw [← heq]
    constructor <;> simp
  · rw [hcursor']
    exact nofun
  · exact .nil

/-- A step that changes neither vectors nor iterations. -/
theorem Collections.Tracks.call (ht : c.Tracks h) (hslots : ∀ t, c'.slots t = c.slots t)
    (hcursor : ∀ it, c'.cursor it = c.cursor it) (hstarted : ∀ it, c.Started it → c'.Started it)
    (hcreated : ∀ it, c'.Created it → c.Created it)
    (hactivation : ∀ f, ¬ c'.Started (.forEach f) → c.activation f = none →
      c'.activation f = none) : c'.Tracks h := by
  have hw : Writes c c' (.map 0) := ⟨fun t _ => hslots t, hcursor, hstarted, hcreated, hactivation⟩
  have hrep : (c'.slots (.map 0)).Represents (h.records (.map 0)) := by
    rw [hslots]
    exact ht.represents _
  have htracks := ht.write hw hrep ⟨Nat.le_refl _, fun record hmem => .inr ⟨record, hmem, rfl⟩⟩
  rwa [CollectionHistory.setRecords, update_eq_self] at htracks

/-! ## The parts of the collections -/

lemma setMapIterator_moves (c : Collections) (i next : ℕ) (f : OseoMapIterator → OseoMapIterator) :
    Moves c ({ c with nextMapIterator := next }.setMapIterator i f) (.mapIterator i) := by
  constructor
  case slots =>
    intro t
    cases t <;> rfl
  case cursor =>
    intro it hne
    cases it with
    | mapIterator j =>
      have hj : j ≠ i := fun heq => hne (by rw [heq])
      simp [Collections.cursor, Collections.setMapIterator, hj]
    | _ => rfl
  case activation => exact fun f _ hf => hf

lemma setSetIterator_moves (c : Collections) (i next : ℕ) (f : OseoSetIterator → OseoSetIterator) :
    Moves c ({ c with nextSetIterator := next }.setSetIterator i f) (.setIterator i) := by
  constructor
  case slots =>
    intro t
    cases t <;> rfl
  case cursor =>
    intro it hne
    cases it with
    | setIterator j =>
      have hj : j ≠ i := fun heq => hne (by rw [heq])
      simp [Collections.cursor, Collections.setSetIterator, hj]
    | _ => rfl
  case activation => exact fun f _ hf => hf

lemma setActivation_moves (c : Collections) {f next : ℕ} {activation : Option Activation}
    (hf : f < next) :
    Moves c ({ c with nextActivation := next }.setActivation f activation) (.forEach f) := by
  constructor
  case slots =>
    intro t
    cases t <;> rfl
  case cursor =>
    intro it hne
    cases it with
    | forEach j =>
      have hj : j ≠ f := fun heq => hne (by rw [heq])
      simp [Collections.cursor, Collections.setActivation, hj]
    | _ => rfl
  case activation =>
    intro j hj hnone
    have hne : j ≠ f := fun heq => hj (heq ▸ hf)
    simpa [Collections.setActivation, hne] using hnone

lemma setMapIterator_stays (c : Collections) (i : ℕ) (f : OseoMapIterator → OseoMapIterator) :
    Stays c (c.setMapIterator i f) := by
  constructor <;> intro it <;> cases it <;> exact .rfl

lemma setSetIterator_stays (c : Collections) (i : ℕ) (f : OseoSetIterator → OseoSetIterator) :
    Stays c (c.setSetIterator i f) := by
  constructor <;> intro it <;> cases it <;> exact .rfl

lemma setActivation_stays (c : Collections) (f : ℕ) (activation : Option Activation) :
    Stays c (c.setActivation f activation) := by
  constructor <;> intro it <;> cases it <;> exact .rfl

/-- An activation belongs to an operation that has begun. -/
lemma Collections.Tracks.started_of_activation (ht : c.Tracks h) {f : ℕ} {activation : Activation}
    (hactive : c.activation f = some activation) : c.Started (.forEach f) := by
  by_contra hnot
  rw [ht.activation f hnot] at hactive
  cases hactive

end Oseo.KeyedCollections
