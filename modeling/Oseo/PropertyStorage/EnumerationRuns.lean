import Oseo.Library.Shadowing
import Oseo.PropertyStorage.EnumerationTheorems
import Oseo.PropertyStorage.PropertyRuns

/-!
# Runs of an enumeration

A step of an enumeration reports the first candidate that is left, has a new name, was enumerable at
the start and can be reached now (`enumerateFrom_reports`). So no name is reported twice, whatever
the program does between the steps, and an enumeration of objects that stay as they are reports
every enumerable name that no nearer level hides (`enumeration_reports`).
-/

namespace Oseo.PropertyStorage

open List
open Oseo.Library

variable {canonical : List ℕ → Bool} {elements : Elements} {h h' : Heap} {o : ℕ}
  {key : PropertyKey} {levels : List ℕ} {steps : ℕ} {receiver : Value}
  {candidates start : List Candidate} {visited reported : List PropertyKey}
  {enumeration enumeration' : OseoEnumeration} {result : Except Outcome (Option PropertyKey)}

/-! ## One step -/

/-- All candidates were described at the start, and have string keys. -/
def Described (candidates : List Candidate) : Prop :=
  ∀ candidate ∈ candidates, candidate.found = some true ∧ candidate.key.isSymbol = false

lemma Described.tail {candidate : Candidate} (h : Described (candidate :: candidates)) :
    Described candidates := fun other hmem => h other (List.mem_cons_of_mem _ hmem)

lemma any_visited (hname : key.isSymbol = false) :
    visited.any (propertyKeyEqual · key) = true ↔ key ∈ visited := by
  rw [any_eq_true]
  constructor
  · rintro ⟨other, hmem, hequal⟩
    rw [propertyKeyEqual_iff hname] at hequal
    rwa [hequal] at hmem
  · exact fun hmem => ⟨key, hmem, (propertyKeyEqual_iff hname).mpr rfl⟩

/-- What a step passes over: these candidates, whose keys are the visited ones afterwards. -/
structure Passes (candidates : List Candidate) (visited : List PropertyKey)
    (enumeration : OseoEnumeration) (passed : List Candidate) : Prop where
  split : candidates = passed ++ enumeration.candidates
  visited : ∀ key, key ∈ enumeration.visited ↔
    key ∈ visited ∨ ∃ candidate ∈ passed, candidate.key = key

/-- A step that reports a candidate: it is the first of its name, was enumerable at the start, and
can be reached. -/
structure Reports (elements : Elements) (h : Heap) (receiver : Value)
    (candidates : List Candidate) (visited : List PropertyKey) (enumeration : OseoEnumeration)
    (key : PropertyKey) : Prop where
  first : ∃ skipped candidate, candidates = skipped ++ candidate :: enumeration.candidates ∧
    candidate.key = key ∧ candidate.enumerable = true ∧ ∀ other ∈ skipped, other.key ≠ key
  new : key ∉ visited
  reachable : ∃ steps, enumerationReachable elements h steps receiver key = some (.ok true)

lemma Reports.skip {candidate : Candidate} {visited' : List PropertyKey}
    (hreports : Reports elements h receiver candidates visited' enumeration key)
    (hvisited : ∀ other, other ∈ visited → other ∈ visited')
    (hkey : candidate.key ∈ visited') :
    Reports elements h receiver (candidate :: candidates) visited enumeration key where
  first := by
    obtain ⟨skipped, reportedOne, hsplit, hreported, henumerable, hfirst⟩ := hreports.first
    refine ⟨candidate :: skipped, reportedOne, by rw [hsplit]; rfl, hreported, henumerable, ?_⟩
    intro other hmem heq
    rcases mem_cons.mp hmem with rfl | hmem
    · rw [heq] at hkey
      exact hreports.new hkey
    · exact hfirst other hmem heq
  new := fun hmem => hreports.new (hvisited key hmem)
  reachable := hreports.reachable

lemma Passes.skip {candidate : Candidate} {visited' : List PropertyKey} {passed : List Candidate}
    (hpasses : Passes candidates visited' enumeration passed)
    (hvisited : ∀ other, other ∈ visited' ↔ other ∈ visited ∨ candidate.key = other) :
    Passes (candidate :: candidates) visited enumeration (candidate :: passed) where
  split := by
    rw [hpasses.split]
    rfl
  visited key := by
    rw [hpasses.visited, hvisited]
    simp only [mem_cons, exists_eq_or_imp, or_assoc]

/-- What a step passes, and what it reports. -/
structure StepReports (elements : Elements) (h : Heap) (receiver : Value)
    (candidates : List Candidate) (visited : List PropertyKey) (enumeration : OseoEnumeration)
    (result : Except Outcome (Option PropertyKey)) : Prop where
  receiver_eq : enumeration.receiver = receiver
  passes : ∃ passed, Passes candidates visited enumeration passed
  reports : ∀ key, result = .ok (some key) →
    Reports elements h receiver candidates visited enumeration key

theorem enumerateFrom_reports (hdescribed : Described candidates)
    (hnext : enumerateFrom elements h steps receiver candidates visited =
      some (enumeration, result)) :
    StepReports elements h receiver candidates visited enumeration result := by
  induction candidates generalizing visited with
  | nil =>
    cases hnext
    refine ⟨rfl, ⟨[], rfl, fun key => ?_⟩, nofun⟩
    simp
  | cons candidate rest ih =>
    obtain ⟨hfound, hname⟩ := hdescribed candidate mem_cons_self
    have hresolve : candidate.resolve elements h = .ok (some candidate.enumerable) := by
      unfold Candidate.resolve
      rw [hfound]
      rfl
    have hadded : ∀ other, other ∈ visited ++ [candidate.key] ↔
        other ∈ visited ∨ candidate.key = other := by
      intro other
      rw [mem_append, mem_singleton, eq_comm]
    -- The rest of the candidates, once this one is visited.
    have hrest : enumerateFrom elements h steps receiver rest (visited ++ [candidate.key]) =
        some (enumeration, result) →
          StepReports elements h receiver (candidate :: rest) visited enumeration result := by
      intro hrest
      obtain ⟨hreceiver, ⟨passed, hpasses⟩, hreports⟩ := ih hdescribed.tail hrest
      refine ⟨hreceiver, ⟨_, hpasses.skip hadded⟩, fun key heq => (hreports key heq).skip ?_ ?_⟩
      · exact fun other hmem => (hadded other).mpr (.inl hmem)
      · exact (hadded _).mpr (.inr rfl)
    -- A step that ends with this candidate passes it.
    have hpassed : Passes (candidate :: rest) visited ⟨receiver, rest, visited ++ [candidate.key]⟩
        [candidate] := by
      refine ⟨rfl, fun key => ?_⟩
      rw [hadded]
      simp
    rw [enumerateFrom, hresolve] at hnext
    dsimp only at hnext
    by_cases hvisited : candidate.key ∈ visited
    · rw [if_pos ((any_visited hname).mpr hvisited)] at hnext
      obtain ⟨hreceiver, ⟨passed, hpasses⟩, hreports⟩ := ih hdescribed.tail hnext
      refine ⟨hreceiver, ⟨candidate :: passed, hpasses.skip fun other => ?_⟩, fun key heq =>
        (hreports key heq).skip (fun _ hmem => hmem) hvisited⟩
      constructor
      · exact .inl
      · rintro (hmem | rfl)
        · exact hmem
        · exact hvisited
    · rw [if_neg (fun hany => hvisited ((any_visited hname).mp hany))] at hnext
      split at hnext
      · exact hrest hnext
      · next henumerable =>
        rw [Bool.not_eq_true, Bool.not_eq_false'] at henumerable
        split at hnext
        · cases hnext
        · cases hnext
          exact ⟨rfl, ⟨_, hpassed⟩, nofun⟩
        · exact hrest hnext
        · next hreachable =>
          cases hnext
          refine ⟨rfl, ⟨_, hpassed⟩, ?_⟩
          intro key heq
          cases heq
          refine ⟨⟨[], candidate, rfl, rfl, henumerable, ?_⟩, hvisited, steps, hreachable⟩
          exact fun other hmem => absurd hmem not_mem_nil

/-! ## Runs -/

lemma reportedKeys_snoc (events : List EnumerationEvent) (event : EnumerationEvent) :
    reportedKeys (events ++ [event]) = reportedKeys events ++ event.reported.toList := by
  exact filterMap_append

/-- How far an enumeration of the candidates `start` has come. -/
structure Progress (start : List Candidate) (receiver : Value) (enumeration : OseoEnumeration)
    (reported : List PropertyKey) : Prop where
  receiver_eq : enumeration.receiver = receiver
  passes : ∃ passed, Passes start [] enumeration passed
  known : ∀ key ∈ reported, key ∈ enumeration.visited
  distinct : reported.Nodup

/-- A step of an enumeration that has come so far. -/
lemma Progress.next (hprogress : Progress start receiver enumeration reported)
    (hdescribed : Described start)
    (hnext : enumerateNext elements h steps enumeration = some (enumeration', result)) :
    Progress start receiver enumeration'
        (reported ++ ((EnumerationEvent.next result).reported).toList) ∧
      ∀ key, result = .ok (some key) → key ∉ reported ∧
        Reports elements h receiver start [] enumeration' key := by
  obtain ⟨passed, hpassed⟩ := hprogress.passes
  have hleft : Described enumeration.candidates := by
    intro candidate hmem
    apply hdescribed
    rw [hpassed.split]
    exact mem_append_right _ hmem
  obtain ⟨hreceiver, ⟨more, hmore⟩, hreports⟩ := enumerateFrom_reports hleft hnext
  have hpasses : Passes start [] enumeration' (passed ++ more) := by
    refine ⟨?_, fun key => ?_⟩
    · rw [append_assoc, ← hmore.split]
      exact hpassed.split
    · rw [hmore.visited, hpassed.visited]
      simp only [not_mem_nil, false_or, mem_append, or_and_right, exists_or]
  have hfresh : ∀ key, result = .ok (some key) → key ∉ reported := fun key heq hmem =>
    (hreports key heq).new (hprogress.known key hmem)
  refine ⟨⟨hreceiver.trans hprogress.receiver_eq, ⟨_, hpasses⟩, ?_, ?_⟩, fun key heq => ⟨hfresh key heq, ?_⟩⟩
  · intro key hmem
    rcases mem_append.mp hmem with hmem | hmem
    · exact (hmore.visited key).mpr (.inl (hprogress.known key hmem))
    · -- The candidate that is reported is among those the step passes.
      rw [Option.mem_toList] at hmem
      have heq : result = .ok (some key) := by
        cases result with
        | error outcome => cases hmem
        | ok found =>
          have hfound : found = some key := hmem
          rw [hfound]
      obtain ⟨skipped, candidate, hsplit, hkey, -⟩ := (hreports key heq).first
      refine (hmore.visited key).mpr (.inr ⟨candidate, ?_, hkey⟩)
      rw [hmore.split, append_cons] at hsplit
      rw [append_cancel_right hsplit]
      exact mem_append_right _ (mem_singleton_self _)
  · cases result with
    | error outcome => simpa [EnumerationEvent.reported] using hprogress.distinct
    | ok found =>
      cases found with
      | none => simpa [EnumerationEvent.reported] using hprogress.distinct
      | some key =>
        refine List.Nodup.append hprogress.distinct (nodup_singleton key) ?_
        intro other hmem hother
        rw [mem_singleton.mp hother] at hmem
        exact hfresh key rfl hmem
  · obtain ⟨skipped, candidate, hsplit, hkey, henumerable, hfirst⟩ := (hreports key heq).first
    rw [hprogress.receiver_eq] at hreports
    refine ⟨⟨passed ++ skipped, candidate, ?_, hkey, henumerable, ?_⟩, not_mem_nil,
      (hreports key heq).reachable⟩
    · rw [append_assoc, ← hsplit]
      exact hpassed.split
    · intro other hmem heq'
      rcases mem_append.mp hmem with hmem | hmem
      · exact (hreports key heq).new ((hpassed.visited key).mpr (.inr ⟨other, hmem, heq'⟩))
      · exact hfirst other hmem heq'

/-- Every run keeps to the candidates of its start. -/
theorem Progress.run {events : List EnumerationEvent} {reached : Enumerating}
    (hdescribed : Described start)
    (hrun : Steps (EnumerationStep canonical) ⟨h, ⟨receiver, start, []⟩⟩ events reached) :
    Progress start receiver reached.enumeration (reportedKeys events) := by
  refine @Steps.invariant _ _ _ _ _ _
    (fun events reached => Progress start receiver reached.enumeration (reportedKeys events))
    [] hrun ?_ ?_
  · refine ⟨rfl, ⟨[], rfl, fun key => ?_⟩, fun key hmem => ?_, nodup_nil⟩
    · simp
    · cases hmem
  · intro events from_ event to_ hprogress hstep
    rw [reportedKeys_snoc]
    cases hstep with
    | program enumeration step => simpa [EnumerationEvent.reported] using hprogress
    | next elements h steps hnext => exact (hprogress.next hdescribed hnext).1

/-! ## Reachable properties -/

/-- The objects a chain comes to. -/
inductive Heap.Reaches (h : Heap) : Value → ℕ → Prop
  | here {o : ℕ} : h.Reaches (.object o) o
  | further {o p : ℕ} (rest : h.Reaches (h.object o).prototype p) : h.Reaches (.object o) p

/-- An object has an own property: a TypedArray has its elements, and every object what it has a
descriptor of. -/
def HasOwnProperty (elements : Elements) (h : Heap) (o : ℕ) (key : PropertyKey) : Prop :=
  if (h.object o).kind = .typedArray ∧ typedArrayNumericKey elements.canonical key then
    elements.hasIndex o key = true
  else (ownDescriptor h o key).isSome

lemma enumerationOwnKey_found {enumerable : Bool}
    (hown : enumerationOwnKey elements h (.object o) key = .ok (some enumerable)) :
    HasOwnProperty elements h o key := by
  unfold enumerationOwnKey at hown
  unfold HasOwnProperty
  dsimp only at hown
  by_cases helement : (h.object o).kind = .typedArray ∧ typedArrayNumericKey elements.canonical key
  · rw [if_pos (by simpa using helement)] at hown
    rw [if_pos helement]
    cases hindex : elements.hasIndex o key with
    | true => rfl
    | false =>
      rw [hindex] at hown
      cases hown
  · rw [if_neg (by simpa using helement)] at hown
    rw [if_neg helement]
    split at hown
    · cases hown
    · split at hown
      · cases hown
      · next hdescriptor =>
        rw [hdescriptor]
        rfl

/-- What the walk finds is on the chain, and has the property. -/
lemma enumerationReachable_reaches
    (hreachable : enumerationReachable elements h steps (.object o) key = some (.ok true)) :
    ∃ p, h.Reaches (.object o) p ∧ HasOwnProperty elements h p key := by
  have hwalk : ∀ level, enumerationWalk elements h key steps level = some (.ok true) →
      ∃ p, h.Reaches level p ∧ HasOwnProperty elements h p key := by
    clear hreachable
    induction steps with
    | zero => nofun
    | succ steps ih =>
      intro level hwalk
      cases level with
      | object o =>
        rw [enumerationWalk] at hwalk
        split at hwalk
        · cases hwalk
        · next enumerable hown => exact ⟨o, .here, enumerationOwnKey_found hown⟩
        · split at hwalk
          · cases hwalk
          · next parent hparent =>
            unfold enumerationParent at hparent
            dsimp only at hparent
            split at hparent
            · cases hparent
            · cases hparent
              obtain ⟨p, hreaches, hown⟩ := ih _ hwalk
              exact ⟨p, .further hreaches, hown⟩
      | undefined | null | boolean | number | string | bigint | symbol | cell => cases hwalk
  exact hwalk _ hreachable

/-- A property of an ordinary chain is found within as many steps as it has levels. -/
lemma enumerationWalk_finds {level : Value} (hchain : h.Chain level levels)
    (hlevels : h.OrdinaryLevels canonical levels) (hsteps : levels.length < steps) {p : ℕ}
    (hmem : p ∈ levels) (hown : (ownEnumerable h p key).isSome) :
    enumerationWalk elements h key steps level = some (.ok true) := by
  induction hchain generalizing steps with
  | finish => cases hmem
  | @level o levels rest ih =>
    cases steps with
    | zero => cases hsteps
    | succ steps =>
      obtain ⟨hordinary, -⟩ := hlevels o mem_cons_self
      rw [enumerationWalk, enumerationOwnKey_eq hordinary]
      cases hhere : ownEnumerable h o key with
      | some enumerable => rfl
      | none =>
        rw [enumerationParent_eq hordinary]
        rcases mem_cons.mp hmem with rfl | hmem
        · rw [hhere] at hown
          cases hown
        · exact ih (fun o hmem => hlevels o (mem_cons_of_mem _ hmem))
            (by simpa using hsteps) hmem

/-! ## The nearest property -/

/-- Whether the nearest property of a name is enumerable. -/
def nearestEnumerable (h : Heap) (levels : List ℕ) (key : PropertyKey) : Option Bool :=
  levels.findSome? fun o => ownEnumerable h o key

/-- The candidates of a chain at the start. -/
def chainCandidates (h : Heap) (levels : List ℕ) : List Candidate :=
  levels.flatMap (levelCandidates h)

lemma mem_chainCandidates {candidate : Candidate} : candidate ∈ chainCandidates h levels ↔
    ∃ o ∈ levels, ∃ key ∈ ownStringKeys (h.object o), candidateOf h o key = candidate := by
  unfold chainCandidates levelCandidates
  simp only [mem_flatMap, mem_map]

lemma chainCandidates_described (h : Heap) (levels : List ℕ) :
    Described (chainCandidates h levels) := by
  intro candidate hmem
  obtain ⟨o, -, key, hkey, rfl⟩ := mem_chainCandidates.mp hmem
  exact ⟨rfl, (mem_ownStringKeys.mp hkey).1⟩

lemma find_listed {keys : List PropertyKey} (hkey : key ∈ keys) :
    (keys.map (candidateOf h o)).find? (fun candidate => candidate.key = key) =
      some (candidateOf h o key) := by
  induction keys with
  | nil => cases hkey
  | cons other keys ih =>
    rw [map_cons, find?_cons]
    show (match decide (other = key) with
      | true => some (candidateOf h o other)
      | false => (keys.map (candidateOf h o)).find? _) = _
    by_cases heq : other = key
    · rw [decide_eq_true heq, heq]
    · rw [decide_eq_false heq]
      exact ih ((mem_cons.mp hkey).resolve_left (Ne.symm heq))

/-- The first candidate of a name is the one of the nearest property. -/
lemma find_candidate (hlevels : h.OrdinaryLevels canonical levels) (hname : key.isSymbol = false) :
    ((chainCandidates h levels).find? fun candidate => candidate.key = key).map
      Candidate.enumerable = nearestEnumerable h levels key := by
  unfold chainCandidates nearestEnumerable
  induction levels with
  | nil => rfl
  | cons o levels ih =>
    obtain ⟨hordinary, hstored⟩ := hlevels o mem_cons_self
    have howned := ownEnumerable_isSome hordinary hstored hname
    rw [flatMap_cons, find?_append, findSome?_cons]
    have hrest := ih fun o hmem => hlevels o (mem_cons_of_mem _ hmem)
    cases hhere : ownEnumerable h o key with
    | none =>
      rw [hhere] at howned
      have hnone : (levelCandidates h o).find? (fun candidate => candidate.key = key) = none := by
        rw [find?_eq_none]
        intro candidate hmem
        obtain ⟨other, hother, rfl⟩ := mem_map.mp hmem
        intro heq
        have hkey : other = key := of_decide_eq_true heq
        rw [hkey] at hother
        cases howned.mpr hother
      rw [hnone, Option.none_or]
      exact hrest
    | some enumerable =>
      rw [hhere] at howned
      have hkey : key ∈ ownStringKeys (h.object o) := howned.mp rfl
      have hsome : (levelCandidates h o).find? (fun candidate => candidate.key = key) =
          some (candidateOf h o key) := find_listed hkey
      rw [hsome, Option.some_or, Option.map_some]
      unfold candidateOf
      rw [hhere]
      rfl

/-- A candidate that is the first of its name is the nearest property. -/
lemma nearestEnumerable_of_first (hlevels : h.OrdinaryLevels canonical levels)
    {skipped rest : List Candidate} {candidate : Candidate}
    (hsplit : chainCandidates h levels = skipped ++ candidate :: rest)
    (hfirst : ∀ other ∈ skipped, other.key ≠ candidate.key) :
    nearestEnumerable h levels candidate.key = some candidate.enumerable := by
  have hmem : candidate ∈ chainCandidates h levels := by
    rw [hsplit]
    exact mem_append_right _ mem_cons_self
  have hname : candidate.key.isSymbol = false := (chainCandidates_described h levels _ hmem).2
  have hfind : (chainCandidates h levels).find? (fun other => other.key = candidate.key) =
      some candidate := by
    rw [find?_eq_some_iff_append]
    exact ⟨decide_eq_true rfl, skipped, rest, hsplit, fun other hmem => by
      simpa using hfirst other hmem⟩
  rw [← find_candidate hlevels hname, hfind]
  rfl

/-! ## Enumerations of unchanged objects -/

/-- The enumerable own keys of each level that no nearer level has, level by level. -/
def unshadowedKeys (h : Heap) : (nearer levels : List ℕ) → List PropertyKey
  | _, [] => []
  | nearer, o :: levels =>
    ((ownStringKeys (h.object o)).filter fun key => ownEnumerable h o key = some true ∧
      ∀ level ∈ nearer, key ∉ ownStringKeys (h.object level)) ++
        unshadowedKeys h (nearer ++ [o]) levels

/-- The names of candidates that are to be reported. -/
def remaining (candidates : List Candidate) (visited : List PropertyKey) : List PropertyKey :=
  unshadowed Candidate.key Candidate.enumerable candidates visited

lemma remaining_chainCandidates (hlevels : h.OrdinaryLevels canonical levels)
    (nearer : List ℕ) (hvisited : ∀ key, key ∈ visited ↔
      ∃ level ∈ nearer, key ∈ ownStringKeys (h.object level)) :
    remaining (chainCandidates h levels) visited = unshadowedKeys h nearer levels := by
  induction levels generalizing nearer visited with
  | nil => rfl
  | cons o levels ih =>
    obtain ⟨-, hstored⟩ := hlevels o mem_cons_self
    have hnames : (levelCandidates h o).map Candidate.key = ownStringKeys (h.object o) := by
      unfold levelCandidates
      rw [map_map]
      exact map_id _
    have hlevel : ((levelCandidates h o).filter fun candidate =>
          candidate.enumerable && candidate.key ∉ visited).map Candidate.key =
        (ownStringKeys (h.object o)).filter fun key => ownEnumerable h o key = some true ∧
          ∀ level ∈ nearer, key ∉ ownStringKeys (h.object level) := by
      unfold levelCandidates
      rw [filter_map, map_map]
      have hid : (Candidate.key ∘ candidateOf h o) = id := rfl
      rw [hid, map_id]
      apply filter_congr
      intro key _
      have hnew : key ∉ visited ↔ ∀ level ∈ nearer, key ∉ ownStringKeys (h.object level) := by
        rw [hvisited]
        push Not
        rfl
      have hshown : (ownEnumerable h o key).any id = true ↔ ownEnumerable h o key = some true := by
        cases ownEnumerable h o key with
        | none => simp
        | some enumerable => simp
      show ((ownEnumerable h o key).any id && decide (key ∉ visited)) = _
      rw [Bool.eq_iff_iff, Bool.and_eq_true, decide_eq_true_eq, decide_eq_true_eq, hshown, hnew]
    have hseen : ∀ key, key ∈ visited ++ ownStringKeys (h.object o) ↔
        ∃ level ∈ nearer ++ [o], key ∈ ownStringKeys (h.object level) := by
      intro key
      simp [hvisited, or_and_right, exists_or]
    have hrest := ih (fun o hmem => hlevels o (mem_cons_of_mem _ hmem)) (nearer ++ [o]) hseen
    unfold remaining chainCandidates at hrest ⊢
    rw [flatMap_cons, unshadowed_append (by rw [hnames]; exact ownStringKeys_nodup hstored),
      hnames, hrest, hlevel]
    rfl

/-- A step over candidates that can all be reached reports the first name that is to be reported. -/
lemma enumerateFrom_unchanged (hdescribed : Described candidates)
    (hreachable : ∀ candidate ∈ candidates,
      enumerationReachable elements h steps receiver candidate.key = some (.ok true)) :
    (remaining candidates visited = [] → ∃ ended,
        enumerateFrom elements h steps receiver candidates visited = some (ended, .ok none)) ∧
      ∀ key keys, remaining candidates visited = key :: keys → ∃ left,
        enumerateFrom elements h steps receiver candidates visited = some (left, .ok (some key)) ∧
          left.receiver = receiver ∧ remaining left.candidates left.visited = keys ∧
            ∀ candidate ∈ left.candidates, candidate ∈ candidates := by
  induction candidates generalizing visited with
  | nil => exact ⟨fun _ => ⟨_, rfl⟩, fun _ _ h => by cases h⟩
  | cons candidate rest ih =>
    obtain ⟨hfound, hname⟩ := hdescribed candidate mem_cons_self
    have hresolve : candidate.resolve elements h = .ok (some candidate.enumerable) := by
      unfold Candidate.resolve
      rw [hfound]
      rfl
    have hrest : ∀ visited', (remaining rest visited' = [] → ∃ ended,
          enumerateFrom elements h steps receiver rest visited' = some (ended, .ok none)) ∧
        ∀ key keys, remaining rest visited' = key :: keys → ∃ left,
          enumerateFrom elements h steps receiver rest visited' = some (left, .ok (some key)) ∧
            left.receiver = receiver ∧ remaining left.candidates left.visited = keys ∧
              ∀ other ∈ left.candidates, other ∈ candidate :: rest := by
      intro visited'
      obtain ⟨hended, hmore⟩ := @ih visited' hdescribed.tail
        fun other hmem => hreachable other (mem_cons_of_mem _ hmem)
      refine ⟨hended, fun key keys heq => ?_⟩
      obtain ⟨left, hleft, hreceiver, hkeys, hmem⟩ := hmore key keys heq
      exact ⟨left, hleft, hreceiver, hkeys, fun other h => mem_cons_of_mem _ (hmem other h)⟩
    unfold remaining at hrest ⊢
    rw [enumerateFrom, hresolve, unshadowed]
    by_cases hvisited : candidate.key ∈ visited
    · rw [if_pos ((any_visited hname).mpr hvisited), if_pos hvisited]
      exact hrest visited
    · rw [if_neg (fun hany => hvisited ((any_visited hname).mp hany)), if_neg hvisited]
      cases henumerable : candidate.enumerable with
      | false => exact hrest (visited ++ [candidate.key])
      | true =>
        rw [hreachable candidate mem_cons_self]
        refine ⟨by simp, fun key keys heq => ?_⟩
        obtain ⟨rfl, rfl⟩ := cons.inj heq
        exact ⟨_, rfl, rfl, rfl, fun other hmem => mem_cons_of_mem _ hmem⟩

/-- A loop over objects that stay as they are gets the names that are to be reported. -/
lemma enumerateAll_unchanged {rounds : ℕ} (hdescribed : Described enumeration.candidates)
    (hreachable : ∀ candidate ∈ enumeration.candidates,
      enumerationReachable elements h steps enumeration.receiver candidate.key = some (.ok true))
    (hrounds : (remaining enumeration.candidates enumeration.visited).length < rounds) :
    enumerateAll elements h steps rounds enumeration =
      some (.ok (remaining enumeration.candidates enumeration.visited)) := by
  induction rounds generalizing enumeration with
  | zero => cases hrounds
  | succ rounds ih =>
    obtain ⟨hended, hmore⟩ := enumerateFrom_unchanged hdescribed hreachable
    rw [enumerateAll]
    unfold enumerateNext
    cases hremaining : remaining enumeration.candidates enumeration.visited with
    | nil =>
      obtain ⟨ended, heq⟩ := hended hremaining
      rw [heq]
    | cons key keys =>
      obtain ⟨left, heq, hreceiver, hkeys, hmem⟩ := hmore key keys hremaining
      rw [heq]
      dsimp only
      rw [hremaining, length_cons] at hrounds
      rw [ih (fun candidate h => hdescribed candidate (hmem candidate h))
        (fun candidate h => by
          rw [hreceiver]
          exact hreachable candidate (hmem candidate h))
        (by rw [hkeys]; omega), hkeys]
      rfl

/-! ## Enumerations of a program -/

lemma enumerateGet_eq (hchain : h.Chain (.object o) levels)
    (hlevels : h.OrdinaryLevels canonical levels) :
    enumerateGet elements h steps (.object o) (.ok (.object o)) =
      if levels.length < steps then some (.ok (some ⟨.object o, chainCandidates h levels, []⟩))
      else none := by
  unfold enumerateGet
  rw [if_neg (by simp)]
  dsimp only
  rw [enumerationCollect_eq hchain hlevels]
  by_cases hlt : levels.length < steps
  · rw [if_pos hlt, if_pos hlt]
    rfl
  · rw [if_neg hlt, if_neg hlt]
    rfl

/-- For every chain of ordinary objects and arrays a program comes to: a loop that leaves the objects
as they are gets the enumerable own keys that are not shadowed, level by level. Whatever the program
does to its objects between the steps, no name is reported twice, and a name that is reported was an
own key of the chain at the start, its nearest property was enumerable then, and an object of the
chain of the receiver has it now. -/
theorem enumeration_reports {operations : List Operation}
    (hprogram : Steps (Step canonical) Heap.empty operations h)
    (hchain : h.Chain (.object o) levels) (hordinary : ∀ level ∈ levels, h.Ordinary level) :
    (∀ elements steps, levels.length < steps → ∃ enumeration,
      enumerateGet elements h steps (.object o) (.ok (.object o)) = some (.ok (some enumeration)) ∧
        ∀ elements' steps' rounds, levels.length < steps' →
          (unshadowedKeys h [] levels).length < rounds →
            enumerateAll elements' h steps' rounds enumeration =
              some (.ok (unshadowedKeys h [] levels))) ∧
    ∀ elements steps enumeration events reached,
      enumerateGet elements h steps (.object o) (.ok (.object o)) = some (.ok (some enumeration)) →
      Steps (EnumerationStep canonical) ⟨h, enumeration⟩ events reached →
        (reportedKeys events).Nodup ∧ ∀ elements' steps' enumeration' key,
          enumerateNext elements' reached.heap steps' reached.enumeration =
              some (enumeration', .ok (some key)) →
            key ∉ reportedKeys events ∧
              (∃ level ∈ levels, key ∈ ownStringKeys (h.object level)) ∧
              nearestEnumerable h levels key = some true ∧
              ∃ p, reached.heap.Reaches (.object o) p ∧
                HasOwnProperty elements' reached.heap p key := by
  have hshapes : h.Shapes canonical := Heap.empty_shapes.run hprogram
  have hlevels : h.OrdinaryLevels canonical levels := fun level hmem =>
    ⟨hordinary level hmem, hshapes.stored level⟩
  have hdescribed := chainCandidates_described h levels
  constructor
  · intro elements steps hsteps
    refine ⟨_, by rw [enumerateGet_eq hchain hlevels, if_pos hsteps], ?_⟩
    intro elements' steps' rounds hsteps' hrounds
    have hremaining : remaining (chainCandidates h levels) [] = unshadowedKeys h [] levels :=
      remaining_chainCandidates hlevels [] (by simp)
    rw [← hremaining] at hrounds ⊢
    apply enumerateAll_unchanged hdescribed _ hrounds
    -- The level of a candidate is on the chain, and still has it.
    intro candidate hmem
    obtain ⟨level, hlevel, key, hkey, rfl⟩ := mem_chainCandidates.mp hmem
    obtain ⟨hordinary, hstored⟩ := hlevels level hlevel
    have hname : key.isSymbol = false := (mem_ownStringKeys.mp hkey).1
    exact enumerationWalk_finds hchain hlevels hsteps' hlevel
      ((ownEnumerable_isSome hordinary hstored hname).mpr hkey)
  · intro elements steps enumeration events reached hget hrun
    rw [enumerateGet_eq hchain hlevels] at hget
    split at hget
    · cases hget
      have hprogress := Progress.run hdescribed hrun
      refine ⟨hprogress.distinct, ?_⟩
      intro elements' steps' enumeration' key hnext
      obtain ⟨-, hreports⟩ := hprogress.next hdescribed hnext
      obtain ⟨hnew, hreport⟩ := hreports key rfl
      obtain ⟨skipped, candidate, hsplit, rfl, henumerable, hfirst⟩ := hreport.first
      have hmem : candidate ∈ chainCandidates h levels := by
        rw [hsplit]
        exact mem_append_right _ mem_cons_self
      have hnearest := nearestEnumerable_of_first hlevels hsplit hfirst
      rw [henumerable] at hnearest
      obtain ⟨level, hlevel, key, hkey, rfl⟩ := mem_chainCandidates.mp hmem
      obtain ⟨steps'', hreachable⟩ := hreport.reachable
      exact ⟨hnew, ⟨level, hlevel, hkey⟩, hnearest, enumerationReachable_reaches hreachable⟩
    · cases hget

/-- A new array with one element. -/
def singleArray : Heap :=
  (arrayAppend (Heap.empty.create (newArray .null 0)) 0 .undefined
    ⟨fun _ => .ok 0, true, .ok (), .ok .undefined⟩).1

/-- A loop over it gets the index of the element. -/
theorem enumeration_reports_element : ∃ enumeration,
    enumerateGet ⟨fun _ => false, fun _ => 0, fun _ _ => false⟩ singleArray 2 (.object 0)
        (.ok (.object 0)) = some (.ok (some enumeration)) ∧
      enumerateAll ⟨fun _ => false, fun _ => 0, fun _ _ => false⟩ singleArray 2 2 enumeration =
        some (.ok (unshadowedKeys singleArray [] [0])) ∧
      unshadowedKeys singleArray [] [0] = [arrayIndexKey 0] := by
  have hown : ownStringKeys (singleArray.object 0) = [arrayIndexKey 0, lengthKey] := by
    have hlisted : (singleArray.object 0).keys = [arrayIndexKey 0] := by decide
    have hindices : [arrayIndexKey 0].filterMap arrayIndex = [0] := by decide
    unfold ownStringKeys
    rw [hlisted, hindices, mergeSort_singleton]
    rfl
  have hkeys : unshadowedKeys singleArray [] [0] = [arrayIndexKey 0] := by
    unfold unshadowedKeys
    rw [hown]
    decide
  have hprogram : Steps (Step fun _ => false) Heap.empty _ singleArray :=
    (Steps.single (.arrayCreate Heap.empty .null 0 (by decide))).snoc
      (.append _ 0 ⟨.undefined, rfl⟩ ⟨fun _ => .ok 0, true, .ok (), .ok .undefined⟩)
  have hchain : singleArray.Chain (.object 0) [0] := .level .finish
  have hordinary : ∀ level ∈ [0], singleArray.Ordinary level := by
    intro level hmem
    rw [mem_singleton.mp hmem]
    exact ⟨.inr rfl, rfl⟩
  obtain ⟨enumeration, hget, hall⟩ :=
    (enumeration_reports hprogram hchain hordinary).1 _ 2 (by decide)
  exact ⟨enumeration, hget, hall _ 2 2 (by decide) (by rw [hkeys]; decide), hkeys⟩

end Oseo.PropertyStorage
