import Oseo.KeyedCollections.CollectionOperations
import Oseo.Library.Runs
import Mathlib.Data.List.Induction

/-!
# Runs of the keyed collections

In every run a Map or a Set is its ordered record list, and every iteration visits the records
that are live when it reaches them.
-/

namespace Oseo.KeyedCollections

open Option
open List
open Oseo.Library

variable {c c' : Collections} {h : CollectionHistory} {t : Target} {it : Iteration}
  {representative : ℕ → ℕ} {m s : ℕ} {key value : Value}

/-! ## Lookups -/

lemma Records.lookup_congr {r : Records} {key key' : Value}
    (hkey : sameValueZero key key' = true) : r.lookup key = r.lookup key' := by
  unfold Records.lookup
  congr 1
  ext record
  rw [sameValueZero_congr hkey]

lemma Slots.find_congr {s : Slots} {key key' : Value} (hkey : sameValueZero key key' = true) :
    s.find key = s.find key' := by
  unfold Slots.find
  congr 1
  ext i
  rw [sameValueZero_congr hkey]

section
variable (ht : c.Tracks h)
include ht

/-- The scan for a key answers as the records of the history do. -/
lemma Collections.Tracks.lookup (t : Target) (key : Value) :
    (h.records t).lookup key = ((c.slots t).find key).map (c.slots t).record := by
  rw [← (ht.represents t).records, Slots.lookup_eq]

lemma Collections.Tracks.lookup_isSome (t : Target) (key : Value) :
    ((h.records t).lookup key).isSome = ((c.slots t).find key).isSome := by
  rw [ht.lookup, isSome_map]

lemma Collections.Tracks.lookup_value {i : ℕ}
    (hfind : (c.slots t).find key = some i) :
    ((h.records t).lookup key).map Record.value = some ((c.slots t).value i) := by
  rw [ht.lookup, hfind]
  rfl

lemma Collections.Tracks.lookup_none (hfind : (c.slots t).find key = none) :
    (h.records t).lookup key = none := by
  rw [ht.lookup, hfind]
  rfl

/-! ## Writes -/

/-- Storing a value in the record of a key. -/
lemma Collections.Tracks.store {i : ℕ} (key value : Value)
    (hfind : mapEntryFind (c.map m) key = some i) :
    (c.setMap m fun map => map.store i value).Tracks
      (h.setRecords (.map m) ((h.records (.map m)).store key value)) := by
  refine ht.write (setMap_writes ..) ?_ (Records.evolves_store ..)
  rw [setMap_slots]
  exact (ht.represents (.map m)).store (mapStore_stores ..) hfind

/-- Appending the record of a key that has none. -/
lemma Collections.Tracks.append {memory : Option (ℕ → MapEntry)}
    {map : OseoMap} (hfind : mapEntryFind (c.map m) key = none)
    (run : mapAppendEntry representative (c.map m) key value memory = .ok map) :
    (h.records (.map m)).lookup (localSymbol representative key) = none ∧
      (c.setMap m fun _ => map).Tracks (h.setRecords (.map m)
        ((h.records (.map m)).insert (localSymbol representative key) value)) := by
  have hnone : (h.records (.map m)).lookup (localSymbol representative key) = none := by
    rw [Records.lookup_congr (sameValueZero_local representative key)]
    exact ht.lookup_none hfind
  have happends := mapAppendEntry_appends (ht.represents (.map m)).capacity run
  refine ⟨hnone, ht.write (setMap_writes ..) ?_ (Records.evolves_insert ..)⟩
  rw [setMap_slots]
  exact (ht.represents (.map m)).append happends hnone

/-- Storing a value under a key, whether or not it has a record. -/
lemma Collections.Tracks.stored {memory : Option (ℕ → MapEntry)}
    {map : OseoMap} (hmap : Stored representative (c.map m) key value memory map) :
    (c.setMap m fun _ => map).Tracks
      (collectionStep h (.stored (.map m) (localSymbol representative key) value)) := by
  rcases hmap with ⟨i, hfind, rfl⟩ | ⟨hfind, run⟩
  · refine ht.store (localSymbol representative key) value (i := i) ?_
    rw [← hfind, mapEntryFind_eq, mapEntryFind_eq]
    exact Slots.find_congr (sameValueZero_local representative key)
  · obtain ⟨hnone, htracks⟩ := ht.append hfind run
    show Collections.Tracks _ (h.setRecords _ (.store _ _ _))
    rw [Records.store, hnone]
    exact htracks

/-- Adding a value to a Set that does not have it. -/
lemma Collections.Tracks.added {memory : Option (ℕ → SetElement)}
    {set : OseoSet} (hfind : setFind (c.set s) value = none)
    (run : setAppend representative (c.set s) value memory = .ok set) :
    (h.records (.set s)).lookup (localSymbol representative value) = none ∧
      (c.setSet s fun _ => set).Tracks (collectionStep h
        (.inserted (.set s) (localSymbol representative value)
          (localSymbol representative value))) := by
  have hnone : (h.records (.set s)).lookup (localSymbol representative value) = none := by
    rw [Records.lookup_congr (sameValueZero_local representative value)]
    exact ht.lookup_none hfind
  have happends := setAppend_appends (ht.represents (.set s)).capacity run
  refine ⟨hnone, ?_⟩
  show Collections.Tracks _ (h.setRecords _ (.add _ _ _))
  rw [Records.add, hnone]
  refine ht.write (setSet_writes ..) ?_ (Records.evolves_insert ..)
  rw [setSet_slots]
  exact (ht.represents (.set s)).append happends hnone

/-- Deleting a key that has no record changes nothing. -/
lemma Collections.Tracks.delete_none (hfind : (c.slots t).find key = none) :
    c.Tracks (collectionStep h (.deleted t key false)) := by
  have hrecords : (h.records t).delete key = h.records t :=
    Records.delete_of_none (ht.lookup_none hfind)
  show c.Tracks (h.setRecords t _)
  rw [hrecords, CollectionHistory.setRecords, Function.update_eq_self]
  exact ht

end

/-! ## Operations that call user code -/

/-- The cursors where an activation is not one of forEach. -/
lemma setActivation_cursor (c : Collections) (f : ℕ) {activation : Option Activation}
    (hcomputed : c.activation f = none ∨
      ∃ m key, c.activation f = some (.getOrInsertComputed m key))
    (hactivation : activation = none ∨
      ∃ m key, activation = some (.getOrInsertComputed m key)) (it : Iteration) :
    (c.setActivation f activation).cursor it = c.cursor it := by
  cases it with
  | forEach j =>
    by_cases hj : j = f
    · subst hj
      have hold : c.cursor (.forEach j) = none := by
        rcases hcomputed with heq | ⟨m, key, heq⟩ <;> simp [Collections.cursor, heq]
      rw [hold]
      rcases hactivation with rfl | ⟨m, key, rfl⟩ <;>
        simp [Collections.cursor, Collections.setActivation]
    · simp [Collections.cursor, Collections.setActivation, hj]
  | _ => rfl

/-- getOrInsertComputed calls its callback. -/
lemma Collections.Tracks.callComputed (ht : c.Tracks h) :
    ({ c with nextActivation := c.nextActivation + 1 }.setActivation c.nextActivation
      (some (.getOrInsertComputed m key))).Tracks h := by
  have hnew : c.activation c.nextActivation = none :=
    ht.activation _ (Nat.lt_irrefl c.nextActivation)
  refine ht.call ?_ (fun it => ?_) ?_ ?_ ?_
  · intro t
    cases t <;> rfl
  · refine (setActivation_cursor { c with nextActivation := c.nextActivation + 1 }
      c.nextActivation (.inl hnew) (.inr ⟨m, key, rfl⟩) it).trans ?_
    cases it <;> rfl
  · intro it
    cases it with
    | forEach f => exact Nat.lt_succ_of_lt
    | _ => exact id
  · intro it
    cases it <;> exact id
  · intro f hf hnone
    have hne : f ≠ c.nextActivation := fun heq => hf (heq ▸ Nat.lt_succ_self _)
    simpa [Collections.setActivation, hne] using hnone

/-- The callback of getOrInsertComputed is over. -/
lemma Collections.Tracks.endComputed (ht : c.Tracks h) {f : ℕ}
    (hactive : c.activation f = some (.getOrInsertComputed m key)) :
    (c.setActivation f none).Tracks h := by
  refine ht.call ?_ (fun it => ?_) ?_ ?_ ?_
  · intro t
    cases t <;> rfl
  · exact setActivation_cursor c f (.inr ⟨m, key, hactive⟩) (.inl rfl) it
  · exact fun it => ((setActivation_stays c f none).started it).mpr
  · exact fun it => ((setActivation_stays c f none).created it).mp
  · intro j _ hnone
    by_cases hj : j = f <;> simp [Collections.setActivation, hj, hnone]

/-! ## Iterations -/

/-- A call of forEach starts. -/
lemma Collections.Tracks.startForEach (ht : c.Tracks h) {activation : Option Activation}
    (hcursor : ({ c with nextActivation := c.nextActivation + 1 }.setActivation c.nextActivation
      activation).cursor (.forEach c.nextActivation) = some ⟨t, .entry, 0⟩) :
    CollectionAnswers h (.started (.forEach c.nextActivation) t .entry) ∧
      ({ c with nextActivation := c.nextActivation + 1 }.setActivation c.nextActivation
        activation).Tracks (collectionStep h (.started (.forEach c.nextActivation) t .entry)) := by
  refine ht.start (setActivation_moves c (Nat.lt_succ_self _)) (Nat.lt_irrefl c.nextActivation)
    ?_ ?_ hcursor
  · rintro it (hit | rfl)
    · cases it with
      | forEach f => exact Nat.lt_succ_of_lt hit
      | _ => exact hit
    · exact Nat.lt_succ_self c.nextActivation
  · intro it hit
    cases it <;> exact .inl hit

/-- A Map iterator is created. -/
lemma Collections.Tracks.startMapIterator (ht : c.Tracks h) {kind : IterationKind} :
    CollectionAnswers h (.started (.mapIterator c.nextMapIterator) (.map m) kind) ∧
      ({ c with nextMapIterator := c.nextMapIterator + 1 }.setMapIterator c.nextMapIterator
        fun _ => { target := some m, index := 0, kind := kind }).Tracks
        (collectionStep h (.started (.mapIterator c.nextMapIterator) (.map m) kind)) := by
  refine ht.start (setMapIterator_moves ..) (Nat.lt_irrefl c.nextMapIterator) ?_ ?_ ?_
  · rintro it (hit | rfl)
    · cases it with
      | mapIterator i => exact Nat.lt_succ_of_lt hit
      | _ => exact hit
    · exact Nat.lt_succ_self c.nextMapIterator
  · intro it hit
    cases it with
    | mapIterator i =>
      refine (Nat.lt_succ_iff_lt_or_eq.mp hit).imp id fun heq => ?_
      rw [heq]
    | _ => exact .inl hit
  · simp [Collections.cursor, Collections.setMapIterator]

/-- A Set iterator is created. -/
lemma Collections.Tracks.startSetIterator (ht : c.Tracks h) {kind : IterationKind} :
    CollectionAnswers h (.started (.setIterator c.nextSetIterator) (.set s) kind) ∧
      (setIteratorCreate c s kind).Tracks
        (collectionStep h (.started (.setIterator c.nextSetIterator) (.set s) kind)) := by
  refine ht.start (setSetIterator_moves ..) (Nat.lt_irrefl c.nextSetIterator) ?_ ?_ ?_
  · rintro it (hit | rfl)
    · cases it with
      | setIterator i => exact Nat.lt_succ_of_lt hit
      | _ => exact hit
    · exact Nat.lt_succ_self c.nextSetIterator
  · intro it hit
    cases it with
    | setIterator i =>
      refine (Nat.lt_succ_iff_lt_or_eq.mp hit).imp id fun heq => ?_
      rw [heq]
    | _ => exact .inl hit
  · simp [Collections.cursor, Collections.setSetIterator]

/-- A step of a Map iterator. -/
lemma Collections.Tracks.mapIteratorNext (ht : c.Tracks h) {i : ℕ}
    {result : Option (ℕ × Item)} (hcreated : i < c.nextMapIterator)
    (run : mapIteratorNext c (.mapIterator i) = .ok (result, c')) :
    CollectionAnswers h (iterationEvent (.mapIterator i) result) ∧
      c'.Tracks (collectionStep h (iterationEvent (.mapIterator i) result)) := by
  unfold KeyedCollections.mapIteratorNext at run
  dsimp only at run
  split at run
  · next htarget =>
    cases run
    have hcursor : c.cursor (.mapIterator i) = none := by simp [Collections.cursor, htarget]
    have hmoves : Moves c c (.mapIterator i) :=
      ⟨fun _ => rfl, fun _ _ => rfl, fun _ _ hnone => hnone⟩
    exact ht.finishAgain hmoves ⟨fun _ => .rfl, fun _ => .rfl⟩ hcreated hcursor hcursor
  · next m htarget =>
    have hcursor : c.cursor (.mapIterator i) =
        some ⟨.map m, (c.mapIterator i).kind, (c.mapIterator i).index⟩ := by
      simp [Collections.cursor, htarget]
    split at run
    · next index hfirst =>
      cases run
      refine ht.visit (setMapIterator_moves ..) (setMapIterator_stays ..) hcursor hfirst ?_
      simp [Collections.cursor, Collections.setMapIterator, htarget]
    · next hfirst =>
      cases run
      refine ht.finish (setMapIterator_moves ..) (setMapIterator_stays ..) hcursor hfirst ?_
      simp [Collections.cursor, Collections.setMapIterator]

lemma setSetIterator_setSetIterator (c : Collections) (i : ℕ)
    (f g : OseoSetIterator → OseoSetIterator) :
    (c.setSetIterator i f).setSetIterator i g = c.setSetIterator i (g ∘ f) := by
  simp [Collections.setSetIterator]

/-- A step of a Set iterator. -/
lemma Collections.Tracks.setIteratorNext (ht : c.Tracks h) {i : ℕ}
    {result : Option (ℕ × Item)} (hcreated : i < c.nextSetIterator)
    (run : setIteratorNext c (.setIterator i) = .ok (result, c')) :
    CollectionAnswers h (iterationEvent (.setIterator i) result) ∧
      c'.Tracks (collectionStep h (iterationEvent (.setIterator i) result)) := by
  unfold KeyedCollections.setIteratorNext at run
  dsimp only at run
  split at run
  · next s hdone htarget =>
    have hcursor : c.cursor (.setIterator i) =
        some ⟨.set s, (c.setIterator i).kind, (c.setIterator i).index⟩ := by
      simp [Collections.cursor, hdone, htarget]
    split at run
    · next index hfirst =>
      cases run
      refine ht.visit (setSetIterator_moves ..) (setSetIterator_stays ..) hcursor hfirst ?_
      simp [Collections.cursor, Collections.setSetIterator, hdone, htarget]
    · next hfirst =>
      cases run
      rw [setSetIterator_setSetIterator]
      refine ht.finish (setSetIterator_moves ..) (setSetIterator_stays ..) hcursor hfirst ?_
      simp [Collections.cursor, Collections.setSetIterator]
  · next hnot =>
    cases run
    have hcursor : c.cursor (.setIterator i) = none := by
      cases hdone : (c.setIterator i).done with
      | true => simp [Collections.cursor, hdone]
      | false =>
        cases htarget : (c.setIterator i).set with
        | none => simp [Collections.cursor, hdone, htarget]
        | some s => exact absurd htarget (hnot s hdone)
    refine ht.finishAgain (setSetIterator_moves ..) (setSetIterator_stays ..) hcreated hcursor ?_
    simp [Collections.cursor, Collections.setSetIterator]

/-! ## Steps -/

/-- A step keeps the collections in agreement with the history, and answers as it asks. -/
lemma CollectionStep.tracks {event : CollectionEvent} (ht : c.Tracks h)
    (hstep : CollectionStep representative c event c') :
    CollectionAnswers h event ∧ c'.Tracks (collectionStep h event) := by
  cases hstep with
  | @get m key value run =>
    refine ⟨?_, ht⟩
    rw [mapPrototypeGet_ok run]
    show _ = Option.getD _ _
    rw [ht.lookup, Option.map_map]
    rfl
  | @has m key present run =>
    cases run
    exact ⟨(ht.lookup_isSome (.map m) key).symm, ht⟩
  | set run =>
    obtain ⟨map, hstored, rfl⟩ := mapPrototypeSet_ok run
    exact ⟨trivial, ht.stored hstored⟩
  | @getOrInsertKept _ m key _ _ _ run =>
    obtain ⟨rfl, i, hfind, rfl⟩ := mapPrototypeGetOrInsert_ok run
    refine ⟨?_, ht⟩
    show Option.map _ _ = _
    rw [← Records.lookup_congr (sameValueZero_normalize key)]
    exact ht.lookup_value (t := .map m) hfind
  | getOrInsert run =>
    obtain ⟨rfl, hfind, map, happend, rfl⟩ := mapPrototypeGetOrInsert_ok run
    obtain ⟨hnone, htracks⟩ := ht.append hfind happend
    refine ⟨hnone, ?_⟩
    show Collections.Tracks _ (h.setRecords _ (.add _ _ _))
    rw [Records.add, storedKey, hnone]
    exact htracks
  | @getOrInsertComputedKept _ m key _ _ run =>
    obtain ⟨rfl, i, hfind, rfl⟩ := mapPrototypeGetOrInsertComputed_ok run
    refine ⟨?_, ht⟩
    show Option.map _ _ = _
    rw [← Records.lookup_congr (sameValueZero_normalize key)]
    exact ht.lookup_value (t := .map m) hfind
  | getOrInsertComputed run =>
    have heq := mapPrototypeGetOrInsertComputed_ok run
    rw [heq]
    exact ⟨trivial, ht.callComputed⟩
  | @getOrInsertComputedEnd _ f m key value memory active run =>
    obtain ⟨map, hstored, rfl⟩ := mapGetOrInsertComputedEnd_ok run
    exact ⟨trivial, (ht.endComputed active).stored hstored⟩
  | getOrInsertComputedThrows active => exact ⟨trivial, ht.endComputed active⟩
  | @delete _ m key removed run =>
    have hrun := mapPrototypeDelete_ok run
    cases removed with
    | false =>
      obtain ⟨hfind, rfl⟩ := hrun
      refine ⟨?_, ht.delete_none hfind⟩
      show false = isSome _
      rw [ht.lookup_isSome]
      exact (congrArg isSome hfind).symm
    | true =>
      obtain ⟨i, hfind, rfl⟩ := hrun
      refine ⟨?_, ht.write (setMap_writes ..) ?_ (Records.evolves_delete ..)⟩
      · show true = isSome _
        rw [ht.lookup_isSome]
        exact (congrArg isSome hfind).symm
      · rw [setMap_slots]
        exact (ht.represents (.map m)).remove (mapRemove_removes ..) hfind
  | @clear _ m run =>
    cases run
    refine ⟨trivial, ht.write (setMap_writes ..) ?_ (Records.evolves_clear _)⟩
    rw [setMap_slots]
    exact (ht.represents (.map m)).clear (mapClear_clears _)
  | @size m size run =>
    cases run
    exact ⟨(ht.represents (.map m)).size, ht⟩
  | @setHas s value present run =>
    cases run
    exact ⟨(ht.lookup_isSome (.set s) value).symm, ht⟩
  | @addKept _ s value _ _ run =>
    obtain ⟨rfl, hfind⟩ := setAdd_ok run
    refine ⟨?_, ht⟩
    show true = isSome _
    rw [← Records.lookup_congr (sameValueZero_normalize value), ht.lookup_isSome]
    exact hfind.symm
  | add run =>
    obtain ⟨hfind, set, happend, rfl⟩ := setAdd_ok run
    exact ht.added hfind happend
  | @setDelete _ s value removed run =>
    have hrun := setDelete_ok run
    cases removed with
    | false =>
      obtain ⟨hfind, rfl⟩ := hrun
      refine ⟨?_, ht.delete_none hfind⟩
      show false = isSome _
      rw [ht.lookup_isSome]
      exact (congrArg isSome hfind).symm
    | true =>
      obtain ⟨i, hfind, rfl⟩ := hrun
      refine ⟨?_, ht.write (setSet_writes ..) ?_ (Records.evolves_delete ..)⟩
      · show true = isSome _
        rw [ht.lookup_isSome]
        exact (congrArg isSome hfind).symm
      · rw [setSet_slots]
        exact (ht.represents (.set s)).remove (setRemoveAt_removes ..) hfind
  | @setClear _ s run =>
    cases run
    refine ⟨trivial, ht.write (setSet_writes ..) ?_ (Records.evolves_clear _)⟩
    rw [setSet_slots]
    exact (ht.represents (.set s)).clear (setClear_clears _)
  | @setSize s size run =>
    cases run
    exact ⟨(ht.represents (.set s)).size, ht⟩
  | @forEach _ m _ run =>
    rw [mapPrototypeForEach_ok run]
    exact ht.startForEach (by simp [Collections.cursor, Collections.setActivation])
  | @setForEach _ s _ run =>
    rw [setForEach_ok run]
    exact ht.startForEach (by simp [Collections.cursor, Collections.setActivation])
  | @forEachNext f m index active =>
    have hstarted := ht.started_of_activation active
    have hcursor : c.cursor (.forEach f) = some ⟨.map m, .entry, index⟩ := by
      simp [Collections.cursor, active]
    unfold mapForEachNext
    dsimp only
    split
    · next hfirst =>
      refine ht.finish (setActivation_moves c hstarted) (setActivation_stays ..) hcursor hfirst ?_
      simp [Collections.cursor, Collections.setActivation]
    · next i hfirst =>
      refine ht.visit (setActivation_moves c hstarted) (setActivation_stays ..) hcursor hfirst ?_
      simp [Collections.cursor, Collections.setActivation]
  | @setForEachNext f s index active =>
    have hstarted := ht.started_of_activation active
    have hcursor : c.cursor (.forEach f) = some ⟨.set s, .entry, index⟩ := by
      simp [Collections.cursor, active]
    unfold KeyedCollections.setForEachNext
    dsimp only
    split
    · next hfirst =>
      refine ht.finish (setActivation_moves c hstarted) (setActivation_stays ..) hcursor hfirst ?_
      simp [Collections.cursor, Collections.setActivation]
    · next i hfirst =>
      refine ht.visit (setActivation_moves c hstarted) (setActivation_stays ..) hcursor hfirst ?_
      simp [Collections.cursor, Collections.setActivation]
  | @forEachThrows f m index active =>
    have hcursor : c.cursor (.forEach f) = some ⟨.map m, .entry, index⟩ := by
      simp [Collections.cursor, active]
    refine ⟨trivial, ht.throws (setActivation_moves c (ht.started_of_activation active))
      (setActivation_stays ..) hcursor ?_⟩
    simp [Collections.cursor, Collections.setActivation]
  | @setForEachThrows f s index active =>
    have hcursor : c.cursor (.forEach f) = some ⟨.set s, .entry, index⟩ := by
      simp [Collections.cursor, active]
    refine ⟨trivial, ht.throws (setActivation_moves c (ht.started_of_activation active))
      (setActivation_stays ..) hcursor ?_⟩
    simp [Collections.cursor, Collections.setActivation]
  | @iterator _ m method kind run =>
    cases run
    exact ht.startMapIterator
  | @setValues _ s run =>
    cases run
    exact ht.startSetIterator
  | @setEntries _ s run =>
    cases run
    exact ht.startSetIterator
  | @iteratorNext _ i result created run => exact ht.mapIteratorNext created run
  | @setIteratorNext _ i result created run => exact ht.setIteratorNext created run

/-! ## The last value stored -/

variable {r : Records} {key' : Value} {events : List CollectionEvent}

/-- The value of a key. -/
abbrev Records.valueOf (r : Records) (key : Value) : Option Value :=
  (r.lookup key).map Record.value

lemma valueOf_insert (hnone : r.lookup key = none) :
    (r.insert key value).valueOf key' =
      if sameValueZero key key' then some value else r.valueOf key' := by
  unfold Records.valueOf Records.lookup Records.insert
  rw [find?_append]
  by_cases hkey : sameValueZero key key' = true
  · rw [if_pos hkey]
    have hnone' := Records.lookup_congr hkey ▸ hnone
    unfold Records.lookup at hnone'
    rw [hnone']
    simp [hkey]
  · rw [if_neg hkey]
    simp [hkey]

lemma valueOf_store (r : Records) (key value key' : Value) :
    (r.store key value).valueOf key' =
      if sameValueZero key key' then some value else r.valueOf key' := by
  unfold Records.store
  by_cases hsome : (r.lookup key).isSome = true
  · rw [if_pos hsome]
    unfold Records.valueOf Records.lookup
    rw [find?_map]
    have hpred : (fun record : Record => sameValueZero record.key key') ∘
        (fun record => if sameValueZero record.key key then { record with value := value }
          else record) = fun record => sameValueZero record.key key' := by
      ext record
      by_cases h : sameValueZero record.key key = true <;> simp [h]
    rw [hpred, Option.map_map]
    by_cases hkey : sameValueZero key key' = true
    · rw [if_pos hkey]
      rw [Records.lookup_congr hkey] at hsome
      obtain ⟨record, hrecord⟩ := isSome_iff_exists.mp hsome
      unfold Records.lookup at hrecord
      have hmatch : sameValueZero record.key key = true := by
        rw [sameValueZero_congr hkey]
        simpa using find?_some hrecord
      rw [hrecord]
      simp [hmatch]
    · rw [if_neg hkey]
      refine map_congr fun record hrecord => ?_
      have hmatch := find?_some hrecord
      have hne : ¬ sameValueZero record.key key = true := by
        intro htrue
        rw [sameValueZero_comm] at htrue
        exact hkey (sameValueZero_trans htrue hmatch)
      simp [hne]
  · rw [if_neg hsome]
    exact valueOf_insert (not_isSome_iff_eq_none.mp hsome)

lemma valueOf_add (r : Records) (key value key' : Value) :
    (r.add key value).valueOf key' =
      if sameValueZero key key' then (r.valueOf key').or (some value) else r.valueOf key' := by
  unfold Records.add
  by_cases hsome : (r.lookup key).isSome = true
  · rw [if_pos hsome]
    split
    · next hkey =>
      rw [Records.lookup_congr hkey] at hsome
      obtain ⟨record, hrecord⟩ := isSome_iff_exists.mp hsome
      rw [Records.valueOf, hrecord]
      rfl
    · rfl
  · rw [if_neg hsome]
    have hnone := not_isSome_iff_eq_none.mp hsome
    rw [valueOf_insert hnone]
    split
    · next hkey =>
      rw [Records.valueOf, ← Records.lookup_congr hkey, hnone]
      rfl
    · rfl

lemma valueOf_delete (r : Records) (key key' : Value) :
    (r.delete key).valueOf key' = if sameValueZero key key' then none else r.valueOf key' := by
  unfold Records.valueOf Records.lookup Records.delete
  rw [find?_filter]
  by_cases hkey : sameValueZero key key' = true
  · rw [if_pos hkey, map_eq_none_iff, find?_eq_none]
    intro record _
    rw [sameValueZero_congr hkey]
    simp
  · rw [if_neg hkey]
    congr 2
    ext record
    by_cases hrecord : sameValueZero record.key key' = true
    · have hne : ¬ sameValueZero record.key key = true := by
        intro htrue
        rw [sameValueZero_comm] at htrue
        exact hkey (sameValueZero_trans htrue hrecord)
      simp [hrecord, hne]
    · simp [hrecord]

/-- A step stores what it says in the collection it says. -/
lemma collectionStep_valueOf (h : CollectionHistory) (events : List CollectionEvent)
    (event : CollectionEvent) (t : Target) (key : Value)
    (ih : (h.records t).valueOf key = lastValue t key events) :
    ((collectionStep h event).records t).valueOf key = lastValue t key (events ++ [event]) := by
  have hset : ∀ t' r', ((h.setRecords t' r').records t).valueOf key =
      if t' = t then r'.valueOf key else (h.records t).valueOf key := by
    intro t' r'
    by_cases ht : t' = t
    · rw [if_pos ht, ht]
      simp [CollectionHistory.setRecords]
    · rw [if_neg ht]
      simp [CollectionHistory.setRecords, Ne.symm ht]
  unfold lastValue at ih ⊢
  rw [foldl_append, foldl_cons, foldl_nil, ← ih]
  cases event with
  | stored t' key' value =>
    show ((h.setRecords t' _).records t).valueOf key = _
    rw [hset, valueOf_store]
    by_cases ht : t' = t <;> simp [ht]
  | inserted t' key' value =>
    show ((h.setRecords t' _).records t).valueOf key = _
    rw [hset, valueOf_add]
    by_cases ht : t' = t <;> simp [ht]
  | deleted t' key' removed =>
    show ((h.setRecords t' _).records t).valueOf key = _
    rw [hset, valueOf_delete]
    by_cases ht : t' = t <;> simp [ht]
  | cleared t' =>
    show ((h.setRecords t' _).records t).valueOf key = _
    rw [hset]
    by_cases ht : t' = t <;> simp [ht, Records.valueOf, Records.lookup, Records.clear]
  | _ => rfl

/-! ## Runs -/

lemma collectionsAfter_concat (events : List CollectionEvent) (event : CollectionEvent) :
    collectionsAfter (events ++ [event]) = collectionStep (collectionsAfter events) event := by
  simp [collectionsAfter]

lemma collectionsAfter_valueOf (events : List CollectionEvent) (t : Target) (key : Value) :
    ((collectionsAfter events).records t).valueOf key = lastValue t key events := by
  induction events using reverseRecOn with
  | nil => rfl
  | append_singleton events event ih =>
    rw [collectionsAfter_concat]
    exact collectionStep_valueOf _ events event t key ih

/-- An iteration that has finished. -/
def CollectionHistory.Finished (h : CollectionHistory) (it : Iteration) : Prop :=
  ∃ s, h.iteration it = some s ∧ s.done = true

/-- An iteration that has finished does not go on. -/
lemma CollectionHistory.Finished.step {event : CollectionEvent} (hf : h.Finished it)
    (hanswers : CollectionAnswers h event) : (collectionStep h event).Finished it := by
  obtain ⟨s, hs, hdone⟩ := hf
  have hset : ∀ it' (f : IterationHistory → IterationHistory),
      (∀ s : IterationHistory, s.done = true → (f s).done = true) →
      (h.setIteration it' f).Finished it := by
    intro it' f hf
    by_cases heq : it' = it
    · subst heq
      exact ⟨f s, by simp [CollectionHistory.setIteration, hs], hf s hdone⟩
    · refine ⟨s, ?_, hdone⟩
      simpa [CollectionHistory.setIteration, Ne.symm heq] using hs
  cases event with
  | started it' t kind =>
    have hne : it ≠ it' := by
      rintro rfl
      rw [show h.iteration it = none from hanswers] at hs
      cases hs
    exact ⟨s, (Function.update_of_ne hne ..).trans hs, hdone⟩
  | visited it' id item => exact hset it' _ fun _ hdone => hdone
  | finished it' => exact hset it' _ fun _ _ => rfl
  | thrown it' => exact hset it' _ fun _ _ => rfl
  | _ => exact ⟨s, hs, hdone⟩

/-- What holds of the collections at every point of a run.

* The records of a vector are its live ones, in order, and their number is its size;
* they are in the order they were inserted, one for each key SameValueZero tells apart;
* a lookup finds the value stored last;
* an iteration has visited records in their order, none twice. -/
structure Collections.Holds (c : Collections) (events : List CollectionEvent) : Prop where
  records : ∀ t, (c.slots t).records = (collectionsAfter events).records t
  size : ∀ t, (c.slots t).size = ((collectionsAfter events).records t).live.length
  room : ∀ t, (c.slots t).count ≤ (c.slots t).capacity
  ordered : ∀ t, ((collectionsAfter events).records t).live.Pairwise
    fun record record' => record.id < record'.id
  distinct : ∀ t, ((collectionsAfter events).records t).live.Pairwise
    fun record record' => sameValueZero record.key record'.key = false
  lookup : ∀ t key, (((collectionsAfter events).records t).lookup key).map Record.value =
    lastValue t key events
  visits : ∀ it s, (collectionsAfter events).iteration it = some s → s.visited.Pairwise (· < ·)

/-- No collection holds anything at first. -/
lemma Collections.start_tracks (entries : ℕ → ℕ → MapEntry) (elements : ℕ → ℕ → SetElement) :
    (Collections.start entries elements).Tracks (collectionsAfter []) := by
  constructor
  case represents =>
    intro t
    cases t <;> exact ⟨rfl, rfl, Nat.le_refl 0, Records.empty_ok⟩
  case cursor =>
    intro it cursor hcursor
    cases it <;> simp [Collections.cursor, Collections.start] at hcursor
  case finished => exact fun it s _ hs => by cases hs
  case fresh => exact fun _ _ => rfl
  case created =>
    intro it hcreated
    cases it <;> exact absurd hcreated (by simp [Collections.Created, Collections.start])
  case sorted => exact fun it s hs => by cases hs
  case activation => exact fun _ _ => rfl

/-- In every run the collections are ordered record lists, each step answers as they ask, and an
iteration that has finished visits nothing more. -/
theorem collectionRun_refines {entries : ℕ → ℕ → MapEntry} {elements : ℕ → ℕ → SetElement}
    (hrun : Steps (CollectionStep representative) (Collections.start entries elements) events c) :
    c.Holds events ∧ ∀ past event rest, events = past ++ event :: rest →
      CollectionAnswers (collectionsAfter past) event ∧
        ∀ it, .finished it ∈ past → ∀ id item, event ≠ .visited it id item := by
  obtain ⟨⟨ht, -⟩, heach⟩ := hrun.invariant_each
    (I := fun events c => c.Tracks (collectionsAfter events) ∧
      ∀ it, .finished it ∈ events → (collectionsAfter events).Finished it)
    (P := fun past event => CollectionAnswers (collectionsAfter past) event ∧
      ∀ it, .finished it ∈ past → ∀ id item, event ≠ .visited it id item)
    ⟨Collections.start_tracks entries elements, by simp⟩
    fun past c event c' ⟨ht, hfinished⟩ hstep => by
      obtain ⟨hanswers, ht'⟩ := hstep.tracks ht
      rw [collectionsAfter_concat]
      refine ⟨⟨hanswers, fun it hmem id item heq => ?_⟩, ht', fun it hmem => ?_⟩
      · obtain ⟨s, hs, hdone⟩ := hfinished it hmem
        rw [heq] at hanswers
        obtain ⟨s', hs', hgoing, -⟩ := hanswers
        rw [hs, some.injEq] at hs'
        rw [← hs', hdone] at hgoing
        cases hgoing
      · rw [mem_append, mem_singleton] at hmem
        rcases hmem with hmem | rfl
        · exact (hfinished it hmem).step hanswers
        · obtain ⟨s, hs, -⟩ := hanswers
          exact ⟨{ s with done := true }, by
            simp [collectionStep, CollectionHistory.setIteration, hs], rfl⟩
  refine ⟨?_, heach⟩
  constructor
  case records => exact fun t => (ht.represents t).records
  case size => exact fun t => (ht.represents t).size
  case room => exact fun t => (ht.represents t).capacity
  case ordered => exact fun t => (ht.represents t).ok.sorted
  case distinct => exact fun t => (ht.represents t).ok.distinct
  case lookup => exact collectionsAfter_valueOf events
  case visits => exact ht.sorted

/-- A run that stores under a negative zero, looks the positive one up, and iterates. -/
theorem collectionRun_refines_zero : ∃ c : Collections,
    c.Holds [.stored (.map 0) (.number (.zero false)) .null,
      .got (.map 0) (.number (.zero false)) .null,
      .started (.mapIterator 0) (.map 0) .key,
      .visited (.mapIterator 0) 0 (.key (.number (.zero false)))] := by
  have hset := @CollectionStep.set id (Collections.start (fun _ _ => .tombstone)
    fun _ _ => .tombstone) _ 0 (.number (.zero true)) .null _
    (some fun _ => .tombstone) rfl
  have hget := (Steps.single hset).snoc
    (@CollectionStep.get id _ 0 (.number (.zero false)) _ rfl)
  have hiterator := hget.snoc (@CollectionStep.iterator id _ _ 0 "Map.prototype.keys" .key rfl)
  exact ⟨_, (collectionRun_refines (hiterator.snoc
    (@CollectionStep.iteratorNext id _ _ 0 _ (Nat.zero_lt_one) rfl))).1⟩

end Oseo.KeyedCollections
