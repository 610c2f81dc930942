import Oseo.KeyedCollections.Maps

/-!
# The ordered record list and its steps

What a Map or a Set is for: a list of records in the order they were inserted, one for each key
that SameValueZero tells apart. A record is named by the number of records inserted before it.

A step is an operation that calls no user code, or the part of one between two calls. Between a
call and the step after it any other steps may come in.
-/

namespace Oseo.KeyedCollections

open List

/-- A record. That of a Set has its key as its value. -/
structure Record where
  id : ℕ
  key : Value
  value : Value
deriving DecidableEq

/-- An ordered record list, and how many records have been inserted. -/
structure Records where
  live : List Record
  next : ℕ

variable {r : Records} {key value : Value}

/-- The record of a key. -/
def Records.lookup (r : Records) (key : Value) : Option Record :=
  r.live.find? fun record => sameValueZero record.key key

/-- Inserts a record behind the others. -/
def Records.insert (r : Records) (key value : Value) : Records where
  live := r.live ++ [⟨r.next, key, value⟩]
  next := r.next + 1

/-- Inserts a record unless its key has one. -/
def Records.add (r : Records) (key value : Value) : Records :=
  if (r.lookup key).isSome then r else r.insert key value

/-- Stores a value under a key. -/
def Records.store (r : Records) (key value : Value) : Records :=
  if (r.lookup key).isSome then
    { r with
      live := r.live.map fun record =>
        if sameValueZero record.key key then { record with value := value } else record }
  else r.insert key value

/-- Takes the record of a key out. -/
def Records.delete (r : Records) (key : Value) : Records :=
  { r with live := r.live.filter fun record => !sameValueZero record.key key }

/-- Takes all records out. -/
def Records.clear (r : Records) : Records := { r with live := [] }

/-- The records are in the order they were inserted, and no two have the same key. -/
structure Records.Ok (r : Records) : Prop where
  sorted : r.live.Pairwise fun record record' => record.id < record'.id
  lt : ∀ record ∈ r.live, record.id < r.next
  distinct : r.live.Pairwise fun record record' => sameValueZero record.key record'.key = false

lemma Records.empty_ok : Records.Ok ⟨[], 0⟩ := by
  constructor <;> simp

lemma Records.lookup_none (h : r.lookup key = none) :
    ∀ record ∈ r.live, sameValueZero record.key key = false := by
  intro record hmem
  exact Bool.eq_false_iff.mpr (find?_eq_none.mp h record hmem)

lemma Records.Ok.insert (h : r.Ok) (hnone : r.lookup key = none) : (r.insert key value).Ok := by
  constructor
  case sorted =>
    refine pairwise_append.mpr ⟨h.sorted, pairwise_singleton _ _, ?_⟩
    intro record hmem record' hmem'
    rw [mem_singleton.mp hmem']
    exact h.lt record hmem
  case lt =>
    intro record hmem
    rcases mem_append.mp hmem with hmem | hmem
    · exact Nat.lt_succ_of_lt (h.lt record hmem)
    · rw [mem_singleton.mp hmem]
      exact Nat.lt_succ_self r.next
  case distinct =>
    refine pairwise_append.mpr ⟨h.distinct, pairwise_singleton _ _, ?_⟩
    intro record hmem record' hmem'
    rw [mem_singleton.mp hmem']
    exact Records.lookup_none hnone record hmem

lemma Records.Ok.store (h : r.Ok) (key value : Value) : (r.store key value).Ok := by
  unfold Records.store
  by_cases hsome : (r.lookup key).isSome = true
  · rw [if_pos hsome]
    -- Ids and keys stay.
    have hsame : ∀ record : Record, (if sameValueZero record.key key then
        { record with value := value } else record).id = record.id ∧
        (if sameValueZero record.key key then
          { record with value := value } else record).key = record.key := by
      intro record
      split <;> exact ⟨rfl, rfl⟩
    constructor
    case sorted =>
      refine pairwise_map.mpr (h.sorted.imp fun {x y} hlt => ?_)
      rw [(hsame x).1, (hsame y).1]
      exact hlt
    case lt =>
      intro record hmem
      obtain ⟨x, hx, rfl⟩ := mem_map.mp hmem
      rw [(hsame x).1]
      exact h.lt x hx
    case distinct =>
      refine pairwise_map.mpr (h.distinct.imp fun {x y} hne => ?_)
      rw [(hsame x).2, (hsame y).2]
      exact hne
  · rw [if_neg hsome]
    exact h.insert (Option.not_isSome_iff_eq_none.mp hsome)

lemma Records.Ok.delete (h : r.Ok) (key : Value) : (r.delete key).Ok where
  sorted := h.sorted.filter _
  lt record hmem := h.lt record (List.mem_of_mem_filter hmem)
  distinct := h.distinct.filter _

lemma Records.clear_ok (r : Records) : r.clear.Ok := by
  constructor <;> simp [Records.clear]

/-- A key has one record. -/
lemma Records.Ok.unique (h : r.Ok) {x y : Record} (hx : x ∈ r.live) (hy : y ∈ r.live)
    (hkey : sameValueZero x.key y.key = true) : x = y := by
  have hpair : r.live.Pairwise fun x y => sameValueZero x.key y.key = true → x = y :=
    h.distinct.imp fun hfalse htrue => by simp [htrue] at hfalse
  refine hpair.forall_of_forall_of_flip (fun _ _ _ => rfl) ?_ hx hy hkey
  refine h.distinct.imp fun {x y} hfalse htrue => ?_
  rw [sameValueZero_comm, htrue] at hfalse
  cases hfalse

/-! ## The history of the collections -/

/-- A Map or a Set. -/
inductive Target
  | map (m : ℕ)
  | set (s : ℕ)
deriving DecidableEq

/-- What iterates over a collection: an iterator, or a call of forEach. -/
inductive Iteration
  | mapIterator (i : ℕ)
  | setIterator (i : ℕ)
  | forEach (f : ℕ)
deriving DecidableEq

/-- What a step does. Keys are as they are stored. -/
inductive CollectionEvent
  | stored (t : Target) (key value : Value)
  | inserted (t : Target) (key value : Value)
  | kept (t : Target) (key value : Value)
  | got (t : Target) (key value : Value)
  | has (t : Target) (key : Value) (present : Bool)
  | deleted (t : Target) (key : Value) (removed : Bool)
  | cleared (t : Target)
  | sized (t : Target) (size : ℕ)
  | started (it : Iteration) (t : Target) (kind : IterationKind)
  | visited (it : Iteration) (id : ℕ) (item : Item)
  | finished (it : Iteration)
  | thrown (it : Iteration)
  | called

/-- What an iteration has done. -/
structure IterationHistory where
  target : Target
  kind : IterationKind
  visited : List ℕ
  done : Bool

/-- The records of every collection, and what every iteration has done. -/
structure CollectionHistory where
  records : Target → Records
  iteration : Iteration → Option IterationHistory

/-- Writes the records of one collection. -/
def CollectionHistory.setRecords (h : CollectionHistory) (t : Target) (r : Records) :
    CollectionHistory :=
  { h with records := Function.update h.records t r }

/-- Writes what one iteration has done. -/
def CollectionHistory.setIteration (h : CollectionHistory) (it : Iteration)
    (f : IterationHistory → IterationHistory) : CollectionHistory :=
  { h with iteration := Function.update h.iteration it ((h.iteration it).map f) }

/-- One step. -/
def collectionStep (h : CollectionHistory) : CollectionEvent → CollectionHistory
  | .stored t key value => h.setRecords t ((h.records t).store key value)
  | .inserted t key value => h.setRecords t ((h.records t).add key value)
  | .deleted t key _ => h.setRecords t ((h.records t).delete key)
  | .cleared t => h.setRecords t (h.records t).clear
  | .started it t kind =>
    { h with iteration := Function.update h.iteration it (some ⟨t, kind, [], false⟩) }
  | .visited it id _ => h.setIteration it fun s => { s with visited := s.visited ++ [id] }
  | .finished it => h.setIteration it fun s => { s with done := true }
  | .thrown it => h.setIteration it fun s => { s with done := true }
  | _ => h

/-- What a sequence of steps makes of collections that are empty at first. -/
def collectionsAfter (events : List CollectionEvent) : CollectionHistory :=
  events.foldl collectionStep ⟨fun _ => ⟨[], 0⟩, fun _ => none⟩

/-- The result a step has to have. An iteration visits the first live record it has not visited,
and finishes when it has visited all of them; then it stays finished. -/
def CollectionAnswers (h : CollectionHistory) : CollectionEvent → Prop
  | .inserted t key _ => (h.records t).lookup key = none
  | .kept t key value => ((h.records t).lookup key).map Record.value = some value
  | .got t key value => value = (((h.records t).lookup key).map Record.value).getD .undefined
  | .has t key present => present = ((h.records t).lookup key).isSome
  | .deleted t key removed => removed = ((h.records t).lookup key).isSome
  | .sized t size => size = (h.records t).live.length
  | .started it _ _ => h.iteration it = none
  | .visited it id item => ∃ s, h.iteration it = some s ∧ s.done = false ∧ id ∉ s.visited ∧
      (∃ record ∈ (h.records s.target).live, record.id = id ∧
        item = s.kind.item record.key record.value) ∧
      ∀ record ∈ (h.records s.target).live, record.id < id → record.id ∈ s.visited
  | .finished it => ∃ s, h.iteration it = some s ∧
      (s.done = true ∨ ∀ record ∈ (h.records s.target).live, record.id ∈ s.visited)
  | _ => True

/-- The value stored under a key by the last of a sequence of steps that concerns the key. -/
def lastValue (t : Target) (key : Value) (events : List CollectionEvent) : Option Value :=
  events.foldl (fun last event =>
    match event with
    | .stored t' key' value => if t' = t ∧ sameValueZero key' key then some value else last
    | .inserted t' key' value =>
      if t' = t ∧ sameValueZero key' key then last.or (some value) else last
    | .deleted t' key' _ => if t' = t ∧ sameValueZero key' key then none else last
    | .cleared t' => if t' = t then none else last
    | _ => last) none

/-! ## Steps of the keyed collections -/

/-- The key a record gets. -/
def storedKey (representative : ℕ → ℕ) (key : Value) : Value :=
  localSymbol representative (mapNormalizeKey key)

/-- Every collection is empty, with any memory behind it, and nothing iterates. -/
def Collections.start (entries : ℕ → ℕ → MapEntry) (elements : ℕ → ℕ → SetElement) :
    Collections where
  map m := { entries := entries m, entryCapacity := 0, entryCount := 0, liveCount := 0 }
  set s := { elements := elements s, elementCapacity := 0, elementCount := 0, size := 0 }
  mapIterator _ := { target := none, index := 0, kind := .key }
  setIterator _ := { set := none, index := 0, kind := .value, done := true }
  activation _ := none
  nextMapIterator := 0
  nextSetIterator := 0
  nextActivation := 0

/-- What a step of an iteration says. -/
def iterationEvent (it : Iteration) : Option (ℕ × Item) → CollectionEvent
  | some (id, item) => .visited it id item
  | none => .finished it

/-- One step. -/
inductive CollectionStep (representative : ℕ → ℕ) :
    Collections → CollectionEvent → Collections → Prop
  | get {c : Collections} {m : ℕ} {key value : Value}
      (run : mapPrototypeGet c (.map m) key = .ok value) :
      CollectionStep representative c (.got (.map m) key value) c
  | has {c : Collections} {m : ℕ} {key : Value} {present : Bool}
      (run : mapPrototypeHas c (.map m) key = .ok present) :
      CollectionStep representative c (.has (.map m) key present) c
  | set {c c' : Collections} {m : ℕ} {key value result : Value} {memory : Option (ℕ → MapEntry)}
      (run : mapPrototypeSet representative c (.map m) key value memory = .ok (result, c')) :
      CollectionStep representative c (.stored (.map m) (storedKey representative key) value) c'
  | getOrInsertKept {c c' : Collections} {m : ℕ} {key value result : Value}
      {memory : Option (ℕ → MapEntry)}
      (run : mapPrototypeGetOrInsert representative c (.map m) key value memory =
        .ok ((result, false), c')) :
      CollectionStep representative c (.kept (.map m) key result) c'
  | getOrInsert {c c' : Collections} {m : ℕ} {key value result : Value}
      {memory : Option (ℕ → MapEntry)}
      (run : mapPrototypeGetOrInsert representative c (.map m) key value memory =
        .ok ((result, true), c')) :
      CollectionStep representative c
        (.inserted (.map m) (storedKey representative key) result) c'
  | getOrInsertComputedKept {c c' : Collections} {m : ℕ} {key callback result : Value}
      (run : mapPrototypeGetOrInsertComputed c (.map m) key callback = .ok (some result, c')) :
      CollectionStep representative c (.kept (.map m) key result) c'
  | getOrInsertComputed {c c' : Collections} {m : ℕ} {key callback : Value}
      (run : mapPrototypeGetOrInsertComputed c (.map m) key callback = .ok (none, c')) :
      CollectionStep representative c .called c'
  | getOrInsertComputedEnd {c c' : Collections} {f m : ℕ} {key value : Value}
      {memory : Option (ℕ → MapEntry)}
      (active : c.activation f = some (.getOrInsertComputed m key))
      (run : mapGetOrInsertComputedEnd representative c f m key value memory = .ok c') :
      CollectionStep representative c (.stored (.map m) (localSymbol representative key) value) c'
  | getOrInsertComputedThrows {c : Collections} {f m : ℕ} {key : Value}
      (active : c.activation f = some (.getOrInsertComputed m key)) :
      CollectionStep representative c .called (c.setActivation f none)
  | delete {c c' : Collections} {m : ℕ} {key : Value} {removed : Bool}
      (run : mapPrototypeDelete c (.map m) key = .ok (removed, c')) :
      CollectionStep representative c (.deleted (.map m) key removed) c'
  | clear {c c' : Collections} {m : ℕ} (run : mapPrototypeClear c (.map m) = .ok c') :
      CollectionStep representative c (.cleared (.map m)) c'
  | size {c : Collections} {m size : ℕ} (run : mapPrototypeSize c (.map m) = .ok size) :
      CollectionStep representative c (.sized (.map m) size) c
  | forEach {c c' : Collections} {m : ℕ} {callback : Value}
      (run : mapPrototypeForEach c (.map m) callback = .ok c') :
      CollectionStep representative c (.started (.forEach c.nextActivation) (.map m) .entry) c'
  | forEachNext {c : Collections} {f m index : ℕ}
      (active : c.activation f = some (.mapForEach m index)) :
      CollectionStep representative c
        (iterationEvent (.forEach f) (mapForEachNext c f m index).1)
        (mapForEachNext c f m index).2
  | forEachThrows {c : Collections} {f m index : ℕ}
      (active : c.activation f = some (.mapForEach m index)) :
      CollectionStep representative c (.thrown (.forEach f)) (c.setActivation f none)
  | iterator {c c' : Collections} {m : ℕ} {method : String} {kind : IterationKind}
      (run : mapCreateIterator c method (.map m) kind = .ok c') :
      CollectionStep representative c
        (.started (.mapIterator c.nextMapIterator) (.map m) kind) c'
  | iteratorNext {c c' : Collections} {i : ℕ} {result : Option (ℕ × Item)}
      (created : i < c.nextMapIterator)
      (run : mapIteratorNext c (.mapIterator i) = .ok (result, c')) :
      CollectionStep representative c (iterationEvent (.mapIterator i) result) c'
  | addKept {c c' : Collections} {s : ℕ} {value result : Value}
      {memory : Option (ℕ → SetElement)}
      (run : setAdd representative c (.set s) value memory = .ok ((result, false), c')) :
      CollectionStep representative c (.has (.set s) value true) c'
  | add {c c' : Collections} {s : ℕ} {value result : Value} {memory : Option (ℕ → SetElement)}
      (run : setAdd representative c (.set s) value memory = .ok ((result, true), c')) :
      CollectionStep representative c (.inserted (.set s) (storedKey representative value)
        (storedKey representative value)) c'
  | setHas {c : Collections} {s : ℕ} {value : Value} {present : Bool}
      (run : setHas c (.set s) value = .ok present) :
      CollectionStep representative c (.has (.set s) value present) c
  | setDelete {c c' : Collections} {s : ℕ} {value : Value} {removed : Bool}
      (run : setDelete c (.set s) value = .ok (removed, c')) :
      CollectionStep representative c (.deleted (.set s) value removed) c'
  | setClear {c c' : Collections} {s : ℕ} (run : setClear c (.set s) = .ok c') :
      CollectionStep representative c (.cleared (.set s)) c'
  | setSize {c : Collections} {s size : ℕ} (run : setSize c (.set s) = .ok size) :
      CollectionStep representative c (.sized (.set s) size) c
  | setForEach {c c' : Collections} {s : ℕ} {callback : Value}
      (run : setForEach c (.set s) callback = .ok c') :
      CollectionStep representative c (.started (.forEach c.nextActivation) (.set s) .entry) c'
  | setForEachNext {c : Collections} {f s index : ℕ}
      (active : c.activation f = some (.setForEach s index)) :
      CollectionStep representative c
        (iterationEvent (.forEach f) (setForEachNext c f s index).1)
        (setForEachNext c f s index).2
  | setForEachThrows {c : Collections} {f s index : ℕ}
      (active : c.activation f = some (.setForEach s index)) :
      CollectionStep representative c (.thrown (.forEach f)) (c.setActivation f none)
  | setValues {c c' : Collections} {s : ℕ} (run : setValues c (.set s) = .ok c') :
      CollectionStep representative c
        (.started (.setIterator c.nextSetIterator) (.set s) .value) c'
  | setEntries {c c' : Collections} {s : ℕ} (run : setEntries c (.set s) = .ok c') :
      CollectionStep representative c
        (.started (.setIterator c.nextSetIterator) (.set s) .entry) c'
  | setIteratorNext {c c' : Collections} {i : ℕ} {result : Option (ℕ × Item)}
      (created : i < c.nextSetIterator)
      (run : setIteratorNext c (.setIterator i) = .ok (result, c')) :
      CollectionStep representative c (iterationEvent (.setIterator i) result) c'

/-! ## The vectors represent ordered record lists

What the operations on one vector do to the records in it.
-/

open Function
open Oseo.Library

/-- The vector of a Map or a Set, with the number of its records. -/
structure Slots where
  live : ℕ → Bool
  key : ℕ → Value
  value : ℕ → Value
  count : ℕ
  capacity : ℕ
  size : ℕ

/-- The vector of a Map. -/
def OseoMap.slots (map : OseoMap) : Slots where
  live i := (map.entries i).live
  key i := (map.entries i).key
  value i := (map.entries i).value
  count := map.entryCount
  capacity := map.entryCapacity
  size := map.liveCount

/-- The vector of a Set. -/
def OseoSet.slots (set : OseoSet) : Slots where
  live i := (set.elements i).present
  key i := (set.elements i).value
  value i := (set.elements i).value
  count := set.elementCount
  capacity := set.elementCapacity
  size := set.size

/-- The record at a position. -/
def Slots.record (s : Slots) (i : ℕ) : Record := ⟨i, s.key i, s.value i⟩

/-- The records of a vector: its live positions, in order. -/
def Slots.records (s : Slots) : Records where
  live := (livePositions s.live s.count).map s.record
  next := s.count

/-- The position of a key. -/
def Slots.find (s : Slots) (key : Value) : Option ℕ :=
  firstFrom (fun i => s.live i && sameValueZero (s.key i) key) 0 s.count

/-- The vector holds the records. -/
structure Slots.Represents (s : Slots) (r : Records) : Prop where
  records : s.records = r
  size : s.size = r.live.length
  capacity : s.count ≤ s.capacity
  ok : r.Ok

variable {s s' : Slots} {i index : ℕ}

lemma mapEntryFind_eq (map : OseoMap) (key : Value) :
    mapEntryFind map key = map.slots.find key := rfl

/-- The scan for a key finds the record the key has. -/
lemma Slots.lookup_eq (s : Slots) (key : Value) :
    s.records.lookup key = (s.find key).map s.record := by
  unfold Records.lookup Slots.find firstFrom
  show find? _ (map s.record (livePositions s.live s.count)) = _
  rw [find?_map, livePositions, find?_filter, Nat.sub_zero, ← range_eq_range']
  congr 2
  ext i
  rw [Bool.decide_and, Bool.decide_eq_true, Bool.decide_eq_true]
  rfl

lemma Slots.find_some (h : s.find key = some i) :
    i < s.count ∧ s.live i = true ∧ sameValueZero (s.key i) key = true := by
  obtain ⟨hbounds, hp, -⟩ := firstFrom_some.mp h
  rw [Bool.and_eq_true] at hp
  exact ⟨hbounds.2, hp⟩

lemma Slots.mem_live {record : Record} :
    record ∈ s.records.live ↔ ∃ i, i < s.count ∧ s.live i = true ∧ record = s.record i := by
  show record ∈ map s.record _ ↔ _
  rw [mem_map]
  constructor
  · rintro ⟨i, hi, rfl⟩
    obtain ⟨hlt, hlive⟩ := mem_livePositions.mp hi
    exact ⟨i, hlt, hlive, rfl⟩
  · rintro ⟨i, hlt, hlive, rfl⟩
    exact ⟨i, mem_livePositions.mpr ⟨hlt, hlive⟩, rfl⟩

/-- The key at no other position. -/
lemma Slots.Represents.find_unique (hr : s.Represents r) (hfind : s.find key = some i) {j : ℕ}
    (hlt : j < s.count) (hlive : s.live j = true) :
    sameValueZero (s.key j) key = true ↔ j = i := by
  obtain ⟨hlti, hlivei, hkeyi⟩ := Slots.find_some hfind
  constructor
  · intro hkey
    have hj : s.record j ∈ r.live := hr.records ▸ Slots.mem_live.mpr ⟨j, hlt, hlive, rfl⟩
    have hi : s.record i ∈ r.live := hr.records ▸ Slots.mem_live.mpr ⟨i, hlti, hlivei, rfl⟩
    have hsame : sameValueZero (s.key j) (s.key i) = true := by
      rw [sameValueZero_comm] at hkeyi
      exact sameValueZero_trans hkey hkeyi
    exact congrArg Record.id (hr.ok.unique hj hi hsame)
  · rintro rfl
    exact hkeyi

/-! ## Writes -/

/-- What appending a record changes. -/
structure Appends (s s' : Slots) (key value : Value) : Prop where
  old : ∀ i < s.count, s'.live i = s.live i ∧ s'.key i = s.key i ∧ s'.value i = s.value i
  new : s'.live s.count = true ∧ s'.key s.count = key ∧ s'.value s.count = value
  count : s'.count = s.count + 1
  size : s'.size = s.size + 1
  capacity : s'.count ≤ s'.capacity

theorem Slots.Represents.append (hr : s.Represents r) (ha : Appends s s' key value)
    (hnone : r.lookup key = none) : s'.Represents (r.insert key value) := by
  constructor
  case records =>
    unfold Slots.records
    rw [ha.count, livePositions_append (fun i hi => (ha.old i hi).1) ha.new.1, map_append,
      map_singleton, Records.insert]
    have hold : (livePositions s.live s.count).map s'.record = r.live := by
      rw [← hr.records]
      refine map_congr_left fun i hi => ?_
      obtain ⟨-, hkey, hvalue⟩ := ha.old i (mem_livePositions.mp hi).1
      rw [Slots.record, Slots.record, hkey, hvalue]
    have hnext : r.next = s.count := by rw [← hr.records]; rfl
    rw [hold, hnext, Slots.record, ha.new.2.1, ha.new.2.2]
  case size =>
    rw [ha.size, hr.size]
    simp [Records.insert]
  case capacity => exact ha.capacity
  case ok => exact hr.ok.insert hnone

/-- What storing a value at a position changes. -/
structure Stores (s s' : Slots) (i : ℕ) (value : Value) : Prop where
  live : s'.live = s.live
  key : s'.key = s.key
  value : ∀ j, s'.value j = if j = i then value else s.value j
  count : s'.count = s.count
  size : s'.size = s.size
  capacity : s'.capacity = s.capacity

lemma Slots.Represents.store (hr : s.Represents r) (hs : Stores s s' i value)
    (hfind : s.find key = some i) : s'.Represents (r.store key value) := by
  have hsome : (r.lookup key).isSome = true := by
    rw [← hr.records, Slots.lookup_eq, hfind]
    rfl
  have hok := hr.ok.store key value
  unfold Records.store at hok ⊢
  rw [if_pos hsome] at hok ⊢
  constructor
  case records =>
    unfold Slots.records
    rw [← hr.records, hs.count, hs.live]
    congr 1
    show _ = map _ (map s.record _)
    rw [map_map]
    refine map_congr_left fun j hj => ?_
    obtain ⟨hlt, hlive⟩ := mem_livePositions.mp hj
    have hkey := hr.find_unique hfind hlt hlive
    rw [Slots.record, hs.key, hs.value]
    by_cases hji : j = i
    · simp only [comp_apply, Slots.record, hkey.mpr hji, if_pos hji, if_true]
    · have hne := Bool.eq_false_iff.mpr fun h => hji (hkey.mp h)
      simp only [comp_apply, Slots.record, hne, if_neg hji, Bool.false_eq_true, if_false]
  case size =>
    rw [hs.size, hr.size, length_map]
  case capacity =>
    rw [hs.count, hs.capacity]
    exact hr.capacity
  case ok => exact hok

/-- What deleting the record at a position changes. -/
structure Removes (s s' : Slots) (i : ℕ) : Prop where
  live : ∀ j, s'.live j = if j = i then false else s.live j
  key : ∀ j, j ≠ i → s'.key j = s.key j
  value : ∀ j, j ≠ i → s'.value j = s.value j
  count : s'.count = s.count
  size : s'.size = s.size - 1
  capacity : s'.capacity = s.capacity

lemma Slots.Represents.remove (hr : s.Represents r) (hs : Removes s s' i)
    (hfind : s.find key = some i) : s'.Represents (r.delete key) := by
  obtain ⟨hlti, hlivei, -⟩ := Slots.find_some hfind
  have hdelete : (r.delete key).live =
      ((livePositions s.live s.count).filter (· ≠ i)).map s.record := by
    show filter _ r.live = _
    rw [← hr.records]
    show filter _ (map s.record _) = _
    rw [filter_map]
    refine congrArg _ (filter_congr fun j hj => ?_)
    obtain ⟨hlt, hlive⟩ := mem_livePositions.mp hj
    have hkey := hr.find_unique hfind hlt hlive
    by_cases hji : j = i
    · have htrue := hkey.mpr hji
      simp only [comp_apply, Slots.record, htrue]
      simp [hji]
    · have hne := Bool.eq_false_iff.mpr fun h => hji (hkey.mp h)
      simp only [comp_apply, Slots.record, hne]
      simp [hji]
  constructor
  case records =>
    have hlive : s'.records.live = (r.delete key).live := by
      show map s'.record _ = _
      rw [hdelete, hs.count, livePositions_remove hs.live]
      refine map_congr_left fun j hj => ?_
      have hji : j ≠ i := by simpa using of_mem_filter hj
      rw [Slots.record, Slots.record, hs.key j hji, hs.value j hji]
    have hnext : s'.records.next = (r.delete key).next := by
      show s'.count = r.next
      rw [hs.count, ← hr.records]
      rfl
    cases hr' : r.delete key
    rw [hr'] at hlive hnext
    simp only at hlive hnext
    rw [← hlive, ← hnext]
  case size =>
    have hlen : (livePositions s.live s.count).length = r.live.length := by
      rw [← hr.records]
      simp [Slots.records]
    have hmem : i ∈ livePositions s.live s.count := mem_livePositions.mpr ⟨hlti, hlivei⟩
    have hnodup : (livePositions s.live s.count).Nodup :=
      (pairwise_lt_range.filter _).imp Nat.ne_of_lt
    rw [hdelete, length_map, hs.size, hr.size, ← hlen, ← length_erase_of_mem hmem,
      hnodup.erase_eq_filter]
    congr 1
    refine filter_congr fun j _ => ?_
    by_cases hji : j = i <;> simp [hji]
  case capacity =>
    rw [hs.count, hs.capacity]
    exact hr.capacity
  case ok => exact hr.ok.delete key

/-- What clearing a vector changes. -/
structure Clears (s s' : Slots) : Prop where
  live : ∀ i < s.count, s'.live i = false
  count : s'.count = s.count
  size : s'.size = 0
  capacity : s'.capacity = s.capacity

theorem Slots.Represents.clear (hr : s.Represents r) (hs : Clears s s') :
    s'.Represents r.clear := by
  constructor
  case records =>
    unfold Slots.records
    rw [hs.count, livePositions_clear hs.live, ← hr.records]
    rfl
  case size => rw [hs.size]; rfl
  case capacity =>
    rw [hs.count, hs.capacity]
    exact hr.capacity
  case ok => exact Records.clear_ok r

/-- Deleting a key that has no record. -/
lemma Records.delete_of_none (hnone : r.lookup key = none) : r.delete key = r := by
  unfold Records.delete
  rw [filter_eq_self.mpr fun record hmem => ?_]
  rw [Records.lookup_none hnone record hmem]
  rfl

/-! ## The functions of the source -/

variable {map map' : OseoMap} {set set' : OseoSet} {representative : ℕ → ℕ}

/-- A normal completion of a sequence is one of each part. -/
lemma bind_eq_ok {α β : Type} {x : Except CollectionError α}
    {f : α → Except CollectionError β} {b : β} (h : (x >>= f) = .ok b) :
    ∃ a, x = .ok a ∧ f a = .ok b := by
  cases x with
  | error e => cases h
  | ok a => exact ⟨a, rfl, h⟩

lemma grownCapacity_lt {capacity size : ℕ}
    (h : ¬ (grownCapacity capacity < capacity ∨ grownCapacity capacity > sizeMax / size)) :
    capacity < grownCapacity capacity := by
  unfold grownCapacity at h ⊢
  by_cases hzero : capacity = 0
  · simp [hzero]
  · rw [if_neg hzero] at h ⊢
    have hwidth : sizeMax + 1 = 18446744073709551616 := rfl
    rw [hwidth] at h ⊢
    -- A product that wraps is below the capacity.
    omega

lemma mapGrowEntries_ok {memory : Option (ℕ → MapEntry)}
    (hcapacity : map.entryCount ≤ map.entryCapacity)
    (h : mapGrowEntries map memory = .ok map') :
    map'.entryCount = map.entryCount ∧ map'.liveCount = map.liveCount ∧
      map'.entryCount < map'.entryCapacity ∧
      ∀ i < map.entryCount, map'.entries i = map.entries i := by
  unfold mapGrowEntries at h
  by_cases hroom : map.entryCount < map.entryCapacity
  · rw [if_pos hroom] at h
    cases h
    exact ⟨rfl, rfl, hroom, fun _ _ => rfl⟩
  · rw [if_neg hroom] at h
    dsimp only at h
    split at h
    · cases h
    · next hcheck =>
      cases memory with
      | none => cases h
      | some memory =>
        cases h
        have hgrown := grownCapacity_lt hcheck
        exact ⟨rfl, rfl, Nat.lt_of_le_of_lt hcapacity hgrown, fun i hi => if_pos hi⟩

lemma mapAppendEntry_appends {memory : Option (ℕ → MapEntry)}
    (hcapacity : map.entryCount ≤ map.entryCapacity)
    (h : mapAppendEntry representative map key value memory = .ok map') :
    Appends map.slots map'.slots (localSymbol representative key) value := by
  obtain ⟨grown, hgrow, heq⟩ := bind_eq_ok h
  obtain ⟨hcount, hlive, hroom, hold⟩ := mapGrowEntries_ok hcapacity hgrow
  cases heq
  constructor
  case old =>
    intro i hi
    have hi' : i < map.entryCount := hi
    have hne : i ≠ grown.entryCount := by
      rw [hcount]
      exact Nat.ne_of_lt hi
    simp [OseoMap.slots, hne, hold i hi']
  case new =>
    have hcount' : map.slots.count = grown.entryCount := hcount.symm
    rw [hcount']
    simp [OseoMap.slots]
  case count => exact congrArg (· + 1) hcount
  case size => exact congrArg (· + 1) hlive
  case capacity => exact hroom

lemma growSet_ok {memory : Option (ℕ → SetElement)}
    (hcapacity : set.elementCount ≤ set.elementCapacity) (h : growSet set memory = .ok set') :
    set'.elementCount = set.elementCount ∧ set'.size = set.size ∧
      set'.elementCount < set'.elementCapacity ∧
      ∀ i < set.elementCount, set'.elements i = set.elements i := by
  unfold growSet at h
  by_cases hroom : set.elementCount < set.elementCapacity
  · rw [if_pos hroom] at h
    cases h
    exact ⟨rfl, rfl, hroom, fun _ _ => rfl⟩
  · rw [if_neg hroom] at h
    dsimp only at h
    split at h
    · cases h
    · next hcheck =>
      cases memory with
      | none => cases h
      | some memory =>
        cases h
        have hgrown := grownCapacity_lt hcheck
        exact ⟨rfl, rfl, Nat.lt_of_le_of_lt hcapacity hgrown, fun i hi => if_pos hi⟩

lemma setAppend_appends {memory : Option (ℕ → SetElement)}
    (hcapacity : set.elementCount ≤ set.elementCapacity)
    (h : setAppend representative set value memory = .ok set') :
    Appends set.slots set'.slots (localSymbol representative value)
      (localSymbol representative value) := by
  obtain ⟨grown, hgrow, heq⟩ := bind_eq_ok h
  obtain ⟨hcount, hlive, hroom, hold⟩ := growSet_ok hcapacity hgrow
  cases heq
  constructor
  case old =>
    intro i hi
    have hi' : i < set.elementCount := hi
    have hne : i ≠ grown.elementCount := by
      rw [hcount]
      exact Nat.ne_of_lt hi
    simp [OseoSet.slots, hne, hold i hi']
  case new =>
    have hcount' : set.slots.count = grown.elementCount := hcount.symm
    rw [hcount']
    simp [OseoSet.slots]
  case count => exact congrArg (· + 1) hcount
  case size => exact congrArg (· + 1) hlive
  case capacity => exact hroom

lemma mapStore_stores (map : OseoMap) (i : ℕ) (value : Value) :
    Stores map.slots (map.store i value).slots i value := by
  constructor
  case live =>
    ext j
    by_cases hj : j = i <;> simp [OseoMap.slots, OseoMap.store, update_apply, hj]
  case key =>
    ext j
    by_cases hj : j = i <;> simp [OseoMap.slots, OseoMap.store, update_apply, hj]
  case value =>
    intro j
    by_cases hj : j = i <;> simp [OseoMap.slots, OseoMap.store, update_apply, hj]
  all_goals rfl

lemma mapRemove_removes (map : OseoMap) (i : ℕ) :
    Removes map.slots
      { map with
        entries := update map.entries i .tombstone
        liveCount := map.liveCount - 1 : OseoMap }.slots i := by
  constructor
  case live =>
    intro j
    by_cases hj : j = i <;> simp [OseoMap.slots, MapEntry.tombstone, hj]
  case key =>
    intro j hj
    simp [OseoMap.slots, hj]
  case value =>
    intro j hj
    simp [OseoMap.slots, hj]
  all_goals rfl

lemma setRemoveAt_removes (set : OseoSet) (i : ℕ) :
    Removes set.slots (setRemoveAt set i).slots i := by
  constructor
  case live =>
    intro j
    by_cases hj : j = i <;> simp [OseoSet.slots, setRemoveAt, SetElement.tombstone, hj]
  case key =>
    intro j hj
    simp [OseoSet.slots, setRemoveAt, hj]
  case value =>
    intro j hj
    simp [OseoSet.slots, setRemoveAt, hj]
  all_goals rfl

lemma mapClear_clears (map : OseoMap) :
    Clears map.slots
      { map with
        entries := fun i => if i < map.entryCount then .tombstone else map.entries i
        liveCount := 0 : OseoMap }.slots := by
  constructor
  case live =>
    intro i hi
    have hi' : i < map.entryCount := hi
    simp [OseoMap.slots, MapEntry.tombstone, hi']
  all_goals rfl

lemma setClear_clears (set : OseoSet) :
    Clears set.slots
      { set with
        elements := fun i => if i < set.elementCount then .tombstone else set.elements i
        size := 0 : OseoSet }.slots := by
  constructor
  case live =>
    intro i hi
    have hi' : i < set.elementCount := hi
    simp [OseoSet.slots, SetElement.tombstone, hi']
  all_goals rfl

/-! ## What the operations do -/

variable {c c' : Collections} {m f : ℕ} {receiver callback result : Value}

/-- A Map in which a value has been stored under a key. -/
def Stored (representative : ℕ → ℕ) (map : OseoMap) (key value : Value)
    (memory : Option (ℕ → MapEntry)) (map' : OseoMap) : Prop :=
  (∃ i, mapEntryFind map key = some i ∧ map' = map.store i value) ∨
    mapEntryFind map key = none ∧ mapAppendEntry representative map key value memory = .ok map'

lemma mapPrototypeGet_ok (run : mapPrototypeGet c (.map m) key = .ok value) :
    value = ((mapEntryFind (c.map m) key).map (c.map m).slots.value).getD .undefined := by
  obtain ⟨m', hm, run⟩ := bind_eq_ok run
  cases hm
  split at run
  · next hfind =>
    cases run
    rw [hfind]
    rfl
  · next hfind =>
    cases run
    rw [hfind]
    rfl

lemma mapPrototypeSet_ok {memory : Option (ℕ → MapEntry)}
    (run : mapPrototypeSet representative c (.map m) key value memory = .ok (result, c')) :
    ∃ map, Stored representative (c.map m) (mapNormalizeKey key) value memory map ∧
      c' = c.setMap m fun _ => map := by
  obtain ⟨m', hm, run⟩ := bind_eq_ok run
  cases hm
  dsimp only at run
  split at run
  · next i hfind =>
    cases run
    exact ⟨_, .inl ⟨i, hfind, rfl⟩, rfl⟩
  · next hfind =>
    obtain ⟨map, happend, heq⟩ := bind_eq_ok run
    cases heq
    exact ⟨map, .inr ⟨hfind, happend⟩, rfl⟩

lemma mapPrototypeGetOrInsert_ok {memory : Option (ℕ → MapEntry)} {inserted : Bool}
    (run : mapPrototypeGetOrInsert representative c (.map m) key value memory =
      .ok ((result, inserted), c')) :
    if inserted then
      result = value ∧ mapEntryFind (c.map m) (mapNormalizeKey key) = none ∧
        ∃ map, mapAppendEntry representative (c.map m) (mapNormalizeKey key) value memory =
          .ok map ∧ c' = c.setMap m fun _ => map
    else c' = c ∧ ∃ i, mapEntryFind (c.map m) (mapNormalizeKey key) = some i ∧
      result = (c.map m).slots.value i := by
  obtain ⟨m', hm, run⟩ := bind_eq_ok run
  cases hm
  dsimp only at run
  split at run
  · next i hfind =>
    cases run
    exact ⟨rfl, i, hfind, rfl⟩
  · next hfind =>
    obtain ⟨map, happend, heq⟩ := bind_eq_ok run
    cases heq
    exact ⟨rfl, hfind, map, happend, rfl⟩

lemma mapPrototypeGetOrInsertComputed_ok {found : Option Value}
    (run : mapPrototypeGetOrInsertComputed c (.map m) key callback = .ok (found, c')) :
    match found with
    | some result => c' = c ∧ ∃ i, mapEntryFind (c.map m) (mapNormalizeKey key) = some i ∧
        result = (c.map m).slots.value i
    | none => c' = { c with nextActivation := c.nextActivation + 1 }.setActivation
        c.nextActivation (some (.getOrInsertComputed m (mapNormalizeKey key))) := by
  obtain ⟨m', hm, run⟩ := bind_eq_ok run
  cases hm
  split at run
  · dsimp only at run
    split at run
    · next i hfind =>
      cases run
      exact ⟨rfl, i, hfind, rfl⟩
    · cases run
      rfl
  · cases run

lemma mapGetOrInsertComputedEnd_ok {memory : Option (ℕ → MapEntry)}
    (run : mapGetOrInsertComputedEnd representative c f m key value memory = .ok c') :
    ∃ map, Stored representative (c.map m) key value memory map ∧
      c' = (c.setActivation f none).setMap m fun _ => map := by
  unfold mapGetOrInsertComputedEnd at run
  dsimp only at run
  split at run
  · next i hfind =>
    cases run
    exact ⟨_, .inl ⟨i, hfind, rfl⟩, rfl⟩
  · next hfind =>
    obtain ⟨map, happend, heq⟩ := bind_eq_ok run
    cases heq
    exact ⟨map, .inr ⟨hfind, happend⟩, rfl⟩

lemma mapPrototypeDelete_ok {removed : Bool}
    (run : mapPrototypeDelete c (.map m) key = .ok (removed, c')) :
    if removed then
      ∃ i, mapEntryFind (c.map m) key = some i ∧ c' = c.setMap m fun map =>
        { map with
          entries := update map.entries i .tombstone
          liveCount := map.liveCount - 1 }
    else mapEntryFind (c.map m) key = none ∧ c' = c := by
  obtain ⟨m', hm, run⟩ := bind_eq_ok run
  cases hm
  split at run
  · next hfind =>
    cases run
    exact ⟨hfind, rfl⟩
  · next i hfind =>
    cases run
    exact ⟨i, hfind, rfl⟩

lemma mapPrototypeForEach_ok (run : mapPrototypeForEach c (.map m) callback = .ok c') :
    c' = { c with nextActivation := c.nextActivation + 1 }.setActivation c.nextActivation
      (some (.mapForEach m 0)) := by
  obtain ⟨m', hm, run⟩ := bind_eq_ok run
  cases hm
  split at run
  · cases run
    rfl
  · cases run

lemma setAdd_ok {memory : Option (ℕ → SetElement)} {s : ℕ} {added : Bool}
    (run : setAdd representative c (.set s) value memory = .ok ((result, added), c')) :
    if added then
      setFind (c.set s) (normalizeSetValue value) = none ∧
        ∃ set, setAppend representative (c.set s) (normalizeSetValue value) memory = .ok set ∧
          c' = c.setSet s fun _ => set
    else c' = c ∧ (setFind (c.set s) (normalizeSetValue value)).isSome = true := by
  obtain ⟨s', hs, run⟩ := bind_eq_ok run
  cases hs
  dsimp only at run
  split at run
  · next hfind =>
    cases run
    exact ⟨rfl, hfind⟩
  · next hfind =>
    obtain ⟨set, happend, heq⟩ := bind_eq_ok run
    cases heq
    exact ⟨Option.not_isSome_iff_eq_none.mp hfind, set, happend, rfl⟩

lemma setDelete_ok {s : ℕ} {removed : Bool}
    (run : setDelete c (.set s) value = .ok (removed, c')) :
    if removed then
      ∃ i, setFind (c.set s) value = some i ∧ c' = c.setSet s fun set => setRemoveAt set i
    else setFind (c.set s) value = none ∧ c' = c := by
  obtain ⟨s', hs, run⟩ := bind_eq_ok run
  cases hs
  split at run
  · next hfind =>
    cases run
    exact ⟨hfind, rfl⟩
  · next i hfind =>
    cases run
    exact ⟨i, hfind, rfl⟩

lemma setForEach_ok {s : ℕ} (run : setForEach c (.set s) callback = .ok c') :
    c' = { c with nextActivation := c.nextActivation + 1 }.setActivation c.nextActivation
      (some (.setForEach s 0)) := by
  obtain ⟨s', hs, run⟩ := bind_eq_ok run
  cases hs
  split at run
  · cases run
    rfl
  · cases run

end Oseo.KeyedCollections
