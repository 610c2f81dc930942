import Oseo.Library.OpenAddressing
import Oseo.Library.LinkedChain
import Mathlib.Data.List.Nodup
import Mathlib.Data.List.Find
import Mathlib.Data.Nat.Bitwise

/-!
# The ephemeron table

The collector-only weak table of `runtime_memory.c`: its entries form a doubly linked chain,
and an open-addressed index leads from a key to its entry.

* Keys are heap objects, of any type `K`, with their address bits in `address`;
* entry records are a kind of heap object that is never a key, so they have references of
  their own;
* what the environment decides (the address of a new record, whether an allocation succeeds,
  which objects a collection marked) is a parameter.

A loop over the chain is given `live_count` turns.
-/

namespace Oseo.RuntimeMemory

open Oseo.Library

/-- The address of an entry record. -/
abbrev EntryRef := ℕ

/-- An entry record. A removed entry has an undefined key. -/
structure EphemeronEntry (K V : Type) where
  marked : Bool
  next : Option EntryRef
  previous : Option EntryRef
  key : Option K
  value : V

/-- A table. The index has capacity zero until it is first allocated. -/
structure EphemeronTable where
  head : Option EntryRef
  tail : Option EntryRef
  liveCount : ℕ
  index : List (Slot EntryRef)
  indexUsed : ℕ

/-- A table with the memory of entry records. -/
structure Ephemerons (K V : Type) where
  table : EphemeronTable
  entries : EntryRef → EphemeronEntry K V

/-- `oseo_internal_ephemeron_table_create`. -/
def ephemeronTableCreate : EphemeronTable where
  head := none
  tail := none
  liveCount := 0
  index := []
  indexUsed := 0

section
variable {K V : Type}

/-- Writes one entry record. -/
def Ephemerons.setEntry (s : Ephemerons K V) (r : EntryRef)
    (f : EphemeronEntry K V → EphemeronEntry K V) : Ephemerons K V :=
  { s with entries := Function.update s.entries r (f (s.entries r)) }

/-- Writes through a link: the table's head, or the `next` of an entry. -/
def Ephemerons.setLink (s : Ephemerons K V) (last target : Option EntryRef) : Ephemerons K V :=
  match last with
  | none => { s with table := { s.table with head := target } }
  | some p => s.setEntry p fun e => { e with next := target }

/-- Writes one index slot. -/
def Ephemerons.setSlot (s : Ephemerons K V) (slot : ℕ) (content : Slot EntryRef) :
    Ephemerons K V :=
  { s with table := { s.table with index := s.table.index.set slot content } }

/-- Counts one live entry less. -/
def Ephemerons.dropLive (s : Ephemerons K V) : Ephemerons K V :=
  { s with table := { s.table with liveCount := s.table.liveCount - 1 } }

/-! ## The index -/

/-- The slot a key's probe sequence starts at. -/
def ephemeronIndexStart (address : K → ℕ) (capacity : ℕ) (key : K) : ℕ :=
  ((address key >>> 3) * 0x9e3779b97f4a7c15 % 2 ^ 64) >>> 20 &&& (capacity - 1)

/-- The slot after another one. -/
def ephemeronIndexNext (capacity slot : ℕ) : ℕ := (slot + 1) &&& (capacity - 1)

variable [DecidableEq K]

/-- The index slot holding a key's entry. -/
def ephemeronIndexFind (address : K → ℕ) (s : Ephemerons K V) (key : K) : Option ℕ :=
  let capacity := s.table.index.length
  if capacity = 0 then none
  else
    findSlot (ephemeronIndexStart address capacity) (fun r => (s.entries r).key)
      (ephemeronIndexNext capacity) s.table.index key

omit [DecidableEq K] in
/-- Inserts into an index, and tells whether the slot was empty. No result where the loop
over the slots finds none to stop at. -/
def ephemeronIndexInsert (address : K → ℕ) (index : List (Slot EntryRef)) (key : K)
    (entry : EntryRef) : Option (Bool × List (Slot EntryRef)) :=
  let capacity := index.length
  (freeSlot (ephemeronIndexStart address capacity) (ephemeronIndexNext capacity) index key).map
    fun slot => ((slotAt index slot).isEmpty, index.set slot (.entry entry))

/-- The largest capacity that may be doubled: `SIZE_MAX / 2 / sizeof(OseoValue)`. -/
def capacityLimit : ℕ := (2 ^ 64 - 1) / 2 / 8

/-- Doubles a capacity until half of it holds one more than the live entries. No result when
the index would be too large; 64 doublings exceed every limit. -/
def growCapacity (liveCount : ℕ) : ℕ → ℕ → Option ℕ
  | 0, _ => none
  | fuel + 1, capacity =>
    if capacity / 2 < liveCount + 1 then
      if capacity > capacityLimit then none else growCapacity liveCount fuel (capacity * 2)
    else
      some capacity

omit [DecidableEq K] in
/-- Inserts every entry of the chain into a new index. -/
def ephemeronRebuild (address : K → ℕ) (s : Ephemerons K V) :
    ℕ → Option EntryRef → List (Slot EntryRef) × ℕ → Option (List (Slot EntryRef) × ℕ)
  | _, none, acc => some acc
  | 0, some _, _ => none
  | fuel + 1, some cursor, (index, used) =>
    match (s.entries cursor).key with
    | none => none
    | some key =>
      match ephemeronIndexInsert address index key cursor with
      | none => none
      | some (_, index) =>
        ephemeronRebuild address s fuel (s.entries cursor).next (index, used + 1)

omit [DecidableEq K] in
/-- Keeps one free index slot for an insertion: whether it could, and the table then. -/
def ephemeronIndexReserve (address : K → ℕ) (allocated : Bool) (s : Ephemerons K V) :
    Option (Bool × Ephemerons K V) :=
  if s.table.index.length ≠ 0 ∧ s.table.indexUsed + 1 ≤ s.table.index.length / 4 * 3 then
    some (true, s)
  else
    match growCapacity s.table.liveCount 64 8 with
    | none => some (false, s)
    | some capacity =>
      if allocated = false then some (false, s)
      else
        (ephemeronRebuild address s s.table.liveCount s.table.head
          (List.replicate capacity .empty, 0)).map fun (index, used) =>
            (true, { s with table := { s.table with index := index, indexUsed := used } })

/-! ## The collector's pass over one table -/

/-- Clears an unlinked record. -/
def EphemeronEntry.cleared [Inhabited V] (e : EphemeronEntry K V) : EphemeronEntry K V :=
  { e with next := none, previous := none, key := none, value := default }

/-- Whether a record's key is marked. -/
def EphemeronEntry.keyMarked (marked : K → Bool) (e : EphemeronEntry K V) : Bool :=
  e.key.any marked

/-- Unlinks one entry whose key died: `last` is the entry kept before it. -/
def unlinkDeadEntry [Inhabited V] (address : K → ℕ) (s : Ephemerons K V)
    (last : Option EntryRef) (r : EntryRef) : Ephemerons K V :=
  let entry := s.entries r
  let s := match entry.key.bind (ephemeronIndexFind address s) with
    | some slot => s.setSlot slot .tombstone
    | none => s
  let s := s.setLink last entry.next
  let s := match entry.next with
    | some n => s.setEntry n fun e => { e with previous := last }
    | none => s
  let s := s.setEntry r fun e => { e.cleared with marked := false }
  s.dropLive

/-- The part of `clear_dead_weak_edges` for one table: the walk over its chain, with the last
entry kept and the entry the link leads to. -/
def clearDeadEntries [Inhabited V] (address : K → ℕ) (marked : K → Bool) :
    ℕ → Option EntryRef → Option EntryRef → Ephemerons K V → Option (Ephemerons K V)
  | _, last, none, s => some { s with table := { s.table with tail := last } }
  | 0, _, some _, _ => none
  | fuel + 1, last, some r, s =>
    let entry := s.entries r
    if entry.keyMarked marked then
      clearDeadEntries address marked fuel (some r) entry.next s
    else
      clearDeadEntries address marked fuel last entry.next (unlinkDeadEntry address s last r)

/-- What a collection does to a table that stays alive. -/
def ephemeronCollect [Inhabited V] (address : K → ℕ) (marked : K → Bool) (s : Ephemerons K V) :
    Option (Ephemerons K V) :=
  clearDeadEntries address marked s.table.liveCount none s.table.head s

/-! ## The operations -/

/-- What the environment decides during a `set` of a new key: whether the index and the entry
are allocated, which keys the collection at the entry's safepoint marked, if there was one,
and whether the record is published. -/
structure SetEnvironment (K : Type) where
  indexAllocated : Bool
  collected : Option (K → Bool)
  entryAllocated : Bool
  published : Bool

/-- What a `set` did: whether it stored the value, and the collection that ran inside. -/
structure SetOutcome (K : Type) where
  stored : Bool
  collected : Option (K → Bool)

omit [DecidableEq K] in
/-- Links a new entry at the tail of the chain. -/
def appendEntry (s : Ephemerons K V) (ref : EntryRef) (key : K) (value : V) : Ephemerons K V :=
  let s := s.setEntry ref fun _ =>
    { marked := false, next := none, previous := none, key := some key, value := value }
  let s := match s.table.tail with
    | some tail =>
      (s.setEntry tail fun e => { e with next := some ref }).setEntry ref fun e =>
        { e with previous := some tail }
    | none => { s with table := { s.table with head := some ref } }
  { s with table := { s.table with tail := some ref, liveCount := s.table.liveCount + 1 } }

/-- `oseo_internal_ephemeron_set`. -/
def ephemeronSet [Inhabited V] (address : K → ℕ) (s : Ephemerons K V) (key : K) (value : V)
    (ref : EntryRef) (env : SetEnvironment K) : Option (SetOutcome K × Ephemerons K V) :=
  match ephemeronIndexFind address s key with
  | some slot =>
    match slotAt s.table.index slot with
    | .entry r => some (⟨true, none⟩, s.setEntry r fun e => { e with value := value })
    | _ => none
  | none =>
    match ephemeronIndexReserve address env.indexAllocated s with
    | none => none
    | some (false, s) => some (⟨false, none⟩, s)
    | some (true, s) =>
      match env.collected.elim (some s) (ephemeronCollect address · s) with
      | none => none
      | some s =>
        if env.entryAllocated = false ∨ env.published = false then
          some (⟨false, env.collected⟩, s)
        else
          let s := appendEntry s ref key value
          (ephemeronIndexInsert address s.table.index key ref).map fun (empty, index) =>
            (⟨true, env.collected⟩,
              { s with
                table :=
                  { s.table with
                    index := index
                    indexUsed := if empty then s.table.indexUsed + 1 else s.table.indexUsed } })

/-- `oseo_internal_ephemeron_get`. -/
def ephemeronGet (address : K → ℕ) (s : Ephemerons K V) (key : K) : Option V :=
  match ephemeronIndexFind address s key with
  | none => none
  | some slot =>
    match slotAt s.table.index slot with
    | .entry r => some (s.entries r).value
    | _ => none

/-- `oseo_internal_ephemeron_delete`. -/
def ephemeronDelete [Inhabited V] (address : K → ℕ) (s : Ephemerons K V) (key : K) :
    Bool × Ephemerons K V :=
  match ephemeronIndexFind address s key with
  | none => (false, s)
  | some slot =>
    match slotAt s.table.index slot with
    | .entry r =>
      let s := s.setSlot slot .tombstone
      let entry := s.entries r
      let s := s.setLink entry.previous entry.next
      let s := match entry.next with
        | some n => s.setEntry n fun e => { e with previous := entry.previous }
        | none => { s with table := { s.table with tail := entry.previous } }
      let s := s.setEntry r EphemeronEntry.cleared
      (true, s.dropLive)
    | _ => (false, s)

end

/-! ## The ephemeron table

The index leads from every live key to its entry, the chain holds exactly the live entries,
and at least a quarter of the index is empty. Every operation ends, keeps this and changes the
contents as it would change a map from keys to values:

* a collection drops the keys it did not mark;
* a `set` stores one key, after the collection inside it;
* a `delete` drops one key.
-/

open List

variable {K V : Type} {address : K → ℕ} {s s' : Ephemerons K V} {chain : List EntryRef}

/-! ## The invariant -/

/-- The key of an entry record. -/
abbrev Ephemerons.keyOf (s : Ephemerons K V) (r : EntryRef) : Option K := (s.entries r).key

/-- The invariant but for the table's tail, which a collection fixes last. -/
structure Ephemerons.Linked (address : K → ℕ) (s : Ephemerons K V) (chain : List EntryRef) :
    Prop where
  forward : Chain (fun r => (s.entries r).next) s.table.head chain none
  back : BackChain (fun r => (s.entries r).previous) none chain
  nodup : chain.Nodup
  live : s.table.liveCount = chain.length
  index : OpenAddressed (ephemeronIndexStart address s.table.index.length) s.keyOf s.table.index
  indexed : ∀ r, r ∈ chain ↔ ∃ slot, slotAt s.table.index slot = .entry r
  used : s.table.indexUsed = usedSlots s.table.index
  capacity : s.table.index.length = 0 ∨ ∃ k, s.table.index.length = 2 ^ (k + 3)
  room : s.table.indexUsed ≤ s.table.index.length / 4 * 3

/-- The invariant of a table: its entries are those of `chain`, in order. -/
structure Ephemerons.Valid (address : K → ℕ) (s : Ephemerons K V) (chain : List EntryRef) : Prop
    extends s.Linked address chain where
  tail : s.table.tail = lastOr none chain

/-- The contents of a table. -/
def Ephemerons.contents [DecidableEq K] (s : Ephemerons K V) (chain : List EntryRef) (key : K) :
    Option V :=
  (chain.find? fun r => s.keyOf r = some key).map fun r => (s.entries r).value

lemma ephemeronIndexNext_eq {n : ℕ} (h : n = 0 ∨ ∃ k, n = 2 ^ (k + 3)) (hn : n ≠ 0) :
    ephemeronIndexNext n = nextSlot n := by
  obtain ⟨k, rfl⟩ := h.resolve_left hn
  funext slot
  exact Nat.and_two_pow_sub_one_eq_mod _ _

lemma ephemeronIndexStart_lt {n : ℕ} (hn : n ≠ 0) (key : K) :
    ephemeronIndexStart address n key < n := by
  have := Nat.and_le_right (n := ((address key >>> 3) * 0x9e3779b97f4a7c15 % 2 ^ 64) >>> 20)
    (m := n - 1)
  unfold ephemeronIndexStart
  omega

lemma Ephemerons.Linked.keyed (h : s.Linked address chain) {r : EntryRef} (hr : r ∈ chain) :
    ∃ key, s.keyOf r = some key := by
  obtain ⟨slot, hslot⟩ := (h.indexed r).mp hr
  exact h.index.keyed slot r hslot

/-- No two live entries have the same key. -/
lemma Ephemerons.Linked.key_inj (h : s.Linked address chain) {r r' : EntryRef} (hr : r ∈ chain)
    (hr' : r' ∈ chain) (hkey : s.keyOf r = s.keyOf r') : r = r' := by
  obtain ⟨slot, hslot⟩ := (h.indexed r).mp hr
  obtain ⟨slot', hslot'⟩ := (h.indexed r').mp hr'
  have heq := h.index.unique slot slot' r r' hslot hslot' hkey
  rw [heq, hslot'] at hslot
  cases hslot
  rfl

/-- At least one slot of an allocated index is empty. -/
lemma Ephemerons.Linked.exists_empty (h : s.Linked address chain)
    (hn : s.table.index.length ≠ 0) :
    ∃ slot < s.table.index.length, slotAt s.table.index slot = .empty := by
  apply Library.exists_empty
  have hroom := h.room
  rw [h.used] at hroom
  omega

section
variable [DecidableEq K]

/-! ## Lookup -/

lemma Ephemerons.Linked.find_some (h : s.Linked address chain) {r : EntryRef} {key : K}
    (hr : r ∈ chain) (hkey : s.keyOf r = some key) :
    ∃ slot, ephemeronIndexFind address s key = some slot ∧
      slotAt s.table.index slot = .entry r ∧ slot < s.table.index.length := by
  obtain ⟨slot, hslot⟩ := (h.indexed r).mp hr
  have hlt := slotAt_lt hslot
  have hn : s.table.index.length ≠ 0 := by omega
  refine ⟨slot, ?_, hslot, hlt⟩
  unfold ephemeronIndexFind
  rw [if_neg hn, ephemeronIndexNext_eq h.capacity hn]
  exact h.index.findSlot hslot hkey

lemma Ephemerons.Linked.find_none (h : s.Linked address chain) {key : K}
    (hkey : ∀ r ∈ chain, s.keyOf r ≠ some key) : ephemeronIndexFind address s key = none := by
  unfold ephemeronIndexFind
  dsimp only
  split
  · rfl
  · exact findSlot_none fun slot r hslot => hkey r ((h.indexed r).mpr ⟨slot, hslot⟩)

lemma Ephemerons.Linked.contents_mem (h : s.Linked address chain) {r : EntryRef} {key : K}
    (hr : r ∈ chain) (hkey : s.keyOf r = some key) :
    s.contents chain key = some (s.entries r).value := by
  unfold Ephemerons.contents
  cases hf : chain.find? fun r => s.keyOf r = some key with
  | none => exact absurd hkey (by simpa using find?_eq_none.mp hf r hr)
  | some r' =>
    have hr' := mem_of_find?_eq_some hf
    have hkey' : s.keyOf r' = some key := by simpa using find?_some hf
    rw [h.key_inj hr' hr (hkey'.trans hkey.symm)]
    rfl

omit [DecidableEq K] in
lemma Ephemerons.contents_none [DecidableEq K] {key : K}
    (hkey : ∀ r ∈ chain, s.keyOf r ≠ some key) : s.contents chain key = none := by
  unfold Ephemerons.contents
  rw [find?_eq_none.mpr fun r hr => by simpa using hkey r hr]
  rfl

/-- A lookup reads the contents. -/
lemma Ephemerons.Linked.get (h : s.Linked address chain) (key : K) :
    ephemeronGet address s key = s.contents chain key := by
  unfold ephemeronGet
  by_cases hex : ∃ r ∈ chain, s.keyOf r = some key
  · obtain ⟨r, hr, hkey⟩ := hex
    obtain ⟨slot, hfind, hslot, -⟩ := h.find_some hr hkey
    rw [hfind, h.contents_mem hr hkey]
    simp only [hslot]
  · push Not at hex
    rw [h.find_none hex, Ephemerons.contents_none hex]

/-! ## Removing an entry -/

omit [DecidableEq K] in
/-- What unlinking the entry `r` behind `last` and clearing its slot changes. -/
structure Unlinks (s s' : Ephemerons K V) (slot : ℕ) (last : Option EntryRef) (r : EntryRef) :
    Prop where
  head : s'.table.head = if last = none then (s.entries r).next else s.table.head
  liveCount : s'.table.liveCount = s.table.liveCount - 1
  index : s'.table.index = s.table.index.set slot .tombstone
  indexUsed : s'.table.indexUsed = s.table.indexUsed
  next : ∀ x, x ≠ r →
    (s'.entries x).next = if last = some x then (s.entries r).next else (s.entries x).next
  previous : ∀ x, x ≠ r →
    (s'.entries x).previous = if (s.entries r).next = some x then last else (s.entries x).previous
  key : ∀ x, x ≠ r → s'.keyOf x = s.keyOf x
  value : ∀ x, x ≠ r → (s'.entries x).value = (s.entries x).value

omit [DecidableEq K] in
/-- The chain without the entry. -/
theorem Ephemerons.Linked.unlinks {a b : List EntryRef} {r : EntryRef} {slot : ℕ}
    (h : s.Linked address (a ++ r :: b)) (hslot : slotAt s.table.index slot = .entry r)
    (hu : Unlinks s s' slot (lastOr none a) r) : s'.Linked address (a ++ b) := by
  have hlt := slotAt_lt hslot
  have hset := slotAt_set s.table.index hlt .tombstone
  obtain ⟨hnodup, hra, hrb, -⟩ := nodup_middle h.nodup
  constructor
  case nodup => exact hnodup
  case forward => exact h.forward.unlink h.nodup hu.head hu.next
  case back =>
    have hb : (s.entries r).next = b.head? := (chain_middle.mp h.forward).2.head_eq
    refine h.back.unlink h.nodup fun x hx => ?_
    rw [← hb]
    exact hu.previous x hx
  case live =>
    rw [hu.liveCount, h.live]
    simp
  case index =>
    rw [hu.index, length_set]
    refine (h.index.remove hlt).congr fun i x hx => hu.key x ?_
    rw [hset] at hx
    split at hx
    · cases hx
    · next hne =>
      intro hxr
      rw [hxr] at hx
      exact hne (h.index.unique i slot r r hx hslot rfl)
  case indexed =>
    intro x
    rw [hu.index]
    constructor
    · intro hx
      have hxr : x ≠ r := by
        rintro rfl
        rcases mem_append.mp hx with hx | hx
        · exact hra hx
        · exact hrb hx
      obtain ⟨i, hi⟩ := (h.indexed x).mp (by
        rcases mem_append.mp hx with hx | hx
        · exact mem_append_left _ hx
        · exact mem_append_right _ (mem_cons_of_mem _ hx))
      refine ⟨i, ?_⟩
      rw [hset, if_neg]
      · exact hi
      · intro hieq
        rw [hieq, hslot] at hi
        cases hi
        exact hxr rfl
    · intro ⟨i, hi⟩
      rw [hset] at hi
      split at hi
      · cases hi
      · next hne =>
        have hx := (h.indexed x).mpr ⟨i, hi⟩
        rcases mem_append.mp hx with hx | hx
        · exact mem_append_left _ hx
        · rcases mem_cons.mp hx with rfl | hx
          · exact absurd (h.index.unique i slot x x hi hslot rfl) hne
          · exact mem_append_right _ hx
  case used =>
    rw [hu.indexUsed, hu.index, h.used, usedSlots_set hlt rfl, hslot]
    rfl
  case capacity =>
    rw [hu.index, length_set]
    exact h.capacity
  case room =>
    rw [hu.indexUsed, hu.index, length_set]
    exact h.room

/-- The contents without the entry. -/
lemma Ephemerons.Linked.unlinks_contents {a b : List EntryRef} {r : EntryRef} {slot : ℕ} {key : K}
    (h : s.Linked address (a ++ r :: b)) (hkey : s.keyOf r = some key)
    (hu : Unlinks s s' slot (lastOr none a) r) (key' : K) :
    s'.contents (a ++ b) key' = if key' = key then none else s.contents (a ++ r :: b) key' := by
  have hra : ∀ x ∈ a ++ b, x ≠ r ∧ x ∈ a ++ r :: b := by
    intro x hx
    obtain ⟨-, hra, hrb, -⟩ := nodup_middle h.nodup
    rcases mem_append.mp hx with hxa | hxb
    · exact ⟨fun hxr => hra (hxr ▸ hxa), mem_append_left _ hxa⟩
    · exact ⟨fun hxr => hrb (hxr ▸ hxb), mem_append_right _ (mem_cons_of_mem _ hxb)⟩
  have hr : r ∈ a ++ r :: b := mem_append_right _ mem_cons_self
  by_cases heq : key' = key
  · rw [if_pos heq]
    refine Ephemerons.contents_none fun x hx hxk => ?_
    obtain ⟨hxr, hmem⟩ := hra x hx
    rw [hu.key x hxr, heq] at hxk
    exact hxr (h.key_inj hmem hr (hxk.trans hkey.symm))
  · rw [if_neg heq]
    have hfind : ((a ++ b).find? fun x => s'.keyOf x = some key') =
        (a ++ b).find? fun x => s.keyOf x = some key' := by
      apply find?_congr
      intro x hx
      rw [hu.key x (hra x hx).1]
    unfold Ephemerons.contents
    have hskip : (a ++ r :: b).find? (fun x => s.keyOf x = some key') =
        (a ++ b).find? fun x => s.keyOf x = some key' := by
      rw [find?_append, find?_append, find?_cons]
      have : ¬s.keyOf r = some key' := by
        rw [hkey, Option.some.injEq]
        exact fun h => heq h.symm
      simp [this]
    rw [hskip, hfind]
    cases hf : (a ++ b).find? fun x => s.keyOf x = some key' with
    | none => rfl
    | some x =>
      have hx := mem_of_find?_eq_some hf
      rw [Option.map_some, Option.map_some, hu.value x (hra x hx).1]

end

/-! ## The operations of the ephemeron table -/

/-! ## Writes -/

section
variable (s) (r : EntryRef) (f : EphemeronEntry K V → EphemeronEntry K V)

@[simp] lemma setEntry_table : (s.setEntry r f).table = s.table := rfl

@[simp] lemma setEntry_entries (x : EntryRef) :
    (s.setEntry r f).entries x = if x = r then f (s.entries r) else s.entries x :=
  Function.update_apply ..

@[simp] lemma setSlot_entries (slot : ℕ) (content : Slot EntryRef) :
    (s.setSlot slot content).entries = s.entries := rfl

@[simp] lemma dropLive_entries : s.dropLive.entries = s.entries := rfl

end

/-- The slot cleared, the entry unlinked behind `last`, and one live entry less: the part a
collection and a deletion share. -/
lemma unlinks_of_writes {slot : ℕ} {last : Option EntryRef} {r : EntryRef}
    (hhead : s'.table.head = if last = none then (s.entries r).next else s.table.head)
    (hlive : s'.table.liveCount = s.table.liveCount - 1)
    (hindex : s'.table.index = s.table.index.set slot .tombstone)
    (hused : s'.table.indexUsed = s.table.indexUsed)
    (hentries : ∀ x, x ≠ r → s'.entries x =
      { s.entries x with
        next := if last = some x then (s.entries r).next else (s.entries x).next
        previous :=
          if (s.entries r).next = some x then last else (s.entries x).previous }) :
    Unlinks s s' slot last r where
  head := hhead
  liveCount := hlive
  index := hindex
  indexUsed := hused
  next := fun x hx => by rw [hentries x hx]
  previous := fun x hx => by rw [hentries x hx]
  key := fun x hx => by
    unfold Ephemerons.keyOf
    rw [hentries x hx]
  value := fun x hx => by rw [hentries x hx]

section
variable [DecidableEq K] [Inhabited V]

/-! ## Collection -/

/-- Unlinking a dead entry clears its slot and nothing else. -/
lemma Ephemerons.Linked.unlinkDeadEntry {a b : List EntryRef} {r : EntryRef}
    (h : s.Linked address (a ++ r :: b)) :
    ∃ slot, slotAt s.table.index slot = .entry r ∧
      Unlinks s (unlinkDeadEntry address s (lastOr none a) r) slot (lastOr none a) r := by
  have hr : r ∈ a ++ r :: b := mem_append_right _ mem_cons_self
  obtain ⟨key, hkey⟩ := h.keyed hr
  obtain ⟨slot, hfind, hslot, -⟩ := h.find_some hr hkey
  refine ⟨slot, hslot, ?_⟩
  have hbind : (s.entries r).key.bind (ephemeronIndexFind address s) = some slot := by
    rw [show (s.entries r).key = some key from hkey]
    exact hfind
  unfold RuntimeMemory.unlinkDeadEntry
  simp only [hbind]
  cases hlast : lastOr none a <;> cases hnext : (s.entries r).next
  all_goals
    apply unlinks_of_writes
    case hhead => simp [Ephemerons.dropLive, Ephemerons.setLink, Ephemerons.setSlot, hnext]
    case hlive => rfl
    case hindex => rfl
    case hused => rfl
    case hentries =>
      intro x hx
      simp only [Ephemerons.setLink, setEntry_entries, setSlot_entries, dropLive_entries, hx,
        if_false, hnext, Option.some.injEq, reduceCtorEq, @eq_comm _ _ x] <;>
        split_ifs <;> simp_all

/-- The walk over the rest `b` of a chain whose entries in `a` were kept. -/
lemma clearDeadEntries_correct {marked : K → Bool} {a b : List EntryRef} {fuel : ℕ}
    (hfuel : b.length ≤ fuel) (h : s.Linked address (a ++ b))
    (ha : ∀ r ∈ a, (s.entries r).keyMarked marked = true) :
    ∃ s' chain, clearDeadEntries address marked fuel (lastOr none a) b.head? s = some s' ∧
      s'.Valid address chain ∧ chain ⊆ a ++ b ∧
      s'.table.index.length = s.table.index.length ∧ s'.table.indexUsed = s.table.indexUsed ∧
      ∀ key, s'.contents chain key = if marked key then s.contents (a ++ b) key else none := by
  induction b generalizing a s fuel with
  | nil =>
    rw [append_nil] at h
    have hcontents : ∀ key, s.contents a key = if marked key then s.contents a key else none := by
      intro key
      split
      · rfl
      · next hmarked =>
        apply Ephemerons.contents_none
        intro r hr hkey
        have := ha r hr
        rw [EphemeronEntry.keyMarked, show (s.entries r).key = some key from hkey] at this
        exact hmarked this
    refine ⟨{ s with table := { s.table with tail := lastOr none a } }, a, ?_, ?_, by simp, rfl, rfl, ?_⟩
    · unfold clearDeadEntries
      rfl
    · exact { h with tail := rfl }
    · rw [append_nil]
      exact hcontents
  | cons r b ih =>
    obtain _ | fuel := fuel
    · cases hfuel
    have hb : b.length ≤ fuel := by simpa using hfuel
    have hnext : (s.entries r).next = b.head? := (chain_middle.mp h.forward).2.head_eq
    rw [head?_cons, clearDeadEntries]
    by_cases hmarked : (s.entries r).keyMarked marked = true
    · rw [if_pos hmarked, hnext, ← lastOr_concat none a r]
      have hassoc : a ++ r :: b = (a ++ [r]) ++ b := by simp
      rw [hassoc] at h ⊢
      apply ih hb h
      intro x hx
      rcases mem_append.mp hx with hx | hx
      · exact ha x hx
      · rw [mem_singleton.mp hx]
        exact hmarked
    · rw [if_neg hmarked, hnext]
      obtain ⟨slot, hslot, hu⟩ := h.unlinkDeadEntry
      obtain ⟨key, hkey⟩ := h.keyed (mem_append_right a mem_cons_self)
      have hdead : marked key = false := by
        rw [EphemeronEntry.keyMarked, show (s.entries r).key = some key from hkey] at hmarked
        simpa using hmarked
      obtain ⟨-, hra, -, -⟩ := nodup_middle h.nodup
      have ha' : ∀ x ∈ a, ((unlinkDeadEntry address s (lastOr none a) r).entries x).keyMarked
          marked = true := by
        intro x hx
        have hxkey := hu.key x fun hxr => hra (hxr ▸ hx)
        unfold EphemeronEntry.keyMarked
        rw [show ((unlinkDeadEntry address s (lastOr none a) r).entries x).key = _ from hxkey]
        exact ha x hx
      obtain ⟨s', chain, hrun, hvalid, hsub, hlen, hused, hcontents⟩ :=
        ih hb (h.unlinks hslot hu) ha'
      refine ⟨s', chain, hrun, hvalid, fun x hx => ?_, ?_, ?_, fun key' => ?_⟩
      · rcases mem_append.mp (hsub hx) with hx | hx
        · exact mem_append_left _ hx
        · exact mem_append_right _ (mem_cons_of_mem _ hx)
      · rw [hlen, hu.index, length_set]
      · rw [hused, hu.indexUsed]
      · rw [hcontents, h.unlinks_contents hkey hu]
        by_cases heq : key' = key
        · rw [heq, hdead]
          simp
        · rw [if_neg heq]

/-- A collection ends and drops the keys it did not mark. The index slots in use stay in
use. -/
lemma Ephemerons.Valid.collect (h : s.Valid address chain) (marked : K → Bool) :
    ∃ s' chain', ephemeronCollect address marked s = some s' ∧ s'.Valid address chain' ∧
      chain' ⊆ chain ∧ s'.table.index.length = s.table.index.length ∧
      s'.table.indexUsed = s.table.indexUsed ∧
      ∀ key, s'.contents chain' key = if marked key then s.contents chain key else none := by
  unfold ephemeronCollect
  rw [h.forward.head_eq]
  exact @clearDeadEntries_correct _ _ _ _ _ _ marked [] chain _ (le_of_eq h.live.symm)
    h.toLinked (by simp)

/-! ## Deletion -/

/-- Deleting a key that is there unlinks its entry, and moves the tail if it was last. -/
lemma Ephemerons.Linked.delete {a b : List EntryRef} {r : EntryRef} {slot : ℕ} {key : K}
    (h : s.Linked address (a ++ r :: b)) (hfind : ephemeronIndexFind address s key = some slot)
    (hslot : slotAt s.table.index slot = .entry r) :
    ∃ s', ephemeronDelete address s key = (true, s') ∧ Unlinks s s' slot (lastOr none a) r ∧
      s'.table.tail = if (s.entries r).next = none then lastOr none a else s.table.tail := by
  have hback : (s.entries r).previous = lastOr none a := (backChain_append.mp h.back).2.1
  unfold ephemeronDelete
  simp only [hfind, hslot, setSlot_entries, hback]
  refine ⟨_, rfl, ?_, ?_⟩
  · cases hlast : lastOr none a <;> cases hnext : (s.entries r).next
    all_goals
      apply unlinks_of_writes
      case hhead => simp [Ephemerons.dropLive, Ephemerons.setLink, Ephemerons.setSlot, hnext]
      case hlive => rfl
      case hindex => rfl
      case hused => rfl
      case hentries =>
        intro x hx
        simp only [Ephemerons.setLink, setEntry_entries, setSlot_entries, dropLive_entries, hx,
          if_false, hnext, Option.some.injEq, reduceCtorEq, @eq_comm _ _ x] <;>
        split_ifs <;> simp_all
  · cases hlast : lastOr none a <;> cases hnext : (s.entries r).next
    all_goals simp [Ephemerons.dropLive, Ephemerons.setLink, Ephemerons.setSlot]

/-- A deletion drops one key, and tells whether it was there. -/
theorem Ephemerons.Valid.delete (h : s.Valid address chain) (key : K) :
    ∃ s' chain', ephemeronDelete address s key = ((s.contents chain key).isSome, s') ∧
      s'.Valid address chain' ∧ chain' ⊆ chain ∧
      ∀ key', s'.contents chain' key' = if key' = key then none else s.contents chain key' := by
  by_cases hex : ∃ r ∈ chain, s.keyOf r = some key
  · obtain ⟨r, hr, hkey⟩ := hex
    obtain ⟨slot, hfind, hslot, -⟩ := h.find_some hr hkey
    rw [h.contents_mem hr hkey]
    obtain ⟨a, b, rfl⟩ := append_of_mem hr
    obtain ⟨s', hrun, hu, htail⟩ := h.delete hfind hslot
    refine ⟨s', a ++ b, hrun, ⟨h.unlinks hslot hu, ?_⟩, ?_, h.unlinks_contents hkey hu⟩
    · have hnext : (s.entries r).next = b.head? := (chain_middle.mp h.forward).2.head_eq
      rw [htail, hnext, h.tail]
      cases b with
      | nil => simp
      | cons x b => simp [lastOr]
    · intro x hx
      rcases mem_append.mp hx with hx | hx
      · exact mem_append_left _ hx
      · exact mem_append_right _ (mem_cons_of_mem _ hx)
  · push Not at hex
    refine ⟨s, chain, ?_, h, List.Subset.refl _, fun key' => ?_⟩
    · unfold ephemeronDelete
      rw [h.find_none hex, Ephemerons.contents_none hex]
      rfl
    · by_cases heq : key' = key
      · rw [if_pos heq, heq]
        exact Ephemerons.contents_none hex
      · rw [if_neg heq]

end

/-! ## Insertion into the ephemeron table

A new key needs an index slot of its own: the index is rebuilt when three quarters of it are
used, the entry joins the chain at its tail, and its slot is the first free one on the key's
path.
-/

/-! ## The index -/

/-- An index of a power of two slots whose entries are those of `refs`. -/
structure Indexes (address : K → ℕ) (keyOf : EntryRef → Option K) (index : List (Slot EntryRef))
    (refs : List EntryRef) : Prop where
  size : ∃ k, index.length = 2 ^ (k + 3)
  addressed : OpenAddressed (ephemeronIndexStart address index.length) keyOf index
  indexed : ∀ r, r ∈ refs ↔ ∃ slot, slotAt index slot = .entry r

/-- An insertion takes the first slot on the key's path that holds no entry. -/
lemma Indexes.insert {keyOf : EntryRef → Option K} {index : List (Slot EntryRef)}
    {refs : List EntryRef} {r : EntryRef} {key : K} (h : Indexes address keyOf index refs)
    (hroom : ∃ slot < index.length, slotAt index slot = .empty) (hkey : keyOf r = some key)
    (hnew : ∀ x ∈ refs, keyOf x ≠ some key) :
    ∃ slot < index.length, (slotAt index slot).isEntry = false ∧
      ephemeronIndexInsert address index key r =
        some ((slotAt index slot).isEmpty, index.set slot (.entry r)) ∧
      Indexes address keyOf (index.set slot (.entry r)) (refs ++ [r]) := by
  obtain ⟨k, hk⟩ := h.size
  have hn : index.length ≠ 0 := by
    rw [hk]
    exact (Nat.two_pow_pos _).ne'
  have hnext : ephemeronIndexNext index.length = nextSlot index.length :=
    ephemeronIndexNext_eq (Or.inr ⟨k, hk⟩) hn
  obtain ⟨i, hi, hempty⟩ := hroom
  obtain ⟨slot, hlt, hfree⟩ := h.addressed.freeSlot hi (by rw [hempty]; rfl) key
  obtain ⟨-, -, -, hstop, -⟩ := probe_some hfree
  have hentry : (slotAt index slot).isEntry = false := by simpa using hstop
  have hset := slotAt_set index hlt (.entry r)
  refine ⟨slot, hlt, hentry, ?_, ?_⟩
  · unfold ephemeronIndexInsert
    dsimp only
    rw [hnext, hfree]
    rfl
  · constructor
    case size => exact ⟨k, by rw [length_set, hk]⟩
    case addressed =>
      rw [length_set]
      exact h.addressed.insert hkey (fun i x hx => hnew x ((h.indexed x).mpr ⟨i, hx⟩)) hfree hlt
    case indexed =>
      intro x
      rw [mem_append, mem_singleton, h.indexed x]
      constructor
      · intro hx
        rcases hx with ⟨i, hi⟩ | rfl
        · refine ⟨i, ?_⟩
          rw [hset, if_neg]
          · exact hi
          · intro his
            rw [← his, hi] at hentry
            cases hentry
        · exact ⟨slot, by rw [hset, if_pos rfl]⟩
      · intro ⟨i, hi⟩
        rw [hset] at hi
        split at hi
        · cases hi
          exact Or.inr rfl
        · exact Or.inl ⟨i, hi⟩

/-! ## Growth -/

lemma growCapacity_some {liveCount fuel capacity grown : ℕ}
    (h : growCapacity liveCount fuel capacity = some grown) :
    liveCount + 1 ≤ grown / 2 ∧ ∃ j, grown = 2 ^ j * capacity := by
  induction fuel generalizing capacity with
  | zero => cases h
  | succ fuel ih =>
    rw [growCapacity] at h
    split at h
    · split at h
      · cases h
      · obtain ⟨hlive, j, hj⟩ := ih h
        refine ⟨hlive, j + 1, ?_⟩
        rw [hj, Nat.pow_succ, Nat.mul_assoc, Nat.mul_comm 2 capacity]
    · next hge =>
      cases h
      exact ⟨by omega, 0, by simp⟩

/-- The walk over the rest `b` of the chain, with the entries in `a` inserted. -/
lemma ephemeronRebuild_correct {a b : List EntryRef} {fuel : ℕ} {index : List (Slot EntryRef)}
    (h : s.Linked address (a ++ b)) (hfuel : b.length ≤ fuel)
    (hindex : Indexes address s.keyOf index a) (htomb : ∀ i, slotAt index i ≠ .tombstone)
    (hused : usedSlots index = a.length) (hroom : (a ++ b).length < index.length) :
    ∃ index', ephemeronRebuild address s fuel b.head? (index, a.length) =
        some (index', (a ++ b).length) ∧ index'.length = index.length ∧
      Indexes address s.keyOf index' (a ++ b) ∧ usedSlots index' = (a ++ b).length := by
  induction b generalizing a fuel index with
  | nil =>
    rw [append_nil]
    exact ⟨index, by cases fuel <;> rfl, rfl, hindex, hused⟩
  | cons r b ih =>
    obtain _ | fuel := fuel
    · cases hfuel
    have hr : r ∈ a ++ r :: b := mem_append_right _ mem_cons_self
    obtain ⟨key, hkey⟩ := h.keyed hr
    obtain ⟨-, hra, -, -⟩ := nodup_middle h.nodup
    have hnew : ∀ x ∈ a, s.keyOf x ≠ some key := by
      intro x hx hxkey
      have := h.key_inj (mem_append_left _ hx) hr (hxkey.trans hkey.symm)
      exact hra (this ▸ hx)
    have hempty : ∃ slot < index.length, slotAt index slot = .empty := by
      apply Library.exists_empty
      rw [hused]
      rw [length_append] at hroom
      omega
    obtain ⟨slot, hlt, hentry, hinsert, hindex'⟩ := hindex.insert hempty hkey hnew
    -- Without tombstones the free slot is an empty one.
    have hslot : slotAt index slot = .empty := by
      cases hs : slotAt index slot with
      | empty => rfl
      | tombstone => exact absurd hs (htomb slot)
      | entry x =>
        rw [hs] at hentry
        cases hentry
    have hnext : (s.entries r).next = b.head? := (chain_middle.mp h.forward).2.head_eq
    have hassoc : a ++ r :: b = (a ++ [r]) ++ b := by simp
    rw [hassoc] at h hroom ⊢
    obtain ⟨index', hrun, hlen, hi, hu⟩ := @ih (a ++ [r]) fuel (index.set slot (.entry r)) h
      (by simpa using hfuel) hindex' (by
        intro i
        rw [slotAt_set index hlt]
        split
        · simp
        · exact htomb i) (by
        rw [usedSlots_set hlt rfl, hslot, hused]
        simp [Slot.isEmpty]) (by rwa [length_set])
    refine ⟨index', ?_, by rw [hlen, length_set], hi, hu⟩
    rw [head?_cons, ephemeronRebuild, show (s.entries r).key = some key from hkey]
    dsimp only
    rw [hinsert]
    rw [hnext]
    rw [length_append] at hrun
    exact hrun

/-- A reservation ends. It changes the index only, and when it succeeds a quarter of the
index stays empty after one more insertion. -/
lemma Ephemerons.Valid.reserve (h : s.Valid address chain) (allocated : Bool) :
    ∃ ok s', ephemeronIndexReserve address allocated s = some (ok, s') ∧
      s'.Valid address chain ∧ s'.entries = s.entries ∧
      (ok = true → s'.table.index.length ≠ 0 ∧
        s'.table.indexUsed + 1 ≤ s'.table.index.length / 4 * 3) := by
  unfold ephemeronIndexReserve
  split
  · next hroom => exact ⟨true, s, rfl, h, rfl, fun _ => hroom⟩
  · cases hgrow : growCapacity s.table.liveCount 64 8 with
    | none => exact ⟨false, s, rfl, h, rfl, by simp⟩
    | some capacity =>
      dsimp only
      split
      · exact ⟨false, s, rfl, h, rfl, by simp⟩
      · obtain ⟨hlive, j, hj⟩ := growCapacity_some hgrow
        have hsize : capacity = 2 ^ (j + 3) := by
          rw [hj, Nat.pow_add]
        have hstart : Indexes address s.keyOf (replicate capacity .empty) [] := by
          constructor
          case size => exact ⟨j, by rw [length_replicate, hsize]⟩
          case addressed =>
            rw [length_replicate]
            apply OpenAddressed.replicate
            intro key
            apply ephemeronIndexStart_lt
            omega
          case indexed =>
            intro r
            simp
        have hchain : chain.length < capacity := by
          rw [← h.live]
          omega
        obtain ⟨index, hrun, hlen, hindex, hused⟩ := @ephemeronRebuild_correct _ _ address s []
          chain s.table.liveCount (replicate capacity .empty) h.toLinked (le_of_eq h.live.symm)
          hstart (by simp) (usedSlots_replicate capacity) (by simpa using hchain)
        rw [nil_append] at hrun hindex hused
        rw [length_replicate] at hlen
        rw [← h.forward.head_eq, length_nil] at hrun
        rw [hrun]
        refine ⟨true, _, rfl, ?_, rfl, fun _ => ?_⟩
        · constructor
          case toLinked =>
            constructor
            case forward => exact h.forward
            case back => exact h.back
            case nodup => exact h.nodup
            case live => exact h.live
            case index => exact hindex.addressed
            case indexed => exact hindex.indexed
            case used => exact hused.symm
            case capacity => exact Or.inr ⟨j, hlen.trans hsize⟩
            case room =>
              show chain.length ≤ index.length / 4 * 3
              rw [hlen, ← h.live]
              omega
          case tail => exact h.tail
        · show index.length ≠ 0 ∧ chain.length + 1 ≤ index.length / 4 * 3
          rw [hlen, ← h.live]
          omega

/-! ## The new entry -/

/-- What linking a new entry at the tail changes. -/
structure Appends (s s' : Ephemerons K V) (ref : EntryRef) (key : K) (value : V) : Prop where
  head : s'.table.head = if s.table.tail = none then some ref else s.table.head
  tail : s'.table.tail = some ref
  liveCount : s'.table.liveCount = s.table.liveCount + 1
  index : s'.table.index = s.table.index
  indexUsed : s'.table.indexUsed = s.table.indexUsed
  entry : s'.entries ref =
    { marked := false, next := none, previous := s.table.tail, key := some key, value := value }
  others : ∀ x, x ≠ ref → s'.entries x =
    { s.entries x with next := if s.table.tail = some x then some ref else (s.entries x).next }

lemma appendEntry_appends {ref : EntryRef} (hfresh : s.table.tail ≠ some ref) (key : K)
    (value : V) : Appends s (appendEntry s ref key value) ref key value := by
  unfold appendEntry
  cases htail : s.table.tail with
  | none =>
    constructor
    case head => simp [htail]
    case others =>
      intro x hx
      simp [htail, hx]
    all_goals simp [htail]
  | some t =>
    have htr : ref ≠ t := by
      intro h
      rw [htail, h] at hfresh
      exact hfresh rfl
    constructor
    case head => simp [htail]
    case others =>
      intro x hx
      simp only [setEntry_table, htail, setEntry_entries, hx, if_false, Option.some.injEq,
        @eq_comm _ t x]
      split_ifs <;> simp_all
    all_goals simp [htail, htr]

/-- The table with the entry in its chain and in its index. -/
theorem Ephemerons.Valid.append {ref : EntryRef} {key : K} {value : V} {t : Ephemerons K V}
    (h : s.Valid address chain) (hu : Appends s t ref key value) (hfresh : ref ∉ chain)
    (hnew : ∀ x ∈ chain, s.keyOf x ≠ some key) (hsome : s.table.index.length ≠ 0)
    (hroom : s.table.indexUsed + 1 ≤ s.table.index.length / 4 * 3) :
    ∃ empty index, ephemeronIndexInsert address t.table.index key ref = some (empty, index) ∧
      Ephemerons.Valid address
        { t with
          table :=
            { t.table with
              index := index
              indexUsed := if empty then t.table.indexUsed + 1 else t.table.indexUsed } }
        (chain ++ [ref]) := by
  have hkey : t.keyOf ref = some key := by
    unfold Ephemerons.keyOf
    rw [hu.entry]
  have hkeys : ∀ x ∈ chain, t.keyOf x = s.keyOf x := by
    intro x hx
    unfold Ephemerons.keyOf
    rw [hu.others x fun hxr => hfresh (hxr ▸ hx)]
  have hindexes : Indexes address t.keyOf t.table.index chain := by
    rw [hu.index]
    constructor
    case size => exact h.capacity.resolve_left hsome
    case addressed => exact h.index.congr fun i x hx => hkeys x ((h.indexed x).mpr ⟨i, hx⟩)
    case indexed => exact h.indexed
  obtain ⟨slot, hlt, -, hinsert, hindexes'⟩ := hindexes.insert
    (by rw [hu.index]; exact h.exists_empty hsome) hkey
    (fun x hx => by rw [hkeys x hx]; exact hnew x hx)
  refine ⟨_, _, hinsert, ?_⟩
  have hused : (if (slotAt t.table.index slot).isEmpty = true then t.table.indexUsed + 1
      else t.table.indexUsed) = usedSlots (t.table.index.set slot (.entry ref)) := by
    rw [usedSlots_set hlt rfl, hu.indexUsed, h.used, hu.index]
    split <;> rfl
  constructor
  case tail =>
    rw [lastOr_concat]
    exact hu.tail
  case toLinked =>
    constructor
    case forward =>
      refine h.forward.concat hfresh ?_ ?_ (fun x hx => ?_) h.nodup
      · show t.table.head = _
        rw [hu.head, h.tail]
      · show (t.entries ref).next = none
        rw [hu.entry]
      · show (t.entries x).next = _
        rw [hu.others x hx, h.tail]
    case back =>
      refine h.back.concat ?_ fun x hx => ?_
      · show (t.entries ref).previous = _
        rw [hu.entry, h.tail]
      · show (t.entries x).previous = _
        rw [hu.others x fun hxr => hfresh (hxr ▸ hx)]
    case nodup =>
      rw [nodup_append]
      refine ⟨h.nodup, nodup_singleton ref, fun x hx y hy hxy => ?_⟩
      rw [mem_singleton.mp hy] at hxy
      exact hfresh (hxy ▸ hx)
    case live =>
      show t.table.liveCount = _
      rw [hu.liveCount, h.live, length_append, length_singleton]
    case index => exact hindexes'.addressed
    case indexed => exact hindexes'.indexed
    case used => exact hused
    case capacity => exact Or.inr hindexes'.size
    case room =>
      show (if _ then _ else _) ≤ (t.table.index.set slot _).length / 4 * 3
      rw [length_set, hu.index, hu.indexUsed]
      split
      · exact hroom
      · omega

end Oseo.RuntimeMemory
