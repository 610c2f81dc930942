import Oseo.Library.LivePositions
import Mathlib.Algebra.Group.Nat.Defs

/-!
# Maps and Sets

The storage of `runtime_map.c` and `runtime_set.c`: vectors of records that only grow. A record
that is deleted stays as a tombstone.

* A string and a BigInt are their contents; every other heap value is its address, and so are
  collections and their iterators;
* `memory` is what an allocation returns, with what it holds, or nothing where it fails;
* a call of user code in the middle of an operation is an `Activation`.
-/

namespace Oseo.KeyedCollections

section

/-- A double. The bits of one that is neither a zero nor NaN determine it. -/
inductive Number
  | nan
  | zero (negative : Bool)
  | other (bits : ℕ)
deriving DecidableEq

/-- `==` on doubles. -/
def Number.equals : Number → Number → Bool
  | .zero _, .zero _ => true
  | .other left, .other right => left = right
  | _, _ => false

/-- A symbol, with the entry of the symbol registry it represents. -/
structure Symbol where
  ref : ℕ
  registryEntry : Option ℕ
deriving DecidableEq

/-- `OseoValue`. -/
inductive Value
  | undefined
  | null
  | boolean (value : Bool)
  | number (value : Number)
  | string (units : List ℕ)
  | bigint (value : Int)
  | symbol (value : Symbol)
  | map (ref : ℕ)
  | set (ref : ℕ)
  | mapIterator (ref : ℕ)
  | setIterator (ref : ℕ)
  | function (ref : ℕ)
  | object (ref : ℕ)
deriving DecidableEq

/-- `same_registered_symbol`. -/
def sameRegisteredSymbol : Value → Value → Bool
  | .symbol left, .symbol right =>
    left.registryEntry.isSome && left.registryEntry = right.registryEntry
  | _, _ => false

/-- `oseo_internal_same_value_zero`. -/
def sameValueZero (left right : Value) : Bool :=
  match left, right with
  | .number left, .number right => left = .nan && right = .nan || left.equals right
  | .string left, .string right => left = right
  | .bigint left, .bigint right => left = right
  | left, right => left = right || sameRegisteredSymbol left right

/-- `oseo_internal_local_symbol`. A registered symbol becomes the realm's own representative. -/
def localSymbol (representative : ℕ → ℕ) : Value → Value
  | .symbol ⟨_, some entry⟩ => .symbol ⟨representative entry, some entry⟩
  | value => value

/-- `map_normalize_key`. -/
def mapNormalizeKey : Value → Value
  | .number (.zero _) => .number (.zero false)
  | key => key

/-- `normalize_set_value`. -/
def normalizeSetValue : Value → Value
  | .number (.zero _) => .number (.zero false)
  | value => value

/-! ## SameValueZero is an equivalence -/

variable {x y z : Value}

/-- The value that stands for all those SameValueZero does not tell apart from it. -/
def Value.zeroClass : Value → Value
  | .number (.zero _) => .number (.zero false)
  | .symbol ⟨_, some entry⟩ => .symbol ⟨0, some entry⟩
  | value => value

lemma sameValueZero_symbol (left right : Symbol) :
    sameValueZero (.symbol left) (.symbol right) =
      decide (Value.zeroClass (.symbol left) = Value.zeroClass (.symbol right)) := by
  obtain ⟨ref, entry⟩ := left
  obtain ⟨ref', entry'⟩ := right
  cases entry with
  | none =>
    cases entry' with
    | none => simp [sameValueZero, sameRegisteredSymbol, Value.zeroClass]
    | some entry' => simp [sameValueZero, sameRegisteredSymbol, Value.zeroClass]
  | some entry =>
    cases entry' with
    | none => simp [sameValueZero, sameRegisteredSymbol, Value.zeroClass]
    | some entry' =>
      -- The same symbol, or two of the same entry.
      by_cases h : entry = entry' <;> simp [sameValueZero, sameRegisteredSymbol, Value.zeroClass, h]

lemma sameValueZero_eq (x y : Value) :
    sameValueZero x y = decide (x.zeroClass = y.zeroClass) := by
  cases x with
  | number left =>
    cases y with
    | number right =>
      cases left <;> cases right <;> simp [sameValueZero, Number.equals, Value.zeroClass]
    | symbol right =>
      cases left <;> obtain ⟨ref, _ | entry⟩ := right <;>
        simp [sameValueZero, sameRegisteredSymbol, Value.zeroClass]
    | _ => cases left <;> simp [sameValueZero, sameRegisteredSymbol, Value.zeroClass]
  | symbol left =>
    cases y with
    | symbol right => exact sameValueZero_symbol left right
    | number right =>
      cases right <;> obtain ⟨ref, _ | entry⟩ := left <;>
        simp [sameValueZero, sameRegisteredSymbol, Value.zeroClass]
    | _ =>
      obtain ⟨ref, _ | entry⟩ := left <;>
        simp [sameValueZero, sameRegisteredSymbol, Value.zeroClass]
  | _ =>
    cases y with
    | number right => cases right <;> simp [sameValueZero, sameRegisteredSymbol, Value.zeroClass]
    | symbol right =>
      obtain ⟨ref, _ | entry⟩ := right <;>
        simp [sameValueZero, sameRegisteredSymbol, Value.zeroClass]
    | _ => simp [sameValueZero, sameRegisteredSymbol, Value.zeroClass]

@[simp] lemma sameValueZero_refl (x : Value) : sameValueZero x x = true := by
  simp [sameValueZero_eq]

lemma sameValueZero_comm (x y : Value) : sameValueZero x y = sameValueZero y x := by
  simp [sameValueZero_eq, eq_comm]

lemma sameValueZero_trans (hxy : sameValueZero x y = true) (hyz : sameValueZero y z = true) :
    sameValueZero x z = true := by
  rw [sameValueZero_eq, decide_eq_true_eq] at *
  exact hxy.trans hyz

/-- Keys of one class are told apart from the same values. -/
lemma sameValueZero_congr (h : sameValueZero x y = true) (z : Value) :
    sameValueZero z x = sameValueZero z y := by
  rw [Bool.eq_iff_iff]
  constructor
  · exact fun hzx => sameValueZero_trans hzx h
  · rw [sameValueZero_comm] at h
    exact fun hzy => sameValueZero_trans hzy h

@[simp] lemma sameValueZero_normalize (x : Value) :
    sameValueZero (mapNormalizeKey x) x = true := by
  unfold mapNormalizeKey
  split
  · simp [sameValueZero, Number.equals]
  · exact sameValueZero_refl x

@[simp] lemma sameValueZero_local (representative : ℕ → ℕ) (x : Value) :
    sameValueZero (localSymbol representative x) x = true := by
  unfold localSymbol
  split
  · simp [sameValueZero, sameRegisteredSymbol]
  · exact sameValueZero_refl x

end

/-! ## Maps -/

section

open Oseo.Library

/-- `OseoMapEntry`. -/
structure MapEntry where
  key : Value
  value : Value
  live : Bool

/-- What `OseoMap` adds to an object. -/
structure OseoMap where
  entries : ℕ → MapEntry
  entryCapacity : ℕ
  entryCount : ℕ
  liveCount : ℕ

/-- `OseoSetElement`. -/
structure SetElement where
  value : Value
  present : Bool

/-- What `OseoSet` adds to an object. -/
structure OseoSet where
  elements : ℕ → SetElement
  elementCapacity : ℕ
  elementCount : ℕ
  size : ℕ

/-- `OseoMapIterationKind` and `OseoSetIteratorKind`. -/
inductive IterationKind
  | key
  | value
  | entry
deriving DecidableEq

/-- `OseoMapIterator`. -/
structure OseoMapIterator where
  target : Option ℕ
  index : ℕ
  kind : IterationKind

/-- `OseoSetIterator`. -/
structure OseoSetIterator where
  set : Option ℕ
  index : ℕ
  kind : IterationKind
  done : Bool

/-- An operation that has called user code. -/
inductive Activation
  | mapForEach (map : ℕ) (index : ℕ)
  | setForEach (set : ℕ) (index : ℕ)
  | getOrInsertComputed (map : ℕ) (key : Value)

/-- The collections of a program, what iterates over them, and the operations that have called
user code. -/
structure Collections where
  map : ℕ → OseoMap
  set : ℕ → OseoSet
  mapIterator : ℕ → OseoMapIterator
  setIterator : ℕ → OseoSetIterator
  activation : ℕ → Option Activation
  nextMapIterator : ℕ
  nextSetIterator : ℕ
  nextActivation : ℕ

/-- A completion other than a normal one. -/
inductive CollectionError
  | typeError (message : String)
  | failure (code message : String)
deriving DecidableEq

/-- `SIZE_MAX`. -/
def sizeMax : ℕ := 2 ^ 64 - 1

/-- `sizeof(OseoMapEntry)`. -/
def mapEntrySize : ℕ := 24

/-- `sizeof(OseoSetElement)`. -/
def setElementSize : ℕ := 16

/-- The capacity a full vector grows to, in the arithmetic of `size_t`. -/
def grownCapacity (capacity : ℕ) : ℕ := if capacity = 0 then 4 else capacity * 2 % (sizeMax + 1)

/-- Writes one Map. -/
def Collections.setMap (c : Collections) (m : ℕ) (f : OseoMap → OseoMap) : Collections :=
  { c with map := Function.update c.map m (f (c.map m)) }

/-- Writes one Set. -/
def Collections.setSet (c : Collections) (s : ℕ) (f : OseoSet → OseoSet) : Collections :=
  { c with set := Function.update c.set s (f (c.set s)) }

/-- Writes one Map iterator. -/
def Collections.setMapIterator (c : Collections) (i : ℕ)
    (f : OseoMapIterator → OseoMapIterator) : Collections :=
  { c with mapIterator := Function.update c.mapIterator i (f (c.mapIterator i)) }

/-- Writes one Set iterator. -/
def Collections.setSetIterator (c : Collections) (i : ℕ)
    (f : OseoSetIterator → OseoSetIterator) : Collections :=
  { c with setIterator := Function.update c.setIterator i (f (c.setIterator i)) }

/-- Writes one activation. -/
def Collections.setActivation (c : Collections) (f : ℕ) (activation : Option Activation) :
    Collections :=
  { c with activation := Function.update c.activation f activation }

/-! ## Maps -/

/-- The Map a receiver is. -/
def mapReceiver (method : String) : Value → Except CollectionError ℕ
  | .map m => .ok m
  | _ => .error (.typeError ("Method " ++ method ++ " called on incompatible receiver."))

/-- `map_entry_find`. -/
def mapEntryFind (map : OseoMap) (key : Value) : Option ℕ :=
  firstFrom (fun i => (map.entries i).live && sameValueZero (map.entries i).key key) 0
    map.entryCount

/-- `map_grow_entries`. -/
def mapGrowEntries (map : OseoMap) (memory : Option (ℕ → MapEntry)) :
    Except CollectionError OseoMap :=
  if map.entryCount < map.entryCapacity then .ok map
  else
    let capacity := grownCapacity map.entryCapacity
    if capacity < map.entryCapacity ∨ capacity > sizeMax / mapEntrySize then
      .error (.failure "OSEO2001" "Map storage is too large.")
    else
      match memory with
      | none => .error (.failure "OSEO2001" "Map storage allocation failed.")
      | some memory =>
        .ok
          { map with
            entries := fun i => if i < map.entryCount then map.entries i else memory i
            entryCapacity := capacity }

/-- `map_append_entry`. -/
def mapAppendEntry (representative : ℕ → ℕ) (map : OseoMap) (key value : Value)
    (memory : Option (ℕ → MapEntry)) : Except CollectionError OseoMap := do
  let map ← mapGrowEntries map memory
  return {
    map with
    entries := Function.update map.entries map.entryCount
      { key := localSymbol representative key, value := value, live := true }
    entryCount := map.entryCount + 1
    liveCount := map.liveCount + 1 }

/-- Stores a value in the record at an index. -/
def OseoMap.store (map : OseoMap) (index : ℕ) (value : Value) : OseoMap :=
  { map with
    entries := Function.update map.entries index { map.entries index with value := value } }

/-- `map_prototype_get`. -/
def mapPrototypeGet (c : Collections) (receiver key : Value) : Except CollectionError Value := do
  let m ← mapReceiver "Map.prototype.get" receiver
  match mapEntryFind (c.map m) key with
  | none => return .undefined
  | some index => return ((c.map m).entries index).value

/-- `map_prototype_has`. -/
def mapPrototypeHas (c : Collections) (receiver key : Value) : Except CollectionError Bool := do
  let m ← mapReceiver "Map.prototype.has" receiver
  return (mapEntryFind (c.map m) key).isSome

/-- `map_prototype_set`. -/
def mapPrototypeSet (representative : ℕ → ℕ) (c : Collections) (receiver key value : Value)
    (memory : Option (ℕ → MapEntry)) : Except CollectionError (Value × Collections) := do
  let m ← mapReceiver "Map.prototype.set" receiver
  let normalizedKey := mapNormalizeKey key
  match mapEntryFind (c.map m) normalizedKey with
  | some index => return (receiver, c.setMap m fun map => map.store index value)
  | none =>
    let map ← mapAppendEntry representative (c.map m) normalizedKey value memory
    return (receiver, c.setMap m fun _ => map)

/-- `map_prototype_get_or_insert`: the value, and whether it was inserted. -/
def mapPrototypeGetOrInsert (representative : ℕ → ℕ) (c : Collections)
    (receiver key value : Value) (memory : Option (ℕ → MapEntry)) :
    Except CollectionError ((Value × Bool) × Collections) := do
  let m ← mapReceiver "Map.prototype.getOrInsert" receiver
  let normalizedKey := mapNormalizeKey key
  match mapEntryFind (c.map m) normalizedKey with
  | some index => return ((((c.map m).entries index).value, false), c)
  | none =>
    let map ← mapAppendEntry representative (c.map m) normalizedKey value memory
    return ((value, true), c.setMap m fun _ => map)

/-- The beginning of `map_prototype_get_or_insert_computed`: the value of a record, or the
activation that has called the callback. -/
def mapPrototypeGetOrInsertComputed (c : Collections) (receiver key callback : Value) :
    Except CollectionError (Option Value × Collections) := do
  let m ← mapReceiver "Map.prototype.getOrInsertComputed" receiver
  match callback with
  | .function _ =>
    let normalizedKey := mapNormalizeKey key
    match mapEntryFind (c.map m) normalizedKey with
    | some index => return (some ((c.map m).entries index).value, c)
    | none =>
      return (none,
        { c with nextActivation := c.nextActivation + 1 }.setActivation c.nextActivation
          (some (.getOrInsertComputed m normalizedKey)))
  | _ =>
    throw (.typeError "Map.prototype.getOrInsertComputed callback is not callable.")

/-- The end of `map_prototype_get_or_insert_computed`, once the callback has returned `value`. -/
def mapGetOrInsertComputedEnd (representative : ℕ → ℕ) (c : Collections) (f m : ℕ)
    (key value : Value) (memory : Option (ℕ → MapEntry)) :
    Except CollectionError Collections := do
  let c := c.setActivation f none
  match mapEntryFind (c.map m) key with
  | some index => return c.setMap m fun map => map.store index value
  | none =>
    let map ← mapAppendEntry representative (c.map m) key value memory
    return c.setMap m fun _ => map

/-- What a deleted record holds. -/
def MapEntry.tombstone : MapEntry := { key := .undefined, value := .undefined, live := false }

/-- `map_prototype_delete`. -/
def mapPrototypeDelete (c : Collections) (receiver key : Value) :
    Except CollectionError (Bool × Collections) := do
  let m ← mapReceiver "Map.prototype.delete" receiver
  match mapEntryFind (c.map m) key with
  | none => return (false, c)
  | some index =>
    return (true, c.setMap m fun map =>
      { map with
        entries := Function.update map.entries index .tombstone
        liveCount := map.liveCount - 1 })

/-- `map_prototype_clear`. -/
def mapPrototypeClear (c : Collections) (receiver : Value) :
    Except CollectionError Collections := do
  let m ← mapReceiver "Map.prototype.clear" receiver
  return c.setMap m fun map =>
    { map with
      entries := fun i => if i < map.entryCount then .tombstone else map.entries i
      liveCount := 0 }

/-- `map_prototype_size_getter`. -/
def mapPrototypeSize (c : Collections) (receiver : Value) : Except CollectionError ℕ := do
  let m ← mapReceiver "get Map.prototype.size" receiver
  return (c.map m).liveCount

/-- What a step of an iteration gives. -/
inductive Item
  | key (key : Value)
  | value (value : Value)
  | entry (key value : Value)
deriving DecidableEq

/-- What an iteration of a kind gives of a record. -/
def IterationKind.item (kind : IterationKind) (key value : Value) : Item :=
  match kind with
  | .key => .key key
  | .value => .value value
  | .entry => .entry key value

/-- The beginning of `map_prototype_for_each`. -/
def mapPrototypeForEach (c : Collections) (receiver callback : Value) :
    Except CollectionError Collections := do
  let m ← mapReceiver "Map.prototype.forEach" receiver
  match callback with
  | .function _ =>
    return { c with nextActivation := c.nextActivation + 1 }.setActivation c.nextActivation
      (some (.mapForEach m 0))
  | _ => throw (.typeError "Map.prototype.forEach callback is not callable.")

/-- The loop of `map_prototype_for_each` up to its next call: the arguments of the call, with the
record they are from. -/
def mapForEachNext (c : Collections) (f m index : ℕ) : Option (ℕ × Item) × Collections :=
  let map := c.map m
  match firstFrom (fun i => (map.entries i).live) index map.entryCount with
  | none => (none, c.setActivation f none)
  | some i =>
    (some (i, .entry (map.entries i).key (map.entries i).value),
      c.setActivation f (some (.mapForEach m (i + 1))))

/-- `map_create_iterator`. -/
def mapCreateIterator (c : Collections) (method : String) (receiver : Value)
    (kind : IterationKind) : Except CollectionError Collections := do
  let m ← mapReceiver method receiver
  return { c with nextMapIterator := c.nextMapIterator + 1 }.setMapIterator c.nextMapIterator
    fun _ => { target := some m, index := 0, kind := kind }

/-- `map_iterator_next`: the item, with the record it is from. -/
def mapIteratorNext (c : Collections) (receiver : Value) :
    Except CollectionError (Option (ℕ × Item) × Collections) :=
  match receiver with
  | .mapIterator i =>
    match (c.mapIterator i).target with
    | none => return (none, c)
    | some m =>
      let map := c.map m
      match firstFrom (fun i => (map.entries i).live) (c.mapIterator i).index map.entryCount with
      | some index =>
        return (some (index, (c.mapIterator i).kind.item (map.entries index).key
            (map.entries index).value),
          c.setMapIterator i fun iterator => { iterator with index := index + 1 })
      | none =>
        return (none, c.setMapIterator i fun iterator =>
          { iterator with target := none, index := max iterator.index map.entryCount })
  | _ =>
    throw (.typeError
      "Method %MapIteratorPrototype%.next called on incompatible receiver.")

end

/-! ## Sets -/

open Oseo.Library

/-- `set_receiver`. -/
def setReceiver : Value → Except CollectionError ℕ
  | .set s => .ok s
  | _ => .error (.typeError "Set method receiver is not a Set.")

/-- `set_find`. -/
def setFind (set : OseoSet) (value : Value) : Option ℕ :=
  firstFrom (fun i => (set.elements i).present && sameValueZero (set.elements i).value value) 0
    set.elementCount

/-- `grow_set`. -/
def growSet (set : OseoSet) (memory : Option (ℕ → SetElement)) :
    Except CollectionError OseoSet :=
  if set.elementCount < set.elementCapacity then .ok set
  else
    let capacity := grownCapacity set.elementCapacity
    if capacity < set.elementCapacity ∨ capacity > sizeMax / setElementSize then
      .error (.failure "OSEO2001" "Set storage is too large.")
    else
      match memory with
      | none => .error (.failure "OSEO2001" "Set storage allocation failed.")
      | some memory =>
        .ok
          { set with
            elements := fun i => if i < set.elementCount then set.elements i else memory i
            elementCapacity := capacity }

/-- `set_append`. -/
def setAppend (representative : ℕ → ℕ) (set : OseoSet) (value : Value)
    (memory : Option (ℕ → SetElement)) : Except CollectionError OseoSet := do
  let set ← growSet set memory
  return {
    set with
    elements := Function.update set.elements set.elementCount
      { value := localSymbol representative value, present := true }
    elementCount := set.elementCount + 1
    size := set.size + 1 }

/-- What a deleted element holds. -/
def SetElement.tombstone : SetElement := { value := .undefined, present := false }

/-- `set_remove_at`. -/
def setRemoveAt (set : OseoSet) (index : ℕ) : OseoSet :=
  { set with
    elements := Function.update set.elements index .tombstone
    size := set.size - 1 }

/-- `set_add`: the receiver, and whether the value was added. -/
def setAdd (representative : ℕ → ℕ) (c : Collections) (receiver value : Value)
    (memory : Option (ℕ → SetElement)) :
    Except CollectionError ((Value × Bool) × Collections) := do
  let s ← setReceiver receiver
  let value := normalizeSetValue value
  if (setFind (c.set s) value).isSome then return ((receiver, false), c)
  else
    let set ← setAppend representative (c.set s) value memory
    return ((receiver, true), c.setSet s fun _ => set)

/-- `set_clear`. -/
def setClear (c : Collections) (receiver : Value) : Except CollectionError Collections := do
  let s ← setReceiver receiver
  return c.setSet s fun set =>
    { set with
      elements := fun i => if i < set.elementCount then .tombstone else set.elements i
      size := 0 }

/-- `set_delete`. -/
def setDelete (c : Collections) (receiver value : Value) :
    Except CollectionError (Bool × Collections) := do
  let s ← setReceiver receiver
  match setFind (c.set s) value with
  | none => return (false, c)
  | some index => return (true, c.setSet s fun set => setRemoveAt set index)

/-- `set_has`. -/
def setHas (c : Collections) (receiver value : Value) : Except CollectionError Bool := do
  let s ← setReceiver receiver
  return (setFind (c.set s) value).isSome

/-- `set_size`. -/
def setSize (c : Collections) (receiver : Value) : Except CollectionError ℕ := do
  let s ← setReceiver receiver
  return (c.set s).size

/-- `set_iterator_create`. -/
def setIteratorCreate (c : Collections) (s : ℕ) (kind : IterationKind) : Collections :=
  { c with nextSetIterator := c.nextSetIterator + 1 }.setSetIterator c.nextSetIterator fun _ =>
    { set := some s, index := 0, kind := kind, done := false }

/-- `set_entries`. -/
def setEntries (c : Collections) (receiver : Value) : Except CollectionError Collections := do
  let s ← setReceiver receiver
  return setIteratorCreate c s .entry

/-- `set_values`. -/
def setValues (c : Collections) (receiver : Value) : Except CollectionError Collections := do
  let s ← setReceiver receiver
  return setIteratorCreate c s .value

/-- `set_iterator_next`: the item, with the element it is from. -/
def setIteratorNext (c : Collections) (receiver : Value) :
    Except CollectionError (Option (ℕ × Item) × Collections) :=
  match receiver with
  | .setIterator i =>
    let finished (c : Collections) : Collections :=
      c.setSetIterator i fun iterator => { iterator with done := true, set := none }
    let iterator := c.setIterator i
    match iterator.done, iterator.set with
    | false, some s =>
      let set := c.set s
      match firstFrom (fun i => (set.elements i).present) iterator.index set.elementCount with
      | some index =>
        let value := (set.elements index).value
        return (some (index, iterator.kind.item value value),
          c.setSetIterator i fun iterator => { iterator with index := index + 1 })
      | none =>
        return (none, finished (c.setSetIterator i fun iterator =>
          { iterator with index := max iterator.index set.elementCount }))
    | _, _ => return (none, finished c)
  | _ => throw (.typeError "Set iterator next requires a Set iterator receiver.")

/-- The beginning of `set_for_each`. -/
def setForEach (c : Collections) (receiver callback : Value) :
    Except CollectionError Collections := do
  let s ← setReceiver receiver
  match callback with
  | .function _ =>
    return { c with nextActivation := c.nextActivation + 1 }.setActivation c.nextActivation
      (some (.setForEach s 0))
  | _ => throw (.typeError "Set.prototype.forEach callback is not callable.")

/-- The loop of `set_for_each` up to its next call: the arguments of the call, with the element
they are from. -/
def setForEachNext (c : Collections) (f s index : ℕ) : Option (ℕ × Item) × Collections :=
  let set := c.set s
  match firstFrom (fun i => (set.elements i).present) index set.elementCount with
  | none => (none, c.setActivation f none)
  | some i =>
    (some (i, .entry (set.elements i).value (set.elements i).value),
      c.setActivation f (some (.setForEach s (i + 1))))

end Oseo.KeyedCollections
