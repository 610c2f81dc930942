import Oseo.KeyedCollections.Maps
import Mathlib.Data.Nat.Digits.Lemmas

/-!
# Property keys

The keys of the property vector and how two of them are compared, and the array indices among
them (`runtime_string.c`).

* A string is its contents, a symbol is told by its address or by the registry entry it
  represents;
* `arrayIndex` reads a canonical array index, and `arrayIndexKey` writes one.
-/

namespace Oseo.PropertyStorage

open Oseo.KeyedCollections (Number Symbol)

section

open Nat
open List

/-- A string or a symbol: what `oseo_internal_require_property_key` lets through. -/
inductive PropertyKey
  | string (units : List ℕ)
  | symbol (value : Symbol)
deriving DecidableEq

/-- `is_symbol`. -/
def PropertyKey.isSymbol : PropertyKey → Bool
  | .string _ => false
  | .symbol _ => true

/-- `same_registered_symbol`. -/
def sameRegisteredSymbol (left right : Symbol) : Bool :=
  left.registryEntry.isSome && left.registryEntry = right.registryEntry

/-- `oseo_internal_property_key_equal`. -/
def propertyKeyEqual : PropertyKey → PropertyKey → Bool
  | .string left, .string right => left = right
  | .symbol left, .symbol right => left = right || sameRegisteredSymbol left right
  | _, _ => false

/-- The loop of `oseo_internal_array_index` over the digits. -/
def arrayIndexDigits (value : ℕ) : List ℕ → Option ℕ
  | [] => some value
  | unit :: rest =>
    if unit < 0x30 || 0x39 < unit then none
    else if 4294967294 < value * 10 + (unit - 0x30) then none
    else arrayIndexDigits (value * 10 + (unit - 0x30)) rest

/-- `oseo_internal_array_index`. -/
def arrayIndex : PropertyKey → Option ℕ
  | .symbol _ => none
  | .string units =>
    if units.length = 0 || 10 < units.length then none
    else if 1 < units.length && units.head? = some 0x30 then none
    else arrayIndexDigits 0 units

/-- The decimal digits of a number, as `array_index_key` and `snprintf` write them. -/
def decimalUnits (index : ℕ) : List ℕ :=
  if index = 0 then [0x30] else ((Nat.digits 10 index).map (0x30 + ·)).reverse

/-- `array_index_key`. -/
def arrayIndexKey (index : ℕ) : PropertyKey := .string (decimalUnits index)

/-- `"length"`. -/
def lengthKey : PropertyKey := .string [0x6c, 0x65, 0x6e, 0x67, 0x74, 0x68]

/-- `"prototype"`. -/
def prototypeKey : PropertyKey :=
  .string [0x70, 0x72, 0x6f, 0x74, 0x6f, 0x74, 0x79, 0x70, 0x65]

/-- `"caller"`. -/
def callerKey : PropertyKey := .string [0x63, 0x61, 0x6c, 0x6c, 0x65, 0x72]

/-- `"arguments"`. -/
def argumentsKey : PropertyKey :=
  .string [0x61, 0x72, 0x67, 0x75, 0x6d, 0x65, 0x6e, 0x74, 0x73]

/-! ## Key equality is an equivalence -/

variable {x y z key : PropertyKey} {i j : ℕ}

/-- The key that stands for all those told to be equal to it. -/
def PropertyKey.keyClass : PropertyKey → PropertyKey
  | .symbol ⟨_, some entry⟩ => .symbol ⟨0, some entry⟩
  | key => key

lemma propertyKeyEqual_eq (x y : PropertyKey) :
    propertyKeyEqual x y = decide (x.keyClass = y.keyClass) := by
  cases x with
  | string left =>
    cases y with
    | string right => simp [propertyKeyEqual, PropertyKey.keyClass]
    | symbol right =>
      obtain ⟨ref, _ | entry⟩ := right <;> simp [propertyKeyEqual, PropertyKey.keyClass]
  | symbol left =>
    obtain ⟨ref, _ | entry⟩ := left
    · cases y with
      | string right => simp [propertyKeyEqual, PropertyKey.keyClass]
      | symbol right =>
        obtain ⟨ref', _ | entry'⟩ := right <;>
          simp [propertyKeyEqual, sameRegisteredSymbol, PropertyKey.keyClass]
    · cases y with
      | string right => simp [propertyKeyEqual, PropertyKey.keyClass]
      | symbol right =>
        obtain ⟨ref', _ | entry'⟩ := right
        · simp [propertyKeyEqual, sameRegisteredSymbol, PropertyKey.keyClass]
        · -- The same symbol, or two of the same entry.
          by_cases h : entry = entry' <;>
            simp [propertyKeyEqual, sameRegisteredSymbol, PropertyKey.keyClass, h]

@[simp] lemma propertyKeyEqual_refl (x : PropertyKey) : propertyKeyEqual x x = true := by
  simp [propertyKeyEqual_eq]

lemma propertyKeyEqual_comm (x y : PropertyKey) :
    propertyKeyEqual x y = propertyKeyEqual y x := by
  simp [propertyKeyEqual_eq, eq_comm]

lemma propertyKeyEqual_trans (hxy : propertyKeyEqual x y = true)
    (hyz : propertyKeyEqual y z = true) : propertyKeyEqual x z = true := by
  rw [propertyKeyEqual_eq, decide_eq_true_eq] at *
  exact hxy.trans hyz

/-- Equal keys are equal to the same keys. -/
lemma propertyKeyEqual_congr (h : propertyKeyEqual x y = true) (z : PropertyKey) :
    propertyKeyEqual z x = propertyKeyEqual z y := by
  rw [propertyKeyEqual_eq, decide_eq_true_eq] at h
  rw [propertyKeyEqual_eq, propertyKeyEqual_eq, h]

/-- A string is equal to itself only. -/
lemma propertyKeyEqual_string {units : List ℕ} :
    propertyKeyEqual x (.string units) = true ↔ x = .string units := by
  cases x with
  | string left => simp [propertyKeyEqual]
  | symbol left => simp [propertyKeyEqual]

/-! ## Array indices -/

/-- A digit that the index does not outgrow is read. -/
lemma arrayIndexDigits_cons {value unit : ℕ} {rest : List ℕ} :
    arrayIndexDigits value (unit :: rest) = some i ↔
      (0x30 ≤ unit ∧ unit ≤ 0x39) ∧ value * 10 + (unit - 0x30) ≤ 4294967294 ∧
        arrayIndexDigits (value * 10 + (unit - 0x30)) rest = some i := by
  rw [arrayIndexDigits]
  by_cases hdigit : unit < 0x30 || 0x39 < unit
  · rw [if_pos hdigit]
    simp only [Bool.or_eq_true, decide_eq_true_eq] at hdigit
    simp only [reduceCtorEq, false_iff]
    omega
  · rw [if_neg hdigit]
    simp only [Bool.or_eq_true, decide_eq_true_eq] at hdigit
    by_cases hbound : 4294967294 < value * 10 + (unit - 0x30)
    · rw [if_pos hbound]
      simp only [reduceCtorEq, false_iff]
      omega
    · rw [if_neg hbound]
      constructor
      · intro h
        exact ⟨by omega, by omega, h⟩
      · exact fun h => h.2.2

/-- The digits of a number, from the lowest one on, are the units of its key from behind. -/
def unitDigits (units : List ℕ) : List ℕ := units.reverse.map (· - 0x30)

lemma unitDigits_cons (unit : ℕ) (rest : List ℕ) :
    unitDigits (unit :: rest) = unitDigits rest ++ [unit - 0x30] := by
  unfold unitDigits
  rw [reverse_cons, map_append, map_singleton]

lemma length_unitDigits (units : List ℕ) : (unitDigits units).length = units.length := by
  unfold unitDigits
  rw [length_map, length_reverse]

/-- Reading digits adds them up, as long as the index does not outgrow its bound. -/
lemma arrayIndexDigits_eq {units : List ℕ} {value : ℕ} (hvalue : value ≤ 4294967294) :
    arrayIndexDigits value units = some i ↔
      (∀ unit ∈ units, 0x30 ≤ unit ∧ unit ≤ 0x39) ∧ i ≤ 4294967294 ∧
        i = ofDigits 10 (unitDigits units) + 10 ^ units.length * value := by
  induction units generalizing value with
  | nil =>
    simp only [arrayIndexDigits, unitDigits, reverse_nil, map_nil, ofDigits_nil,
      length_nil, Option.some.injEq, not_mem_nil, false_implies, implies_true, true_and]
    omega
  | cons unit rest ih =>
    rw [arrayIndexDigits_cons]
    have hsum : ofDigits 10 (unitDigits (unit :: rest)) + 10 ^ (unit :: rest).length * value =
        ofDigits 10 (unitDigits rest) +
          10 ^ rest.length * (value * 10 + (unit - 0x30)) := by
      rw [unitDigits_cons, ofDigits_append, ofDigits_singleton, length_unitDigits,
        length_cons, pow_succ, mul_add]
      rw [Nat.mul_assoc, Nat.mul_comm 10 value]
      omega
    have hpos : 0 < 10 ^ rest.length := Nat.pow_pos (by omega)
    rw [hsum, forall_mem_cons]
    constructor
    · rintro ⟨hdigit, hbound, h⟩
      obtain ⟨hrest, hi, heq⟩ := (ih hbound).mp h
      exact ⟨⟨hdigit, hrest⟩, hi, heq⟩
    · rintro ⟨⟨hdigit, hrest⟩, hi, heq⟩
      have hbound : value * 10 + (unit - 0x30) ≤ 4294967294 := by
        have := Nat.le_mul_of_pos_left (value * 10 + (unit - 0x30)) hpos
        omega
      exact ⟨hdigit, hbound, (ih hbound).mpr ⟨hrest, hi, heq⟩⟩

lemma unitDigits_decimalUnits (hi : i ≠ 0) : unitDigits (decimalUnits i) = digits 10 i := by
  unfold unitDigits decimalUnits
  rw [if_neg hi, reverse_reverse, map_map]
  conv_rhs => rw [← map_id (digits 10 i)]
  apply map_congr_left
  intro digit _
  show 0x30 + digit - 0x30 = digit
  omega

lemma decimalUnits_range {unit : ℕ} (h : unit ∈ decimalUnits i) : 0x30 ≤ unit ∧ unit ≤ 0x39 := by
  unfold decimalUnits at h
  split at h
  · rw [mem_singleton] at h
    omega
  · rw [mem_reverse, mem_map] at h
    obtain ⟨digit, hdigit, rfl⟩ := h
    have := digits_lt_base (by omega) hdigit
    omega

/-- A number other than zero is written without a leading zero. -/
lemma decimalUnits_head (hi : i ≠ 0) : (decimalUnits i).head? ≠ some 0x30 := by
  have hne : digits 10 i ≠ [] := digits_ne_nil_iff_ne_zero.mpr hi
  unfold decimalUnits
  rw [if_neg hi, head?_reverse, getLast?_map, getLast?_eq_some_getLast hne]
  have := getLast_digit_ne_zero 10 hi
  intro h
  simp only [Option.map_some, Option.some.injEq] at h
  omega

lemma length_decimalUnits (hi : i ≠ 0) : (decimalUnits i).length = (digits 10 i).length := by
  rw [← unitDigits_decimalUnits hi, length_unitDigits]

/-- A number is determined by its digits. -/
lemma decimalUnits_injective (h : decimalUnits i = decimalUnits j) : i = j := by
  by_cases hi : i = 0
  · subst hi
    by_contra hj
    have := decimalUnits_head (Ne.symm hj)
    rw [← h] at this
    exact this rfl
  · by_cases hj : j = 0
    · subst hj
      have := decimalUnits_head hi
      rw [h] at this
      exact absurd rfl this
    · have hdigits : digits 10 i = digits 10 j := by
        rw [← unitDigits_decimalUnits hi, h, unitDigits_decimalUnits hj]
      exact digits_inj_iff.mp hdigits

/-- What a key that starts with no zero denotes is written as the key. -/
lemma decimalUnits_ofDigits {units : List ℕ} (hne : units ≠ [])
    (hdigits : ∀ unit ∈ units, 0x30 ≤ unit ∧ unit ≤ 0x39) (hhead : units.head? ≠ some 0x30) :
    decimalUnits (ofDigits 10 (unitDigits units)) = units := by
  have hunits : ∀ digit ∈ unitDigits units, digit < 10 := by
    intro digit hdigit
    obtain ⟨unit, hunit, rfl⟩ := mem_map.mp hdigit
    have := hdigits unit (mem_reverse.mp hunit)
    omega
  have hlast : ∀ h : unitDigits units ≠ [], (unitDigits units).getLast h ≠ 0 := by
    intro h
    cases units with
    | nil => exact absurd rfl hne
    | cons unit rest =>
      have := (hdigits unit mem_cons_self).1
      have hunit : unit ≠ 0x30 := fun heq => hhead (congrArg some heq)
      simp only [unitDigits_cons, getLast_append_singleton]
      omega
  have hback := digits_ofDigits 10 (by omega) _ hunits hlast
  have hnonzero : ofDigits 10 (unitDigits units) ≠ 0 := by
    intro hzero
    rw [hzero, digits_zero] at hback
    have := congrArg length hback
    rw [length_unitDigits] at this
    exact hne (eq_nil_of_length_eq_zero this.symm)
  unfold decimalUnits
  rw [if_neg hnonzero, hback, unitDigits, map_map, ← map_reverse, reverse_reverse]
  conv_rhs => rw [← map_id units]
  apply map_congr_left
  intro unit hunit
  have := (hdigits unit hunit).1
  show 0x30 + (unit - 0x30) = unit
  omega

/-- The array indices are the numbers up to `2 ^ 32 - 2`, written without a leading zero. -/
lemma arrayIndex_string {units : List ℕ} :
    arrayIndex (.string units) = some i ↔ i ≤ 4294967294 ∧ units = decimalUnits i := by
  have hread := @arrayIndexDigits_eq i units 0 (by omega)
  rw [mul_zero, add_zero] at hread
  simp only [arrayIndex]
  constructor
  · intro h
    split at h
    · simp at h
    · next hlength =>
      split at h
      · simp at h
      · next hzero =>
        obtain ⟨hdigits, hi, rfl⟩ := hread.mp h
        refine ⟨hi, ?_⟩
        simp only [Bool.or_eq_true, decide_eq_true_eq, not_or] at hlength
        by_cases hhead : units.head? = some 0x30
        · -- A leading zero is the whole key.
          simp only [hhead, decide_true, Bool.and_true, decide_eq_true_eq] at hzero
          obtain ⟨rest, rfl⟩ := head?_eq_some_iff.mp hhead
          have hrest : rest = [] := by
            apply eq_nil_of_length_eq_zero
            rw [length_cons] at hzero
            omega
          subst hrest
          rfl
        · exact (decimalUnits_ofDigits (fun hnil => hlength.1 (by rw [hnil]; rfl)) hdigits
            hhead).symm
  · rintro ⟨hi, rfl⟩
    by_cases hzero : i = 0
    · subst hzero
      rfl
    · have hlength : (decimalUnits i).length ≤ 10 := by
        rw [length_decimalUnits hzero, digits_length_le_iff (by omega)]
        omega
      have hpos : (decimalUnits i).length ≠ 0 := by
        rw [length_decimalUnits hzero]
        intro hnil
        exact digits_ne_nil_iff_ne_zero.mpr hzero (eq_nil_of_length_eq_zero hnil)
      rw [if_neg (by simp only [Bool.or_eq_true, decide_eq_true_eq]; omega),
        if_neg (by simp [decimalUnits_head hzero])]
      refine hread.mpr ⟨fun unit => decimalUnits_range, hi, ?_⟩
      rw [unitDigits_decimalUnits hzero, ofDigits_digits]

/-- An array index is the key it is written as. -/
lemma arrayIndex_eq_some : arrayIndex key = some i ↔ i ≤ 4294967294 ∧ key = arrayIndexKey i := by
  cases key with
  | symbol value => simp [arrayIndex, arrayIndexKey]
  | string units =>
    rw [arrayIndex_string]
    simp [arrayIndexKey]

@[simp] lemma arrayIndex_arrayIndexKey (hi : i ≤ 4294967294) :
    arrayIndex (arrayIndexKey i) = some i :=
  arrayIndex_eq_some.mpr ⟨hi, rfl⟩

lemma arrayIndex_bound (h : arrayIndex key = some i) : i ≤ 4294967294 :=
  (arrayIndex_eq_some.mp h).1

/-- Equal keys are the same array index, if they are one. -/
lemma arrayIndex_congr (h : propertyKeyEqual x y = true) : arrayIndex x = arrayIndex y := by
  cases y with
  | string units =>
    rw [propertyKeyEqual_string] at h
    rw [h]
  | symbol right =>
    cases x with
    | string units => simp [propertyKeyEqual] at h
    | symbol left => rfl

/-- The keys of one array index are equal. -/
lemma propertyKeyEqual_of_arrayIndex (hx : arrayIndex x = some i) (hy : arrayIndex y = some i) :
    propertyKeyEqual x y = true := by
  rw [(arrayIndex_eq_some.mp hx).2, (arrayIndex_eq_some.mp hy).2]
  exact propertyKeyEqual_refl _

end

/-! ## Objects and their property vector

Ordinary objects, with what arrays and functions add to them, and the operations on the property
vector (`runtime_object.c`, `runtime_array.c` and the first half of `runtime_descriptor.c`).

* Objects and binding cells are named by their addresses;
* a slot that holds a binding cell is a view of the binding where `cellBackedProperty` says so;
* a *dense run* is a hint: the slots that hold the array indices of an object.
-/

section

/-- `OseoValue`. Binding cells are values of the runtime, and never of a program. -/
inductive Value
  | undefined
  | null
  | boolean (value : Bool)
  | number (value : Number)
  | string (units : List ℕ)
  | bigint (value : Int)
  | symbol (value : Symbol)
  | object (ref : ℕ)
  | cell (ref : ℕ)
deriving DecidableEq

/-- `is_cell`. -/
def Value.isCell : Value → Bool
  | .cell _ => true
  | _ => false

/-- A value of a program. -/
abbrev ProgramValue := { value : Value // value.isCell = false }

/-- `oseo_internal_same_value`. -/
def sameValue : Value → Value → Bool
  | .number left, .number right =>
    match left, right with
    | .nan, .nan => true
    | .zero left, .zero right => left = right
    | left, right => left.equals right
  | .symbol left, .symbol right => left = right || sameRegisteredSymbol left right
  | left, right => left = right

/-- `OseoPropertyAttributes`. -/
structure OseoPropertyAttributes where
  configurable : Bool
  enumerable : Bool
  writable : Bool
  accessor : Bool
deriving DecidableEq

/-- `OseoProperty`. -/
structure OseoProperty where
  attributes : OseoPropertyAttributes
  key : PropertyKey
  value : Value
  getter : Value
  setter : Value
deriving DecidableEq

/-- The kinds of heap objects `is_object` accepts, as far as property access tells them apart. -/
inductive HeapKind
  | object
  | array
  | function
  | proxy
  | typedArray
  | other
deriving DecidableEq

/-- `OseoFunctionKind`. -/
inductive OseoFunctionKind
  | ordinary
  | arrow
  | async
  | asyncArrow
  | internal
  | method
  | generator
  | classConstructor
  | asyncGenerator
  | bound
deriving DecidableEq

/-- `OseoOrdinaryObject`, with the fields of `OseoFunction` and `OseoProxy` that property access
reads. -/
structure OseoOrdinaryObject where
  kind : HeapKind
  prototype : Value
  properties : List OseoProperty
  propertyCapacity : ℕ
  shapeId : ℕ
  arrayLength : ℕ
  dictionary : Bool
  lengthWritable : Bool
  extensible : Bool
  moduleNamespace : Bool
  immutablePrototype : Bool
  globalObject : Bool
  mappedArguments : Bool
  virtualStringIterator : Bool
  virtualStringIteratorConfigurable : Bool
  virtualStringIteratorEnumerable : Bool
  virtualStringIteratorWritable : Bool
  denseIndexBase : ℕ
  denseIndexCount : ℕ
  denseIndexKnown : Bool
  functionKind : OseoFunctionKind
  prototypeObject : Value
  prototypeWritable : Bool
  prototypeKeyPosition : ℕ
  legacyCallerLive : Bool
  legacyArgumentsLive : Bool
  legacyArgumentsPosition : ℕ
  proxyCallable : Bool

/-- `OseoCell`. A binding that is not initialized has no value. The cell of an object environment
is in no property. -/
structure OseoCell where
  value : Option Value
  writable : Bool
  unresolvableMessage : Option String

/-- The heap, with the fields of the context and the realm that property access reads.
`latestActivation` is the answer of `activation_caller` for the latest running activation of a
function. -/
structure Heap where
  object : ℕ → OseoOrdinaryObject
  nextObject : ℕ
  cell : ℕ → OseoCell
  nextShapeId : ℕ
  stringPrototype : Option ℕ
  iteratorSymbol : Option Symbol
  globalLexicals : Option ℕ
  latestActivation : ℕ → Option Value

/-- How an operation on a property ends. `refused` is a normal completion that sets `refusal`;
the last cases hand the operation to code of the program or to other parts of the runtime. -/
inductive Outcome
  | normal (value : Value)
  | refused (message : String)
  | typeError (message : String)
  | rangeError (message : String)
  | referenceError (message : String)
  | failure (code message : String)
  | getterCall (getter receiver : Value)
  | setterCall (setter receiver value : Value)
  | proxyTrap (proxy : ℕ)
  | typedArrayElement (view : ℕ)
  | legacyArguments (function : ℕ)
  | lengthConversion
deriving DecidableEq

/-- What the allocations of one operation return: the realm's representative of a registered
symbol, whether the property vector can be moved to larger storage, the string of a key, and the
legacy arguments object of a running function. -/
structure Memory where
  representative : ℕ → Except Outcome ℕ
  vectorGrows : Bool
  keyString : Except Outcome Unit
  legacyArguments : Except Outcome Value

/-- Writes one object. -/
def Heap.setObject (h : Heap) (o : ℕ) (f : OseoOrdinaryObject → OseoOrdinaryObject) : Heap :=
  { h with object := Function.update h.object o (f (h.object o)) }

/-- Gives an object the next shape identifier. -/
def Heap.newShape (h : Heap) (o : ℕ) : Heap :=
  { h.setObject o fun object => { object with shapeId := h.nextShapeId } with
    nextShapeId := h.nextShapeId + 1 }

/-- Gives an object the next shape identifier, and puts it in dictionary mode. -/
def Heap.newDictionary (h : Heap) (o : ℕ) : Heap :=
  (h.setObject o fun object => { object with dictionary := true }).newShape o

/-- `UINT32_MAX`. -/
def uint32Max : ℕ := 2 ^ 32 - 1

/-- `SIZE_MAX`. -/
def sizeMax : ℕ := 2 ^ 64 - 1

/-- `sizeof(OseoProperty)`. -/
def propertySize : ℕ := 40

/-! ## The property vector -/

/-- A plain scan of the property vector. -/
def scanProperties (object : OseoOrdinaryObject) (key : PropertyKey) : Option ℕ :=
  object.properties.findIdx? fun property => propertyKeyEqual property.key key

/-- `oseo_internal_own_property_index`. -/
def ownPropertyIndex (object : OseoOrdinaryObject) (key : PropertyKey) : Option ℕ :=
  match arrayIndex key with
  | none => scanProperties object key
  | some index =>
    if object.kind = .array && object.arrayLength ≤ index then none
    -- Dense arrays commonly store index `i` in property slot `i`.
    else if object.kind = .array && object.properties[index]?.any
        fun property => propertyKeyEqual property.key key then some index
    else if object.denseIndexKnown then
      if object.denseIndexCount ≤ index then none
      else some (object.denseIndexBase + index)
    else scanProperties object key

/-- `oseo_internal_remove_property`, where the property is configurable. -/
def removeProperty (object : OseoOrdinaryObject) (index : ℕ) : Option OseoOrdinaryObject :=
  match object.properties[index]? with
  | none => none
  | some property =>
    if !property.attributes.configurable then none
    else
      let shifted := { object with properties := object.properties.eraseIdx index }
      if object.denseIndexKnown && 0 < object.denseIndexCount then
        if index < object.denseIndexBase then
          some { shifted with denseIndexBase := object.denseIndexBase - 1 }
        else if index + 1 = object.denseIndexBase + object.denseIndexCount then
          some { shifted with
            denseIndexCount := object.denseIndexCount - 1
            denseIndexBase := if object.denseIndexCount - 1 = 0 then 0
              else object.denseIndexBase }
        else if index < object.denseIndexBase + object.denseIndexCount then
          some { shifted with denseIndexKnown := false }
        else some shifted
      else some shifted

/-- `oseo_internal_note_property_inserted`. -/
def notePropertyInserted (object : OseoOrdinaryObject) (slot : ℕ) : OseoOrdinaryObject :=
  if !object.denseIndexKnown then object
  else match object.properties[slot]?.bind fun property => arrayIndex property.key with
    | some index =>
      if object.denseIndexCount = 0 && index = 0 then
        { object with denseIndexBase := slot, denseIndexCount := 1 }
      else if 0 < object.denseIndexCount &&
          slot = object.denseIndexBase + object.denseIndexCount &&
          index = object.denseIndexCount then
        { object with denseIndexCount := object.denseIndexCount + 1 }
      else { object with denseIndexKnown := false }
    | none =>
      if 0 < object.denseIndexCount then
        if slot ≤ object.denseIndexBase then
          { object with denseIndexBase := object.denseIndexBase + 1 }
        else if slot < object.denseIndexBase + object.denseIndexCount then
          { object with denseIndexKnown := false }
        else object
      else object

/-- `oseo_internal_grow_properties`. -/
def growProperties (object : OseoOrdinaryObject) (memory : Memory) :
    Except Outcome OseoOrdinaryObject :=
  if object.properties.length < object.propertyCapacity then .ok object
  else
    let capacity := if object.propertyCapacity = 0 then 4
      else object.propertyCapacity * 2 % (sizeMax + 1)
    if capacity < object.propertyCapacity || sizeMax / propertySize < capacity then
      .error (.failure "OSEO2001" "Property storage is too large.")
    else if !memory.vectorGrows then .error (.failure "OSEO2001" "Property allocation failed.")
    else .ok { object with propertyCapacity := capacity }

/-- A property put in a slot of the vector, the ones from this slot on moved up. -/
def insertProperty (object : OseoOrdinaryObject) (slot : ℕ) (property : OseoProperty) :
    OseoOrdinaryObject :=
  notePropertyInserted { object with properties := object.properties.insertIdx slot property } slot

/-- The slot `append_property_slot` opens. -/
def appendPropertySlot (object : OseoOrdinaryObject) (replacesVirtual : Bool) : ℕ :=
  if replacesVirtual then
    (object.properties.findIdx? fun property => property.key.isSymbol).getD
      object.properties.length
  else object.properties.length

/-- `oseo_internal_local_symbol`. A registered symbol becomes the realm's own representative. -/
def localSymbol (memory : Memory) : PropertyKey → Except Outcome PropertyKey
  | .symbol ⟨_, some entry⟩ =>
    (memory.representative entry).map fun ref => .symbol ⟨ref, some entry⟩
  | key => .ok key

/-- `oseo_internal_typed_array_numeric_key`, where it finds a numeric key: an array index, or a
string that is canonical for another number. -/
def typedArrayNumericKey (canonical : List ℕ → Bool) : PropertyKey → Bool
  | .string units => (arrayIndex (.string units)).isSome || canonical units
  | .symbol _ => false

/-! ## Own descriptors -/

/-- The two synthetic keys of a non-strict function. -/
inductive LegacyKey
  | caller
  | arguments
deriving DecidableEq

/-- `oseo_internal_legacy_live_key`. -/
def legacyLiveKey (object : OseoOrdinaryObject) (key : PropertyKey) : Option LegacyKey :=
  if object.kind ≠ .function then none
  else if object.legacyCallerLive && key = callerKey then some .caller
  else if object.legacyArgumentsLive && key = argumentsKey then some .arguments
  else none

/-- `function_has_prototype_property`. -/
def functionHasPrototypeProperty (object : OseoOrdinaryObject) : Bool :=
  object.kind = .function &&
    (object.functionKind = .ordinary || object.functionKind = .generator ||
      object.functionKind = .asyncGenerator || object.functionKind = .classConstructor)

/-- `oseo_internal_cell_backed_property`. -/
def cellBackedProperty (object : OseoOrdinaryObject) (stored : Value) : Bool :=
  stored.isCell && (object.moduleNamespace || object.globalObject || object.mappedArguments)

/-- A descriptor, as the callers of `oseo_internal_own_descriptor` get it. -/
structure Descriptor where
  value : Value
  attributes : OseoPropertyAttributes
  getter : Value
  setter : Value

/-- A data descriptor. -/
def Descriptor.data (value : Value) (attributes : OseoPropertyAttributes) : Descriptor :=
  ⟨value, attributes, .undefined, .undefined⟩

/-- `oseo_internal_legacy_descriptor`. -/
def legacyDescriptor (h : Heap) (o : ℕ) (key : PropertyKey) : Option Descriptor :=
  (legacyLiveKey (h.object o) key).map fun live =>
    .data
      (match h.latestActivation o with
        | none => .null
        | some caller => if live = .caller then caller else .object o)
      ⟨true, false, false, false⟩

/-- `oseo_number` of an array length: the double of an integer below `2 ^ 53`. -/
def lengthNumber (length : ℕ) : Value :=
  .number <| if length = 0 then .zero false
    else .other <| (1023 + Nat.log2 length) * 2 ^ 52 +
      (length - 2 ^ Nat.log2 length) * 2 ^ (52 - Nat.log2 length)

/-- `oseo_internal_own_descriptor`. -/
def ownDescriptor (h : Heap) (o : ℕ) (key : PropertyKey) : Option Descriptor :=
  let object := h.object o
  if (legacyLiveKey object key).isSome then some (.data .null ⟨true, false, false, false⟩)
  else if functionHasPrototypeProperty object && key = prototypeKey then
    some (.data object.prototypeObject ⟨false, false, object.prototypeWritable, false⟩)
  else if object.kind = .array && key = lengthKey then
    some (.data (lengthNumber object.arrayLength) ⟨false, false, object.lengthWritable, false⟩)
  else ((ownPropertyIndex object key).bind fun index => object.properties[index]?).map
    fun property =>
      if property.attributes.accessor then
        ⟨.undefined, property.attributes, property.getter, property.setter⟩
      else .data property.value property.attributes

/-- `oseo_internal_virtual_string_iterator_descriptor`. -/
def virtualStringIteratorDescriptor (h : Heap) (o : ℕ) (key : PropertyKey) :
    Option OseoPropertyAttributes :=
  let object := h.object o
  if h.stringPrototype ≠ some o || h.iteratorSymbol.map PropertyKey.symbol ≠ some key then none
  else if !object.virtualStringIterator then none
  else some ⟨object.virtualStringIteratorConfigurable, object.virtualStringIteratorEnumerable,
    object.virtualStringIteratorWritable, false⟩

/-- `oseo_internal_own_property_descriptor`. -/
def ownPropertyDescriptor (h : Heap) (o : ℕ) (key : PropertyKey) : Option Descriptor :=
  (legacyDescriptor h o key).or <| (ownDescriptor h o key).or <|
    (virtualStringIteratorDescriptor h o key).map (.data .undefined)

/-! ## Bindings -/

/-- `oseo_cell_get`. -/
def cellGet (h : Heap) : Value → Except Outcome Value
  | .cell c =>
    match (h.cell c).unresolvableMessage with
    | some message => .error (.referenceError message)
    | none =>
      match (h.cell c).value with
      | none => .error (.referenceError "Binding is read before initialization.")
      | some value => .ok value
  | _ => .error (.failure "OSEO2001" "Value is not a binding cell.")

/-- `oseo_cell_set`. -/
def cellSet (h : Heap) (stored value : Value) : Heap × Outcome :=
  match stored with
  | .cell c =>
    match (h.cell c).value with
    | none => (h, .referenceError "Binding was assigned before initialization.")
    | some _ =>
      ({ h with cell := Function.update h.cell c { h.cell c with value := some value } },
        .normal value)
  | _ => (h, .failure "OSEO2001" "Value is not a binding cell.")

end

/-! ## Arrays -/

/-! ## Truncation -/

/-- The loop of `truncate_dense_elements` that drops the last property. -/
def removeTail (requested : ℕ) : ℕ → OseoOrdinaryObject → OseoOrdinaryObject
  | 0, array => array
  | rounds + 1, array =>
    if requested < array.properties.length then
      removeTail requested rounds
        ((removeProperty array (array.properties.length - 1)).getD array)
    else array

/-- `truncate_dense_elements`, where it returns true. -/
def truncateDenseElements (array : OseoOrdinaryObject) (requested : ℕ) :
    Option OseoOrdinaryObject :=
  if array.kind ≠ .array || array.arrayLength < array.properties.length then none
  else if (List.range array.properties.length).all fun slot =>
      array.properties[slot]?.any fun property =>
        !property.attributes.accessor && property.attributes.configurable &&
          arrayIndex property.key = some slot then
    some (removeTail requested array.properties.length array)
  else none

/-- The search of `oseo_internal_set_array_length` for the largest array index that is not below
the requested length, from slot `index` on. -/
def selectElement (requested : ℕ) (index : ℕ) (selected : Option (ℕ × ℕ)) :
    List OseoProperty → Option (ℕ × ℕ)
  | [] => selected
  | property :: rest =>
    match arrayIndex property.key with
    | none => selectElement requested (index + 1) selected rest
    | some propertyIndex =>
      if requested ≤ propertyIndex && selected.all fun best => best.2 < propertyIndex then
        selectElement requested (index + 1) (some (index, propertyIndex)) rest
      else selectElement requested (index + 1) selected rest

/-- How the descending search ends: with every element removed, or at one that stays. -/
structure Truncation where
  array : OseoOrdinaryObject
  removed : Bool
  stopped : Bool

/-- The loop of `oseo_internal_set_array_length`. It removes one element each round. -/
def truncateElements (requested : ℕ) : ℕ → OseoOrdinaryObject → Bool → Truncation
  | 0, array, removed => ⟨array, removed, false⟩
  | rounds + 1, array, removed =>
    match selectElement requested 0 none array.properties with
    | none => ⟨array, removed, false⟩
    | some (selected, selectedIndex) =>
      match removeProperty array selected with
      | none => ⟨{ array with arrayLength := selectedIndex + 1 }, removed, true⟩
      | some array => truncateElements requested rounds array true

/-- The end of `oseo_internal_set_array_length`: the array has its new length. -/
def finishArrayLength (h : Heap) (o : ℕ) (array : OseoOrdinaryObject) (requested : ℕ) : Heap :=
  (h.setObject o fun _ => { array with arrayLength := requested }).newDictionary o

/-- `oseo_internal_set_array_length` from the conversion of the value on. -/
def setArrayLengthConverted (h : Heap) (o : ℕ) (value : Value) (requested : ℕ)
    (strict allowSameValue : Bool) : Heap × Outcome :=
  let array := h.object o
  if !array.lengthWritable then
    if allowSameValue && requested = array.arrayLength then (h, .normal value)
    else (h, if strict then .typeError "Cannot assign to the read-only array length."
      else .normal value)
  else if array.arrayLength ≤ requested then
    (finishArrayLength h o array requested, .normal value)
  else match truncateDenseElements array requested with
    | some truncated => (finishArrayLength h o truncated requested, .normal value)
    | none =>
      let truncation := truncateElements requested (array.properties.length + 1) array false
      if truncation.stopped then
        let kept := h.setObject o fun _ => truncation.array
        (if truncation.removed then kept.newDictionary o else kept,
          if strict then .typeError "Cannot truncate past a non-configurable element."
          else .normal value)
      else (finishArrayLength h o truncation.array requested, .normal value)

/-- `oseo_internal_set_array_length` before the conversion, which runs code of the program. -/
def setArrayLength (h : Heap) (o : ℕ) (value : Value) (strict allowSameValue : Bool) : Outcome :=
  if !allowSameValue && !(h.object o).lengthWritable then
    if strict then .typeError "Cannot assign to the read-only array length."
    else .normal value
  else .lengthConversion

/-! ## Appends -/

/-- `oseo_array_append`. -/
def arrayAppend (h : Heap) (o : ℕ) (value : Value) (memory : Memory) : Heap × Outcome :=
  let array := h.object o
  if array.kind ≠ .array then (h, .typeError "Array append requires an array.")
  else if !array.lengthWritable then (h, .typeError "Cannot extend a read-only array.")
  else if array.arrayLength = uint32Max then
    (h, .failure "OSEO2001" "Array accumulation is too large.")
  else match growProperties array memory with
    | .error outcome => (h, outcome)
    | .ok grown =>
      match memory.keyString with
      | .error outcome => (h.setObject o fun _ => grown, outcome)
      | .ok _ =>
        let property : OseoProperty :=
          ⟨⟨true, true, true, false⟩, arrayIndexKey array.arrayLength, value,
            .undefined, .undefined⟩
        let appended := insertProperty grown grown.properties.length property
        ((h.setObject o fun _ => { appended with arrayLength := array.arrayLength + 1 }).newShape o,
          .normal (.object o))

/-- `oseo_array_append_hole`. -/
def arrayAppendHole (h : Heap) (o : ℕ) : Heap × Outcome :=
  let array := h.object o
  if array.kind ≠ .array then (h, .typeError "Array hole append requires an array.")
  else if !array.lengthWritable then (h, .typeError "Cannot extend a read-only array.")
  else if array.arrayLength = uint32Max then (h, .rangeError "Invalid array length.")
  else ((h.setObject o fun array => { array with arrayLength := array.arrayLength + 1 }).newShape o,
    .normal (.object o))

end Oseo.PropertyStorage
