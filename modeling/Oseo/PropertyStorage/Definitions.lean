import Oseo.PropertyStorage.Objects
import Oseo.Library.Rounding

/-!
# Defining and deleting properties

[[DefineOwnProperty]] for data and accessor descriptors, and [[Delete]] (`runtime_descriptor.c`).

* `canonical` tells the canonical numeric strings, the keys a TypedArray answers itself;
* the conversion of an array length runs code of the program: `converted` is its result, and the
  heap is the one it leaves.
-/

namespace Oseo.PropertyStorage

/-! ## Legacy function properties -/

/-- The position of the non-index string key with a given rank, or the end of the vector. -/
def namedSlot (target rank : ℕ) : List OseoProperty → ℕ
  | [] => 0
  | property :: rest =>
    if property.key.isSymbol || (arrayIndex property.key).isSome then
      namedSlot target rank rest + 1
    else if rank = target then 0
    else namedSlot target (rank + 1) rest + 1

/-- `oseo_internal_legacy_value`. -/
def legacyValue (h : Heap) (o : ℕ) (key : PropertyKey) (value : Value) (memory : Memory) :
    Except Outcome Value :=
  if value = .object o && legacyLiveKey (h.object o) key = some .arguments then
    if (h.latestActivation o).isNone then .ok .null else memory.legacyArguments
  else .ok value

/-- The synthetic `caller` or `arguments` of a function as a property of its vector. -/
def materializeLegacy (object : OseoOrdinaryObject) (live : LegacyKey) (key : PropertyKey)
    (value : Value) : OseoOrdinaryObject :=
  let target := match live with
    | .arguments => object.legacyArgumentsPosition
    | .caller => object.prototypeKeyPosition
  let inserted := insertProperty object (namedSlot target 0 object.properties)
    ⟨⟨true, false, false, false⟩, key, value, .undefined, .undefined⟩
  { inserted with
    prototypeKeyPosition := object.prototypeKeyPosition + 1
    legacyCallerLive := object.legacyCallerLive && live ≠ .caller
    legacyArgumentsLive := object.legacyArgumentsLive && live ≠ .arguments }

/-- `oseo_internal_legacy_materialize`. -/
def legacyMaterialize (h : Heap) (o : ℕ) (key : PropertyKey) (memory : Memory) :
    Except Outcome Heap :=
  match legacyLiveKey (h.object o) key, legacyDescriptor h o key with
  | some live, some current =>
    match legacyValue h o key current.value memory with
    | .error outcome => .error outcome
    | .ok value =>
      match growProperties (h.object o) memory with
      | .error outcome => .error outcome
      | .ok grown =>
        .ok ((h.setObject o fun _ => materializeLegacy grown live key value).newDictionary o)
  | _, _ => .ok h

/-! ## Data properties -/

/-- A key that makes an array longer. -/
def extendsArray (object : OseoOrdinaryObject) (key : PropertyKey) : Bool :=
  object.kind = .array && (arrayIndex key).any fun index => object.arrayLength ≤ index

/-- The length of an array with a property of this key. -/
def extendedLength (object : OseoOrdinaryObject) (key : PropertyKey) : ℕ :=
  match arrayIndex key with
  | none => object.arrayLength
  | some index => if extendsArray object key then index + 1 else object.arrayLength

/-- A new property in the vector, at the slot the definition opens. -/
def appendProperty (object : OseoOrdinaryObject) (replacesVirtual : Bool)
    (property : OseoProperty) : OseoOrdinaryObject :=
  { insertProperty object (appendPropertySlot object replacesVirtual) property with
    arrayLength := extendedLength object property.key
    virtualStringIterator := object.virtualStringIterator && !replacesVirtual }

/-- The end of a definition of an absent property: the realm's key, the storage, the new slot. -/
def defineAbsent (h : Heap) (o : ℕ) (replacesVirtual : Bool) (property : OseoProperty)
    (memory : Memory) : Heap × Outcome :=
  match localSymbol memory property.key with
  | .error outcome => (h, outcome)
  | .ok key =>
    match growProperties (h.object o) memory with
    | .error outcome => (h, outcome)
    | .ok grown =>
      ((h.setObject o fun _ => appendProperty grown replacesVirtual { property with key }).newShape
        o, .normal (.object o))

/-- A property redefined in its slot. -/
def redefineProperty (object : OseoOrdinaryObject) (index : ℕ) (property : OseoProperty) :
    OseoOrdinaryObject :=
  { object with
    properties := object.properties.set index property
    arrayLength := extendedLength object property.key }

/-- `define_data_property` for the `length` of an array. -/
def defineArrayLength (h : Heap) (o : ℕ) (value : Value) (attributes : OseoPropertyAttributes)
    (hasValue absentWritable : Bool) (converted : Except Outcome (Fin (2 ^ 32))) : Heap × Outcome :=
  let object := h.object o
  match if hasValue then converted.map Fin.val else .ok object.arrayLength with
  | .error outcome => (h, outcome)
  | .ok requested =>
    let writable := if absentWritable then object.lengthWritable else attributes.writable
    if attributes.configurable || attributes.enumerable || (!object.lengthWritable && writable) then
      (h, .refused "Cannot redefine the array length property.")
    else if !hasValue then
      (h.setObject o fun object => { object with lengthWritable := writable }, .normal (.object o))
    else
      let changed := (setArrayLengthConverted h o value requested false true).1
      if (changed.object o).arrayLength ≠ requested then
        if (changed.object o).lengthWritable then
          (if writable then changed
            else changed.setObject o fun object => { object with lengthWritable := false },
            .refused "Cannot truncate past a non-configurable element.")
        else (changed, .refused "Cannot redefine the array length property.")
      else (changed.setObject o fun object => { object with lengthWritable := writable },
        .normal (.object o))

/-- `define_data_property` for a property of a module namespace. -/
def defineNamespaceProperty (h : Heap) (o : ℕ) (property : Option OseoProperty) (value : Value)
    (attributes : OseoPropertyAttributes) : Outcome :=
  match property with
  | none => .refused "Cannot define a module namespace property."
  | some property =>
    match if cellBackedProperty (h.object o) property.value then cellGet h property.value
      else .ok property.value with
    | .error outcome => outcome
    | .ok current =>
      if attributes.accessor || attributes.configurable ||
          attributes.enumerable ≠ property.attributes.enumerable ||
          attributes.writable ≠ property.attributes.writable || !sameValue current value then
        .refused "Cannot define a module namespace property."
      else .normal (.object o)

/-- `define_data_property` for a property that is in the vector. -/
def redefineData (h : Heap) (o : ℕ) (index : ℕ) (property : OseoProperty) (value : Value)
    (attributes : OseoPropertyAttributes) : Heap × Outcome :=
  let object := h.object o
  let cellBacked := cellBackedProperty object property.value
  match if cellBacked then cellGet h property.value else .ok property.value with
  | .error outcome => (h, outcome)
  | .ok current =>
    if !property.attributes.configurable &&
        (property.attributes.accessor || attributes.configurable ||
          attributes.enumerable ≠ property.attributes.enumerable ||
          (!property.attributes.writable && attributes.writable) ||
          (!property.attributes.writable && !sameValue current value)) then
      (h, .refused "Cannot redefine a non-configurable property.")
    else match property.value, cellBacked with
      | .cell c, true =>
        match cellSet h (.cell c) value with
        | (h, .normal _) =>
          -- The alias of a mapped argument ends with a read-only definition.
          let kept := if object.mappedArguments && !attributes.writable then value else .cell c
          let redefined := h.setObject o fun object =>
            { object with
              properties := object.properties.set index
                { property with attributes := attributes, value := kept } }
          (if object.mappedArguments then redefined.newDictionary o
            else { redefined.newDictionary o with
              cell := Function.update h.cell c
                { h.cell c with writable := attributes.writable } },
            .normal (.object o))
        | written => written
      | _, _ =>
        ((h.setObject o fun object => redefineProperty object index
            { property with
              attributes := attributes, value := value, getter := .undefined
              setter := .undefined }).newDictionary o,
          .normal (.object o))

/-- `define_data_property` for a key of no special kind, past the virtual String iterator. -/
def defineOrdinaryData (h : Heap) (o : ℕ) (key : PropertyKey) (value : Value)
    (attributes : OseoPropertyAttributes) (replacesVirtual : Bool) (memory : Memory) :
    Heap × Outcome :=
  let object := h.object o
  if extendsArray object key && !object.lengthWritable then
    (h, .refused "Cannot extend an array with a read-only length.")
  else if object.moduleNamespace then
    (h, defineNamespaceProperty h o
      ((ownPropertyIndex object key).bind fun index => object.properties[index]?) value attributes)
  else match (ownPropertyIndex object key).bind fun index =>
      object.properties[index]?.map fun property => (index, property) with
    | some (index, property) => redefineData h o index property value attributes
    | none =>
      if !object.extensible && !replacesVirtual then
        (h, .refused "Cannot define a property on a non-extensible object.")
      else defineAbsent h o replacesVirtual
        ⟨attributes, key, value, .undefined, .undefined⟩ memory

/-- `define_data_property` for the synthetic `prototype` of a function. -/
def defineFunctionPrototype (h : Heap) (o : ℕ) (value : Value)
    (attributes : OseoPropertyAttributes) : Heap × Outcome :=
  let function := h.object o
  if attributes.configurable || attributes.enumerable ||
      (!function.prototypeWritable &&
        (attributes.writable || !sameValue function.prototypeObject value)) then
    (h, .refused "Cannot redefine the prototype property.")
  else
    (h.setObject o fun function =>
      { function with prototypeObject := value, prototypeWritable := attributes.writable },
      .normal (.object o))

/-- `define_data_property` where the key is that of the virtual String iterator. -/
def defineVirtualData (h : Heap) (o : ℕ) (key : PropertyKey) (value : Value)
    (attributes virtual : OseoPropertyAttributes) (hasValue : Bool) (memory : Memory) :
    Heap × Outcome :=
  if !virtual.configurable &&
      (attributes.configurable || attributes.enumerable ≠ virtual.enumerable ||
        (!virtual.writable && attributes.writable) ||
        (!virtual.writable && hasValue && !sameValue value .undefined)) then
    (h, .refused "Cannot redefine a non-configurable property.")
  else if !hasValue || (!virtual.configurable && !virtual.writable) then
    ((h.setObject o fun object =>
      { object with
        virtualStringIteratorConfigurable := attributes.configurable
        virtualStringIteratorEnumerable := attributes.enumerable
        virtualStringIteratorWritable := attributes.writable }).newDictionary o,
      .normal (.object o))
  else defineOrdinaryData h o key value attributes true memory

/-- `define_data_property`. -/
def defineDataProperty (canonical : List ℕ → Bool) (h : Heap) (o : ℕ) (key : PropertyKey)
    (value : Value) (attributes : OseoPropertyAttributes) (hasValue absentWritable : Bool)
    (converted : Except Outcome (Fin (2 ^ 32))) (memory : Memory) : Heap × Outcome :=
  if (h.object o).kind = .typedArray && typedArrayNumericKey canonical key then
    (h, .typedArrayElement o)
  else match legacyMaterialize h o key memory with
    | .error outcome => (h, outcome)
    | .ok h =>
      if functionHasPrototypeProperty (h.object o) && key = prototypeKey then
        defineFunctionPrototype h o value attributes
      else match virtualStringIteratorDescriptor h o key with
        | some virtual => defineVirtualData h o key value attributes virtual hasValue memory
        | none =>
          if (h.object o).kind = .array && key = lengthKey then
            defineArrayLength h o value attributes hasValue absentWritable converted
          else defineOrdinaryData h o key value attributes false memory

/-- `oseo_internal_define_data_reported`. -/
def defineDataReported (canonical : List ℕ → Bool) (h : Heap) (o : ℕ) (key : PropertyKey)
    (value : Value) (attributes : OseoPropertyAttributes) (hasValue absentWritable : Bool)
    (converted : Except Outcome (Fin (2 ^ 32))) (memory : Memory) : Heap × Outcome :=
  if (h.object o).kind = .proxy then (h, .proxyTrap o)
  else defineDataProperty canonical h o key value attributes hasValue absentWritable converted
    memory

/-- `oseo_internal_append_own_property`. -/
def appendOwnProperty (h : Heap) (o : ℕ) (key : PropertyKey) (value : Value)
    (attributes : OseoPropertyAttributes) (memory : Memory) : Heap × Outcome :=
  match localSymbol memory key with
  | .error outcome => (h, outcome)
  | .ok key =>
    match growProperties (h.object o) memory with
    | .error outcome => (h, outcome)
    | .ok grown =>
      ((h.setObject o fun _ => insertProperty grown grown.properties.length
          ⟨attributes, key, value, .undefined, .undefined⟩).newShape o,
        .normal (.object o))

/-! ## Accessor properties -/

/-- The new halves of an accessor, those of the property in place where the descriptor has none. -/
def accessorHalf (given : Bool) (half : Value) (existing : Value) : Value :=
  if given then half else existing

/-- `define_accessor_property` for a property that is in the vector. -/
def redefineAccessor (h : Heap) (o : ℕ) (index : ℕ) (property : OseoProperty)
    (getter setter : Value) (hasGetter hasSetter : Bool) (attributes : OseoPropertyAttributes) :
    Heap × Outcome :=
  let existingGetter := if property.attributes.accessor then property.getter else .undefined
  let existingSetter := if property.attributes.accessor then property.setter else .undefined
  let newGetter := accessorHalf hasGetter getter existingGetter
  let newSetter := accessorHalf hasSetter setter existingSetter
  if !property.attributes.configurable &&
      (!property.attributes.accessor || attributes.configurable ||
        attributes.enumerable ≠ property.attributes.enumerable ||
        (hasGetter && !sameValue existingGetter newGetter) ||
        (hasSetter && !sameValue existingSetter newSetter)) then
    (h, .refused "Cannot redefine a non-configurable property.")
  else
    ((h.setObject o fun object => redefineProperty object index
        ⟨attributes, property.key, .undefined, newGetter, newSetter⟩).newDictionary o,
      .normal (.object o))

/-- `define_accessor_property`. -/
def defineAccessorProperty (canonical : List ℕ → Bool) (h : Heap) (o : ℕ) (key : PropertyKey)
    (getter setter : Value) (hasGetter hasSetter : Bool) (attributes : OseoPropertyAttributes)
    (memory : Memory) : Heap × Outcome :=
  if (h.object o).kind = .typedArray && typedArrayNumericKey canonical key then
    (h, .typedArrayElement o)
  else if (h.object o).moduleNamespace then
    (h, .refused "Cannot define a module namespace property.")
  else if functionHasPrototypeProperty (h.object o) && key = prototypeKey then
    (h, .refused "Cannot redefine the prototype property.")
  else match legacyMaterialize h o key memory with
    | .error outcome => (h, outcome)
    | .ok h =>
      let object := h.object o
      let virtual := virtualStringIteratorDescriptor h o key
      if virtual.any fun virtual => !virtual.configurable then
        (h, .refused "Cannot redefine a non-configurable property.")
      else if object.kind = .array && key = lengthKey then
        (h, .refused "Cannot redefine the array length property.")
      else if extendsArray object key && !object.lengthWritable then
        (h, .refused "Cannot extend an array with a read-only length.")
      else match (ownPropertyIndex object key).bind fun index =>
          object.properties[index]?.map fun property => (index, property) with
        | some (index, property) =>
          redefineAccessor h o index property getter setter hasGetter hasSetter attributes
        | none =>
          if !object.extensible && virtual.isNone then
            (h, .refused "Cannot define a property on a non-extensible object.")
          else defineAbsent h o virtual.isSome
            ⟨attributes, key, .undefined, accessorHalf hasGetter getter .undefined,
              accessorHalf hasSetter setter .undefined⟩ memory

/-- `oseo_internal_define_accessor_reported`. -/
def defineAccessorReported (canonical : List ℕ → Bool) (h : Heap) (o : ℕ)
    (key : PropertyKey) (getter setter : Value) (hasGetter hasSetter : Bool)
    (attributes : OseoPropertyAttributes) (memory : Memory) : Heap × Outcome :=
  if (h.object o).kind = .proxy then (h, .proxyTrap o)
  else defineAccessorProperty canonical h o key getter setter hasGetter hasSetter attributes memory

/-! ## Deletion -/

/-- A refusal that strict code sees as a `TypeError`. -/
def refuseDelete (strict : Bool) (message : String) : Outcome :=
  if strict then .typeError message else .normal (.boolean false)

/-- The leading run of a function's properties, one shorter where a property of it goes. -/
def shortenPosition (object : OseoOrdinaryObject) (index position : ℕ) : ℕ :=
  let named := fun property : OseoProperty =>
    !property.key.isSymbol && (arrayIndex property.key).isNone
  let rank := (object.properties.take index).countP named
  if (object.properties[index]?.any named) && rank < position then position - 1 else position

/-- The removal of `oseo_object_delete`. -/
def deleteProperty (object : OseoOrdinaryObject) (index : ℕ) (stringIterator : Bool) :
    OseoOrdinaryObject :=
  let positioned := if functionHasPrototypeProperty object then
      { object with
        prototypeKeyPosition := shortenPosition object index object.prototypeKeyPosition
        legacyArgumentsPosition := shortenPosition object index object.legacyArgumentsPosition }
    else object
  let removed := (removeProperty positioned index).getD positioned
  { removed with virtualStringIterator := removed.virtualStringIterator && !stringIterator }

/-- `oseo_object_delete` of an object's property. `hasIndex` says whether a TypedArray has the
element of a numeric key. -/
def objectDelete (canonical : List ℕ → Bool) (hasIndex : PropertyKey → Bool) (h : Heap) (o : ℕ)
    (key : PropertyKey) (strict : Bool) : Heap × Outcome :=
  let object := h.object o
  let stringIterator :=
    h.stringPrototype = some o && h.iteratorSymbol.map PropertyKey.symbol = some key
  if object.kind = .proxy then (h, .proxyTrap o)
  else if object.kind = .typedArray && typedArrayNumericKey canonical key then
    (h, if hasIndex key then refuseDelete strict "Cannot delete a TypedArray element."
      else .normal (.boolean true))
  else if functionHasPrototypeProperty object && key = prototypeKey then
    (h, refuseDelete strict "Cannot delete the prototype property.")
  else match legacyLiveKey object key with
    | some live =>
      ((h.setObject o fun object =>
        { object with
          legacyCallerLive := object.legacyCallerLive && live ≠ .caller
          legacyArgumentsLive := object.legacyArgumentsLive && live ≠ .arguments }).newDictionary o,
        .normal (.boolean true))
    | none =>
      if object.kind = .array && key = lengthKey then
        (h, refuseDelete strict "Cannot delete the array length property.")
      else match (ownPropertyIndex object key).bind fun index =>
          object.properties[index]?.map fun property => (index, property) with
        | none =>
          if stringIterator && object.virtualStringIterator then
            if !object.virtualStringIteratorConfigurable then
              (h, refuseDelete strict "Cannot delete a non-configurable property.")
            else
              ((h.setObject o fun object =>
                { object with virtualStringIterator := false }).newDictionary o,
                .normal (.boolean true))
          else (h, .normal (.boolean true))
        | some (index, property) =>
          if !property.attributes.configurable then
            (h, refuseDelete strict "Cannot delete a non-configurable property.")
          else
            ((h.setObject o fun object => deleteProperty object index stringIterator).newDictionary
              o, .normal (.boolean true))

/-! ## The length of an array, converted and written

The conversion of an array length (`oseo_internal_to_array_length`) and the two ways of writing
one: by assignment (`oseo_object_set`) and by definition (`define_data_property`), with the code of
the program that the conversion runs in between.

Beside them stands what ECMA-262 prescribes: [[Set]] and [[DefineOwnProperty]] of the `length` of
an array both end in ArraySetLength.
-/

open Oseo.Library (Number)

/-! ## Conversions -/

/-- One conversion of a value to a number: the heap its code leaves, and how it ends. -/
abbrev Conversion := Heap → Heap × Except Outcome Number

/-- `2 ^ 32`, as a double. -/
def lengthModulus : Number := .ofInt 4294967296

/-- A double below zero. -/
def belowZero : Number → Bool
  | .finite x => x.value < 0
  | _ => false

scoped instance uint32NeZero : NeZero (2 ^ 32) := ⟨by decide⟩

/-- The conversion of a double in range to `uint32_t`. -/
def toUint32 : Number → Fin (2 ^ 32)
  | .finite x => Fin.ofNat (2 ^ 32) (Number.truncated x.value).toNat
  | _ => 0

/-- `uint32_length`. -/
def uint32Length (number : Number) : Fin (2 ^ 32) :=
  match number with
  | .finite x =>
    if x.value = 0 then 0
    else
      let modulo := number.trunc.fmod lengthModulus
      toUint32 (if belowZero modulo then modulo.add lengthModulus else modulo)
  | _ => 0

/-- `==` on doubles. -/
def equalNumbers : Number → Number → Bool
  | .finite x, .finite y => x.value = y.value
  | .infinite x, .infinite y => x = y
  | _, _ => false

/-- `oseo_internal_to_array_length`. The value is converted twice. -/
def toArrayLength (first second : Conversion) (h : Heap) :
    Heap × Except Outcome (Fin (2 ^ 32)) :=
  match first h with
  | (h, .error outcome) => (h, .error outcome)
  | (h, .ok uint32) =>
    let converted := uint32Length uint32
    match second h with
    | (h, .error outcome) => (h, .error outcome)
    | (h, .ok number) =>
      (h, if equalNumbers (.ofInt converted) number then .ok converted
        else .error (.rangeError "Invalid array length."))

/-! ## Assignment and definition -/

/-- `oseo_object_set` for the `length` of an array. -/
def assignLength (first second : Conversion) (h : Heap) (o : ℕ) (value : Value)
    (strict : Bool) : Heap × Outcome :=
  match setArrayLength h o value strict false with
  | .lengthConversion =>
    match toArrayLength first second h with
    | (h, .error outcome) => (h, outcome)
    | (h, .ok requested) => setArrayLengthConverted h o value requested strict false
  | outcome => (h, outcome)

/-- The fields of a data descriptor that the program gives, apart from the value. -/
structure LengthDescriptor where
  hasValue : Bool
  configurable : Option Bool
  enumerable : Option Bool
  writable : Option Bool

/-- The descriptor of an assignment. -/
def LengthDescriptor.assigned : LengthDescriptor := ⟨true, none, none, none⟩

/-- `define_data_property` for the `length` of an array, after its caller has taken the fields the
descriptor leaves out from the property. -/
def defineLength (first second : Conversion) (h : Heap) (o : ℕ) (value : Value)
    (descriptor : LengthDescriptor) : Heap × Outcome :=
  let current := (ownPropertyDescriptor h o lengthKey).map Descriptor.attributes
  let attributes : OseoPropertyAttributes :=
    ⟨descriptor.configurable.getD (current.any (·.configurable)),
      descriptor.enumerable.getD (current.any (·.enumerable)),
      descriptor.writable.getD (current.any (·.writable)), false⟩
  if descriptor.hasValue then
    match toArrayLength first second h with
    | (h, converted) =>
      defineArrayLength h o value attributes true descriptor.writable.isNone converted
  else defineArrayLength h o value attributes false descriptor.writable.isNone (.ok 0)

/-! ## ArraySetLength -/

/-- ToUint32: the integer towards zero, modulo `2 ^ 32`. -/
def uint32Of : Number → ℤ
  | .finite x => Number.truncated x.value % 2 ^ 32
  | _ => 0

/-- What a program sees of an array: its length and the rest of its own properties, in the order of
their creation. -/
structure ArrayState where
  length : ℕ
  lengthWritable : Bool
  properties : List OseoProperty
  prototype : Value
  extensible : Bool

/-- The array that an object of the heap stores. -/
def arrayState (object : OseoOrdinaryObject) : ArrayState :=
  ⟨object.arrayLength, object.lengthWritable, object.properties, object.prototype,
    object.extensible⟩

/-- [[Delete]] of an element, where it does not fail. -/
def deleteElement (index : ℕ) (properties : List OseoProperty) : Option (List OseoProperty) :=
  match properties.find? fun property => arrayIndex property.key = some index with
  | none => some properties
  | some property =>
    if property.attributes.configurable then
      some (properties.filter fun property => arrayIndex property.key ≠ some index)
    else none

/-- The elements below a bound are deleted in descending order, down to a least one; with the
index of the element that is not deleted. -/
def deleteElements (least : ℕ) : ℕ → List OseoProperty → List OseoProperty × Option ℕ
  | 0, properties => (properties, none)
  | index + 1, properties =>
    if index < least then (properties, none)
    else match deleteElement index properties with
      | none => (properties, some index)
      | some kept => deleteElements least index kept

/-- OrdinaryDefineOwnProperty of `length`, where it does not fail. The property is neither
configurable nor enumerable. -/
def ArrayState.define (array : ArrayState) (length : Option ℕ) (descriptor : LengthDescriptor) :
    Option ArrayState :=
  if descriptor.configurable = some true || descriptor.enumerable = some true then none
  else if !array.lengthWritable &&
      (descriptor.writable = some true || length.any (· ≠ array.length)) then none
  else some { array with
    length := length.getD array.length
    lengthWritable := descriptor.writable.getD array.lengthWritable }

/-- ArraySetLength from the conversion of the value on, and whether it succeeds. -/
def ArrayState.setLength (array : ArrayState) (requested : ℕ) (descriptor : LengthDescriptor) :
    ArrayState × Bool :=
  if array.length ≤ requested then
    match array.define requested descriptor with
    | none => (array, false)
    | some defined => (defined, true)
  else if !array.lengthWritable then (array, false)
  else
    -- The length stays writable until the elements are deleted.
    let last : Bool := descriptor.writable = some false
    match array.define requested
        { descriptor with writable := if last then some true else descriptor.writable } with
    | none => (array, false)
    | some defined =>
      match deleteElements requested array.length defined.properties with
      | (properties, none) =>
        ({ defined with properties, lengthWritable := defined.lengthWritable && !last }, true)
      | (properties, some index) =>
        ({ defined with
            properties
            length := index + 1
            lengthWritable := defined.lengthWritable && !last }, false)

/-- The conversions of ArraySetLength. -/
def convertLength (first second : Conversion) (h : Heap) : Heap × Except Outcome ℤ :=
  match first h with
  | (h, .error outcome) => (h, .error outcome)
  | (h, .ok uint32) =>
    match second h with
    | (h, .error outcome) => (h, .error outcome)
    | (h, .ok number) =>
      (h, if equalNumbers (.ofInt (uint32Of uint32)) number then .ok (uint32Of uint32)
        else .error (.rangeError "Invalid array length."))

/-- ArraySetLength: the heap the conversions leave, the array after it, and its completion. -/
def arraySetLength (first second : Conversion) (h : Heap) (o : ℕ)
    (descriptor : LengthDescriptor) : Heap × ArrayState × Except Outcome Bool :=
  if descriptor.hasValue then
    match convertLength first second h with
    | (h, .error outcome) => (h, arrayState (h.object o), .error outcome)
    | (h, .ok requested) =>
      let (array, succeeded) := (arrayState (h.object o)).setLength requested.toNat descriptor
      (h, array, .ok succeeded)
  else match (arrayState (h.object o)).define none descriptor with
    | none => (h, arrayState (h.object o), .ok false)
    | some array => (h, array, .ok true)

/-! ## Requests -/

/-- A program writes the length of an array. -/
inductive LengthRequest
  | assignment (strict : Bool)
  | definition (descriptor : LengthDescriptor)

/-- What the runtime does. -/
def LengthRequest.perform (first second : Conversion) (h : Heap) (o : ℕ) (value : Value) :
    LengthRequest → Heap × Outcome
  | .assignment strict => assignLength first second h o value strict
  | .definition descriptor => defineLength first second h o value descriptor

/-- What ECMA-262 prescribes. OrdinarySet leaves a read-only length alone. -/
def LengthRequest.prescribed (first second : Conversion) (h : Heap) (o : ℕ) :
    LengthRequest → Heap × ArrayState × Except Outcome Bool
  | .assignment _ =>
    if !(h.object o).lengthWritable then (h, arrayState (h.object o), .ok false)
    else arraySetLength first second h o .assigned
  | .definition descriptor => arraySetLength first second h o descriptor

/-- How the runtime reports a completion. -/
def LengthRequest.Reports (o : ℕ) (value : Value) (completion : Except Outcome Bool)
    (outcome : Outcome) : LengthRequest → Prop
  | .assignment strict =>
    match completion with
    | .error thrown => outcome = thrown
    | .ok true => outcome = .normal value
    | .ok false => if strict then ∃ message, outcome = .typeError message
      else outcome = .normal value
  | .definition _ =>
    match completion with
    | .error thrown => outcome = thrown
    | .ok true => outcome = .normal (.object o)
    | .ok false => ∃ message, outcome = .refused message

/-- The runtime does what ECMA-262 prescribes: the array and the completion are as prescribed, and
nothing else is written once the conversions are over. -/
structure LengthRequest.Conforms (request : LengthRequest) (first second : Conversion) (h : Heap)
    (o : ℕ) (value : Value) : Prop where
  array : arrayState ((request.perform first second h o value).1.object o) =
    (request.prescribed first second h o).2.1
  others : ∀ o', o' ≠ o → (request.perform first second h o value).1.object o' =
    (request.prescribed first second h o).1.object o'
  cells : (request.perform first second h o value).1.cell =
    (request.prescribed first second h o).1.cell
  reports : request.Reports o value (request.prescribed first second h o).2.2
    (request.perform first second h o value).2

end Oseo.PropertyStorage
